import Classwright.Code.Basic
import Classwright.Number.Shortest

/-!
# Values

What expressions, host code and handlers work on. Objects, loaded classes and handlers are known by
their numbers; what changes about them is kept in the store.
-/

namespace Classwright

/-- A class that has been loaded, with the registry of types it was linked against. -/
structure LoadedClass where
  id : Nat
  code : Code.Class
  registry : Nat
  maxCallDepth : Nat

/-- An instance of a loaded class. -/
structure Object where
  id : Nat
  cls : LoadedClass

inductive Value
  | null
  | bool (value : Bool)
  | byte (value : Int8)
  | short (value : Int16)
  | char (value : Char)
  | int (value : Int32)
  | long (value : Int64)
  | float (value : Binary32)
  | double (value : Binary64)
  | str (value : String)
  | object (value : Object)
  | type (value : Descriptor)
  | method (value : Method)
  | handler (id : Nat)
  | array (items : List Value)

instance : Inhabited Value := ⟨.null⟩

namespace Object

/-- Whether both are the same instance. -/
def same (a b : Object) : Bool := a.id == b.id

/-- Class name and number. -/
def text (o : Object) : String := o.cls.code.name ++ "@" ++ Text.hexDigits o.id

end Object

namespace Value

/-- What a field or variable of this type holds at first. -/
def default : TypeRef → Value
  | .primitive .boolean => bool false
  | .primitive .byte => byte 0
  | .primitive .short => short 0
  | .primitive .char => char '\x00'
  | .primitive .int => int 0
  | .primitive .long => long 0
  | .primitive .float => float (.zero false)
  | .primitive .double => double (.zero false)
  | _ => null

def ofConstant : Code.Constant → Value
  | .null => null
  | .bool b => bool b
  | .int v => int v
  | .long v => long v
  | .float v => float v
  | .double v => double v
  | .char c => char c
  | .str s => str s

def isNull : Value → Bool
  | null => true
  | _ => false

/-- The primitive type of a value that is no reference. -/
def primitive? : Value → Option Primitive
  | bool _ => some .boolean
  | byte _ => some .byte
  | short _ => some .short
  | char _ => some .char
  | int _ => some .int
  | long _ => some .long
  | float _ => some .float
  | double _ => some .double
  | _ => none

/-- The type of the value, as messages name it. -/
def kindName : Value → String
  | null => "null"
  | bool _ => Primitive.boolean.keyword
  | byte _ => Primitive.byte.keyword
  | short _ => Primitive.short.keyword
  | char _ => Primitive.char.keyword
  | int _ => Primitive.int.keyword
  | long _ => Primitive.long.keyword
  | float _ => Primitive.float.keyword
  | double _ => Primitive.double.keyword
  | str _ => Builtin.string
  | object o => o.cls.code.name
  | type _ => Builtin.class_
  | method _ => Builtin.method
  | handler _ => Builtin.handler
  | array _ => Builtin.object ++ "[]"

/-- Interfaces are told apart from classes. -/
def typeText (d : Descriptor) : String :=
  (if d.isInterface then "interface " else "class ") ++ d.name

mutual

def text : Value → String
  | null => "null"
  | bool b => if b then "true" else "false"
  | byte v => toString v.toInt
  | short v => toString v.toInt
  | char c => String.singleton c
  | int v => toString v.toInt
  | long v => toString v.toInt
  | float v => (v.toFormat .double).valueText
  | double v => v.valueText
  | str s => s
  | object o => o.text
  | type d => typeText d
  | method m => m.text
  | handler _ => Builtin.handler
  | array items => "[" ++ String.intercalate ", " (texts items) ++ "]"

def texts : List Value → List String
  | [] => []
  | v :: vs => v.text :: texts vs

end

mutual

/-- Equality: numbers of one type by value, references to objects and handlers by identity,
everything else by content. -/
def equals : Value → Value → Bool
  | null, null => true
  | bool a, bool b => a == b
  | byte a, byte b => a == b
  | short a, short b => a == b
  | char a, char b => a == b
  | int a, int b => a == b
  | long a, long b => a == b
  | float a, float b => a.same b
  | double a, double b => a.same b
  | str a, str b => a == b
  | object a, object b => a.same b
  | type a, type b => a == b
  | method a, method b => a == b
  | handler a, handler b => a == b
  | array as, array bs => allEqual as bs
  | _, _ => false

def allEqual : List Value → List Value → Bool
  | [], [] => true
  | a :: as, b :: bs => a.equals b && allEqual as bs
  | _, _ => false

end

def asBool? : Value → Option Bool
  | bool b => some b
  | _ => none

def asString? : Value → Option String
  | str s => some s
  | _ => none

def asObject? : Value → Option Object
  | object o => some o
  | _ => none

end Value

end Classwright
