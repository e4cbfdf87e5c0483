import Classwright.Machine.Value
import Classwright.Text.Escape
import Classwright.Type.Table

/-!
# Conversion of values

A cast converts between numeric types: integers wrap, floating numbers are cut to integers and move
to the nearest bound. Where a value is passed or stored, primitives may only widen and references
must already be of the type.
-/

namespace Classwright

/-- The declared types of each registry. -/
abbrev Tables := Nat → TypeTable

/-- Whether the class is the named type or stands below it. -/
def LoadedClass.isSubtypeOf (tables : Tables) (c : LoadedClass) (name : String) : Bool :=
  name == c.code.name || name == Builtin.object
    || (c.code.superclass :: c.code.interfaces).any fun parent =>
      (tables c.registry).isSubtype parent name

/-- The host types that a class inherits from, nearest first. -/
def LoadedClass.supertypes (tables : Tables) (c : LoadedClass) : List Descriptor :=
  (tables c.registry).lineage c.code.superclass c.code.interfaces

/-- A number before it is converted. -/
inductive Numeric
  | integral (value : Int64)
  | floating (value : Binary64)

namespace Numeric

/-- As an integer of 32 bits, from which narrower ones are cut. -/
def word : Numeric → Int32
  | integral v => v.toInt32
  | floating v => .ofInt (v.clamp Int32.minValue.toInt Int32.maxValue.toInt)

def long : Numeric → Int64
  | integral v => v
  | floating v => .ofInt (v.clamp Int64.minValue.toInt Int64.maxValue.toInt)

/-- Rounds once. -/
def single : Numeric → Binary32
  | integral v => .ofInt v.toInt
  | floating v => v.toFormat .single

def double : Numeric → Binary64
  | integral v => .ofInt v.toInt
  | floating v => v

end Numeric

namespace Value

/-- The character of a code of 16 bits; halves of surrogate pairs have none. -/
def charOfUnit (unit : Nat) : Char := (Text.charOfCode? unit).getD '\ufffd'

/-- The number that a value stands for; a character stands for the low 16 bits of its code. -/
def numeric? : Value → Option Numeric
  | byte v => some (.integral v.toInt64)
  | short v => some (.integral v.toInt64)
  | char c => some (.integral (.ofNat (c.toNat % UInt16.size)))
  | int v => some (.integral v.toInt64)
  | long v => some (.integral v)
  | float v => some (.floating (v.toFormat .double))
  | double v => some (.floating v)
  | _ => none

def ofNumeric (n : Numeric) : Primitive → Option Value
  | .boolean => none
  | .byte => some (byte n.word.toInt8)
  | .short => some (short n.word.toInt16)
  | .char => some (char (charOfUnit n.word.toUInt32.toUInt16.toNat))
  | .int => some (int n.word)
  | .long => some (long n.long)
  | .float => some (float n.single)
  | .double => some (double n.double)

/-- What a cast to a primitive type gives. -/
def convert (kind : Primitive) : Value → Option Value
  | bool b => if kind = .boolean then some (bool b) else none
  | v => v.numeric?.bind fun n => ofNumeric n kind

/-- Whether a value that is no array is a reference of the named type. -/
def isReference (tables : Tables) (name : String) : Value → Bool
  | null => true
  | str _ => name == Builtin.string
  | type _ => name == Builtin.class_
  | method _ => name == Builtin.method
  | handler _ => name == Builtin.handler
  | object o => o.cls.isSubtypeOf tables name
  | _ => false

/-- Whether the value is of the type as it stands. -/
def isInstanceOf (tables : Tables) : TypeRef → Value → Bool
  | .void, _ => false
  | .primitive kind, v => v.primitive? == some kind
  | .named name, v => name == Builtin.object || v.isReference tables name
  | .array _, .null => true
  | .array element, .array items => items.all (isInstanceOf tables element)
  | .array _, _ => false

/-- The value as one of the type, where no cast is written. -/
def coerceTo (tables : Tables) (target : TypeRef) (v : Value) : Option Value :=
  match target with
  | .primitive kind =>
    match v.primitive? with
    | some own => if own.widensTo kind then v.convert kind else none
    | none => none
  | target => if v.isInstanceOf tables target then some v else none

/-- Converts arguments for parameters; all must fit. -/
def coerceAll (tables : Tables) : List TypeRef → List Value → Option (List Value)
  | [], [] => some []
  | t :: ts, v :: vs => do return (← v.coerceTo tables t) :: (← coerceAll tables ts vs)
  | _, _ => none

end Value

end Classwright
