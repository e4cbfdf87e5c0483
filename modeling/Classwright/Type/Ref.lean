import Classwright.Type.Primitive
import Classwright.Text.Lines

/-!
# References to types

How a signature names a type, and the reference types that are known without being declared.
-/

namespace Classwright

inductive TypeRef
  | void
  | primitive (kind : Primitive)
  | named (name : String)
  | array (element : TypeRef)
deriving DecidableEq, Repr

namespace Builtin

def object : String := "Object"

def string : String := "String"

def class_ : String := "Class"

def method : String := "Method"

def handler : String := "Handler"

/-- Names of the types that every registry knows. -/
def all : List String := [object, string, class_, method, handler]

end Builtin

/-- The part of a dotted name after its last dot. -/
def simpleName (name : String) : String := String.ofList (Text.splitLastDot name.toList).2

/-- The part of a dotted name before its last dot. -/
def packageName? (name : String) : Option String :=
  (Text.splitLastDot name.toList).1.map String.ofList

namespace TypeRef

def object : TypeRef := named Builtin.object

def string : TypeRef := named Builtin.string

def int : TypeRef := primitive .int

def boolean : TypeRef := primitive .boolean

def isVoid : TypeRef → Bool
  | void => true
  | _ => false

/-- The type as sources and messages spell it. -/
def canonicalName : TypeRef → String
  | void => "void"
  | primitive kind => kind.keyword
  | named name => name
  | array element => element.canonicalName ++ "[]"

instance : ToString TypeRef := ⟨canonicalName⟩

/-- The spelling without packages. -/
def simple : TypeRef → String
  | named name => simpleName name
  | array element => element.simple ++ "[]"
  | t => t.canonicalName

/-- An array of `dims` dimensions over `t`. -/
def withDims (t : TypeRef) : Nat → TypeRef
  | 0 => t
  | dims + 1 => array (t.withDims dims)

end TypeRef

/-- `name(T1,T2)`: what tells overloads apart. -/
def printedSignature (name : String) (params : List TypeRef) : String :=
  name ++ "(" ++ String.intercalate "," (params.map TypeRef.canonicalName) ++ ")"

end Classwright
