import Classwright.Type.Ref

/-!
# Static types

What is known about an expression before it runs, and the methods that builtin types answer.
-/

namespace Classwright.Check

/-- Type of an expression. `error` marks one that has been reported already. -/
inductive StaticType
  | void
  | null
  | primitive (kind : Primitive)
  | ref (type : TypeRef)
  | error
deriving DecidableEq, Repr

namespace StaticType

def of : TypeRef → StaticType
  | .void => void
  | .primitive kind => primitive kind
  | t => ref t

def string : StaticType := ref .string

def object : StaticType := ref .object

def boolean : StaticType := primitive .boolean

def int : StaticType := primitive .int

def text : StaticType → String
  | void => "void"
  | null => "<null>"
  | primitive kind => kind.keyword
  | ref t => t.canonicalName
  | error => "<error>"

/-- Whether it may stand as a condition; a reported error is not reported again. -/
def isCondition : StaticType → Bool
  | primitive .boolean | error => true
  | _ => false

def numeric? : StaticType → Option Primitive
  | primitive kind => if kind.isNumeric then some kind else none
  | _ => none

def isString (t : StaticType) : Bool := t == string

def isReference : StaticType → Bool
  | ref _ | null => true
  | _ => false

/-- Name of a class or interface. -/
def named? : StaticType → Option String
  | ref (.named name) => some name
  | _ => none

end StaticType

/-- A method that values of a builtin type answer. With `open_`, any arguments may follow those
for the parameters. -/
structure BuiltinMethod where
  params : List TypeRef
  returnType : TypeRef
  open_ : Bool := false

namespace BuiltinMethod

/-- Methods of strings, classes, methods and handlers. -/
def ofType? (typeName name : String) (arity : Nat) : Option BuiltinMethod :=
  if typeName = Builtin.string then
    match name, arity with
    | "length", 0 => some ⟨[], .int, false⟩
    | "isEmpty", 0 => some ⟨[], .boolean, false⟩
    | "toUpperCase", 0 | "toLowerCase", 0 | "trim", 0 => some ⟨[], .string, false⟩
    | "concat", 1 => some ⟨[.string], .string, false⟩
    | "contains", 1 => some ⟨[.string], .boolean, false⟩
    | _, _ => none
  else if typeName = Builtin.class_ then
    match name, arity with
    | "getName", 0 | "getSimpleName", 0 => some ⟨[], .string, false⟩
    | _, _ => none
  else if typeName = Builtin.method then
    match name, arity with
    | "getName", 0 => some ⟨[], .string, false⟩
    | "getParameterCount", 0 => some ⟨[], .int, false⟩
    | _, _ => none
  else if typeName = Builtin.handler ∧ name = "call" ∧ 2 ≤ arity then
    some ⟨[.named Builtin.class_, .named Builtin.method], .object, true⟩
  else none

/-- Methods that every value answers. -/
def ofAny? (name : String) (arity : Nat) : Option BuiltinMethod :=
  match name, arity with
  | "toString", 0 => some ⟨[], .string, false⟩
  | "equals", 1 => some ⟨[.object], .boolean, false⟩
  | "hashCode", 0 => some ⟨[], .int, false⟩
  | _, _ => none

def find? (receiver : StaticType) (name : String) (arity : Nat) : Option BuiltinMethod :=
  (receiver.named?.bind fun typeName => ofType? typeName name arity).or (ofAny? name arity)

end BuiltinMethod

end Classwright.Check
