import Classwright.Machine.Failure
import Classwright.Text.Case

/-!
# Builtin methods

The methods that values answer without a class that declares them, as far as they need neither the
store nor host code.
-/

namespace Classwright.Builtin

/-- `h * 31 + n` for each member in turn, with wrap around. -/
def foldHash (start : Int32) (ns : List Int32) : Int32 := ns.foldl (fun h n => h * 31 + n) start

/-- The hash of a text counts its UTF-16 units. -/
def textHash (s : String) : Int32 :=
  foldHash 0 ((s.toList.flatMap Text.units16).map Int32.ofNat)

/-- Both halves of 64 bits taken together. -/
def halvesHash (v : UInt64) : Int32 := (v ^^^ (v >>> 32)).toUInt32.toInt32

mutual

def hash : Value → Int32
  | .null => 0
  | .bool b => if b then 1231 else 1237
  | .byte v => v.toInt32
  | .short v => v.toInt32
  | .char c => .ofNat c.toNat
  | .int v => v
  | .long v => halvesHash v.toUInt64
  | .float v => .ofNat v.bits.toNat
  | .double v => halvesHash (.ofNat v.bits.toNat)
  | .str s => textHash s
  | .object o => .ofNat o.id
  | .type d => textHash d.name
  | .method m => textHash m.signature
  | .handler id => .ofNat id
  | .array items => foldHash 1 (hashes items)

def hashes : List Value → List Int32
  | [] => []
  | v :: vs => hash v :: hashes vs

end

/-- What a method of an object answers when no class or host type above it implements it. -/
def ofObject (o : Object) (method : String) (args : List Value) : Option Value :=
  match method, args with
  | "toString", [] => some (.str o.text)
  | "equals", [other] => some (.bool ((other.asObject?.map (·.same o)).getD false))
  | "hashCode", [] => some (.int (hash (.object o)))
  | _, _ => none

/-- The text that a method of texts is given. -/
def textArgument (method : String) (v : Value) : Except Failure String :=
  match v with
  | .str s => .ok s
  | .null => .error (.nullReference ("String." ++ method ++ " argument"))
  | v => .error (.illegalArgument (.notAString method v.kindName))

def onText (s : String) (f : List Char → List Char) : Value := .str (String.ofList (f s.toList))

def ofText (s : String) (method : String) (args : List Value) : Option (Except Failure Value) :=
  match method, args with
  | "length", [] => some (.ok (.int (.ofNat (s.toList.flatMap Text.units16).length)))
  | "isEmpty", [] => some (.ok (.bool s.isEmpty))
  | "toUpperCase", [] => some (.ok (onText s Text.toUpper))
  | "toLowerCase", [] => some (.ok (onText s Text.toLower))
  | "trim", [] => some (.ok (onText s Text.trim))
  | "concat", [other] => some ((textArgument "concat" other).map fun t => .str (s ++ t))
  | "contains", [other] =>
    some ((textArgument "contains" other).map fun t => .bool (Text.occursIn t.toList s.toList))
  | _, _ => none

def ofType (d : Descriptor) (method : String) (args : List Value) : Option Value :=
  match method, args with
  | "getName", [] => some (.str d.name)
  | "getSimpleName", [] => some (.str (simpleName d.name))
  | _, _ => none

def ofMethod (m : Classwright.Method) (method : String) (args : List Value) : Option Value :=
  match method, args with
  | "getName", [] => some (.str m.name)
  | "getParameterCount", [] => some (.int (.ofNat m.arity))
  | _, _ => none

/-- What every value answers that is no object. -/
def ofAny (v : Value) (method : String) (args : List Value) : Option Value :=
  match method, args with
  | "toString", [] => some (.str v.text)
  | "equals", [other] => some (.bool (v.equals other))
  | "hashCode", [] => some (.int (hash v))
  | _, _ => none

/-- What a value answers that is neither an object nor a handler asked for a call. -/
def ofValue (v : Value) (method : String) (args : List Value) : Option (Except Failure Value) :=
  let own : Option (Except Failure Value) := match v with
    | .str s => ofText s method args
    | .type d => (ofType d method args).map .ok
    | .method m => (ofMethod m method args).map .ok
    | _ => none
  own.or ((ofAny v method args).map .ok)

end Classwright.Builtin
