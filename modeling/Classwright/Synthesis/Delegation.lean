import Classwright.Synthesis.Hooks
import Classwright.Synthesis.Naming

/-!
# Delegating classes

Hooks whose methods pass every call on to one handler. The class has private fields for the handler,
for the identity of the interface and for the descriptor of each method; the fields are filled after
an instance has been made.
-/

namespace Classwright

namespace Delegation

def handlerField : String := "handler"

def interfaceField : String := "iface"

/-- The field of a method when `earlier` are the methods declared before it: numbered if the
contract overloads the name. -/
def methodField (methods earlier : List Method) (m : Method) : String :=
  let base := "method_" ++ m.name
  if methods.countP (·.name == m.name) = 1 then base
  else base ++ "$" ++ toString (earlier.countP (·.name == m.name))

def fieldsFrom (methods earlier : List Method) : List Method → List (String × Method)
  | [] => []
  | m :: later =>
    (methodField methods earlier m, m) :: fieldsFrom methods (earlier ++ [m]) later

/-- The fields that hold the descriptors of the contract's methods, in the order of declaration. -/
def methodFields (contract : Descriptor) : List (String × Method) :=
  fieldsFrom contract.methods [] contract.methods

def declaration (type name : String) : String := "private " ++ type ++ " " ++ name ++ ";\n"

def classBody (contract : Descriptor) : String :=
  declaration Builtin.handler handlerField ++ declaration Builtin.class_ interfaceField
    ++ String.join ((methodFields contract).map fun f => declaration Builtin.method f.1)

/-- Calls the handler with the interface, the method's descriptor and the parameters. -/
def call (field : String) (arity : Nat) : String :=
  handlerField ++ ".call("
    ++ String.intercalate ", " (interfaceField :: field :: (List.range arity).map paramName) ++ ")"

def methodBody (contract : Descriptor) (m : Method) : Option String :=
  ((methodFields contract).find? (·.2 == m)).map fun (field, _) =>
    let call := call field m.arity
    match m.returnType with
    | .void => call ++ ";"
    | type =>
      if type == .object then "return " ++ call ++ ";"
      else "return (" ++ type.canonicalName ++ ") " ++ call ++ ";"

end Delegation

/-- Every method goes to a handler. -/
def Hooks.delegating : Hooks where
  classBody contract := some (Delegation.classBody contract)
  methodBody := Delegation.methodBody

end Classwright
