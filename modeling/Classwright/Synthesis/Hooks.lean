import Classwright.Type.Descriptor

/-!
# Hooks

What the user of a generator adds to the class that is synthesized for a contract. Hooks that are
left out add nothing.
-/

namespace Classwright

structure Hooks where
  imports : Descriptor → List String := fun _ => []
  /-- Asked for interface contracts only. -/
  superclass : Descriptor → Option Descriptor := fun _ => none
  interfaces : Descriptor → List Descriptor := fun _ => []
  classBody : Descriptor → Option String := fun _ => none
  /-- Without a body the class has no constructor of its own. -/
  constructorBody : Descriptor → Option String := fun _ => none
  methodBody : Descriptor → Method → Option String := fun _ _ => none

namespace Hooks

/-- Every method throws a text that says so. -/
def stub : Hooks where
  methodBody contract method :=
    some ("throw \"" ++ contract.name ++ "." ++ method.name ++ " is not implemented\";")

end Hooks

end Classwright
