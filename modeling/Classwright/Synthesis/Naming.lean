import Classwright.Text.Sha256

/-!
# Names in synthesized sources

The name of a generated class depends on nothing but the name of its contract.
-/

namespace Classwright

/-- How many digits of the digest go into a class name. -/
def hashDigits : Nat := 12

/-- The class that implements the contract of this name. -/
def classNameFor (contract : String) : String :=
  "Rtc" ++ String.ofList ((Sha256.digest contract.toUTF8.toList).take hashDigits)

/-- The name of the parameter at an index. -/
def paramName (index : Nat) : String := "par" ++ toString index

/-- Ending of the names of source files. -/
def sourceExtension : String := "morph"

end Classwright
