import Classwright.Synthesis.Hooks
import Classwright.Synthesis.Naming
import Classwright.Text.Case

/-!
# Sources of generated classes

`synthesize` writes the source of a class that implements a contract: imports, the class header, the
members that the hooks give, a constructor, and a method for each abstract method of the contract.
-/

namespace Classwright

/-- Why there is no class for a contract. -/
inductive SynthesisError
  | notImplementable (contract : String) (kind : TypeKind)
  | notASuperclass (contract : String) (type : Descriptor)
  | notAnInterface (contract : String) (type : Descriptor)
deriving DecidableEq

namespace SynthesisError

def contractMessage (contract reason : String) : String :=
  "Invalid contract '" ++ contract ++ "': " ++ reason

def hierarchyMessage (contract reason : String) : String :=
  "Invalid hierarchy for '" ++ contract ++ "': " ++ reason

def message : SynthesisError → String
  | notImplementable contract kind =>
    contractMessage contract (kind.text ++ " types cannot be implemented")
  | notASuperclass contract type =>
    hierarchyMessage contract (type.text ++ " cannot be used as a superclass")
  | notAnInterface contract type =>
    hierarchyMessage contract (type.text ++ " cannot be implemented as an interface")

end SynthesisError

/-- A synthesized source, and the types that the hooks have named for its header. -/
structure ClassSource where
  className : String
  text : String
  nominated : List Descriptor

def ClassSource.fileName (s : ClassSource) : String := s.className ++ "." ++ sourceExtension

namespace Synthesis

/-- The list without repetitions; the first of equal members stays. -/
def distinct {α : Type} [BEq α] : List α → List α
  | [] => []
  | a :: as => a :: (distinct as).filter (· != a)

/-- Removes line feeds at both ends. -/
def trimLineFeeds (cs : List Char) : List Char :=
  ((cs.dropWhile (· == '\n')).reverse.dropWhile (· == '\n')).reverse

def trimEnd (cs : List Char) : List Char := (cs.reverse.dropWhile Text.isBlank).reverse

/-- A line without white space at its end, indented unless nothing is left. -/
def indentLine (level : Nat) (line : List Char) : List Char :=
  let line := trimEnd line
  (if line.isEmpty then [] else List.replicate (4 * level) ' ' ++ line) ++ ['\n']

/-- Indents a fragment, without the blank lines at its ends. -/
def indent (level : Nat) (fragment : String) : String :=
  String.ofList ((Text.lines (trimLineFeeds fragment.toList)).flatMap (indentLine level))

/-- A member with a body. -/
def bodied (header body : String) : String :=
  "    " ++ header ++ " \x7b\n" ++ indent 2 body ++ "    \x7d\n"

def paramList (params : List TypeRef) : String :=
  String.intercalate ", " (params.mapIdx fun i t => t.canonicalName ++ " " ++ paramName i)

def methodHeader (m : Method) : String :=
  (if m.visibility = .shielded then "protected " else "public ") ++ m.returnType.canonicalName
    ++ " " ++ m.name ++ "(" ++ paramList m.params ++ ")"
    ++ (if m.throws.isEmpty then "" else " throws " ++ String.intercalate ", " m.throws)

/-- The superclass of the header, and the nominated type if the hooks chose it. -/
def superclassOf (hooks : Hooks) (contract : Descriptor) :
    Except SynthesisError (Option String × List Descriptor) :=
  if contract.isInterface then
    match hooks.superclass contract with
    | none => .ok (none, [])
    | some s =>
      if s.isClass then .ok (some s.name, [s]) else .error (.notASuperclass contract.name s)
  else .ok (some contract.name, [])

/-- The first type of each name. -/
def firstOfName : List Descriptor → List Descriptor
  | [] => []
  | d :: ds => d :: (firstOfName ds).filter (·.name != d.name)

/-- The interfaces that the hooks name, the first of each name. -/
def interfacesOf (hooks : Hooks) (contract : Descriptor) :
    Except SynthesisError (List Descriptor) :=
  let given := hooks.interfaces contract
  match given.find? fun i => !i.isInterface with
  | some i => .error (.notAnInterface contract.name i)
  | none => .ok (firstOfName given)

/-- Puts names in ascending order. -/
def ascending (names : List String) : List String := names.mergeSort fun a b => decide (a ≤ b)

def importLines (imports : List String) : String :=
  if imports.isEmpty then ""
  else String.join (imports.map fun i => "import " ++ i ++ ";\n") ++ "\n"

def header (className : String) (superclass : Option String) (interfaces : List String) : String :=
  "public class " ++ className
    ++ (match superclass.filter (· != Builtin.object) with
      | none => ""
      | some s => " extends " ++ s)
    ++ (if interfaces.isEmpty then "" else " implements " ++ String.intercalate ", " interfaces)
    ++ " \x7b\n"

/-- The members of the class, a blank line apart. -/
def members (hooks : Hooks) (contract : Descriptor) (className : String) : String :=
  let own := (hooks.classBody contract).filter fun b => !(Text.trim b.toList).isEmpty
  let constructor := hooks.constructorBody contract
  String.intercalate "\n"
    ((own.map (indent 1)).toList
      ++ (constructor.map (bodied ("public " ++ className ++ "()"))).toList
      ++ contract.abstractMethods.map fun m =>
        bodied (methodHeader m) ((hooks.methodBody contract m).getD ""))

end Synthesis

open Synthesis

/-- The source of the class of this name that implements the contract. -/
def synthesize (hooks : Hooks) (contract : Descriptor) (className : String) :
    Except SynthesisError ClassSource := do
  if !contract.isContract then throw (.notImplementable contract.name contract.kind)
  let (superclass, nominated) ← superclassOf hooks contract
  let interfaces ← interfacesOf hooks contract
  let names := interfaces.map (·.name) ++ (if contract.isInterface then [contract.name] else [])
  return {
    className := className
    text := importLines (distinct (hooks.imports contract))
      ++ header className superclass (ascending (distinct names))
      ++ members hooks contract className ++ "\x7d\n"
    nominated := nominated ++ interfaces }

end Classwright
