import Classwright.Proofs.Readback
import Mathlib.Data.List.Sort
import Mathlib.Data.String.Basic

/-!
# Nominated interfaces

The interfaces that hooks name for a class are a set: neither their order nor their repetitions are
to be seen in the source. The header lists their names in ascending order, each of them once, and an
interface contract among them.
-/

namespace Classwright

namespace Synthesis

variable {hooks : Hooks} {contract : Descriptor} {className name : String}

/-! ### Names in the header -/

theorem nodup_distinct {α : Type} [BEq α] [LawfulBEq α] (as : List α) : (distinct as).Nodup := by
  induction as with
  | nil => exact List.nodup_nil
  | cons a as ih =>
    rw [distinct, List.nodup_cons]
    constructor
    · intro again
      have other := (List.mem_filter.1 again).2
      exact absurd rfl (bne_iff_ne.1 other)
    · exact ih.filter _

theorem mem_distinct {α : Type} [BEq α] [LawfulBEq α] {a : α} {as : List α} :
    a ∈ distinct as ↔ a ∈ as := by
  rw [distinct_eq]
  exact List.mem_eraseDups

theorem sorted_ascending (names : List String) : (ascending names).Pairwise (· ≤ ·) :=
  List.pairwise_mergeSort' (· ≤ ·) names

/-- Names are in ascending order, and none is there twice. -/
theorem sorted_meantInterfaces (hooks : Hooks) (contract : Descriptor) :
    (meantInterfaces hooks contract).Pairwise (· < ·) := by
  have once : (meantInterfaces hooks contract).Nodup := by
    rw [meantInterfaces, ascending, List.nodup_mergeSort, ← distinct_eq]
    exact nodup_distinct _
  have sorted : (meantInterfaces hooks contract).Pairwise (· ≤ ·) := sorted_ascending _
  exact (sorted.and once).imp fun both => lt_of_le_of_ne both.1 both.2

/-- Interfaces that are the same in any order and any number of times give one header. -/
theorem meantInterfaces_congr {given : Descriptor → List Descriptor}
    (same : ∀ i, i ∈ given contract ↔ i ∈ hooks.interfaces contract) :
    meantInterfaces { hooks with interfaces := given } contract
      = meantInterfaces hooks contract := by
  apply (sorted_meantInterfaces _ _).eq_of_mem_iff (sorted_meantInterfaces _ _)
  intro name
  rw [mem_meantInterfaces_iff, mem_meantInterfaces_iff]
  simp only [same]

/-- What a header consists of. -/
theorem header_eq (className : String) (superclass : Option String) (interfaces : List String) :
    ∃ extending, header className superclass interfaces = "public class " ++ className ++ extending
        ++ (if interfaces = [] then "" else " implements " ++ String.intercalate ", " interfaces)
        ++ " \x7b\n" ∧
      (extending = "" ∨ ∃ s, extending = " extends " ++ s) := by
  unfold header
  simp only [List.isEmpty_iff]
  cases superclass.filter (· != Builtin.object) with
  | none => exact ⟨_, rfl, .inl rfl⟩
  | some s => exact ⟨_, rfl, .inr ⟨s, rfl⟩⟩

theorem mem_firstOfName {ds : List Descriptor} :
    name ∈ (firstOfName ds).map (·.name) ↔ ∃ d ∈ ds, d.name = name := by
  rw [firstOfName_names, mem_distinct]
  exact List.mem_map

end Synthesis

open Synthesis

/-- The order in which hooks name interfaces does not show in the source, and no repetition does. If
two lists of interfaces have the same members, in any order and any number of times, then both of
them lead to a source or neither does; a list does just if the contract can be implemented and what
the hooks name fits in the header. The two texts are the same. After the imports they open with
`public class`, the name, what is extended, and `implements` with every name once, in ascending
order and with commas between them, the contract's own among them if that is an interface. The types
that are nominated have the same names. -/
theorem interfaces_unordered (hooks : Hooks) (given : Descriptor → List Descriptor)
    (contract : Descriptor) (className : String)
    (same : ∀ i, i ∈ given contract ↔ i ∈ hooks.interfaces contract) :
    ((∃ source, synthesize { hooks with interfaces := given } contract className = .ok source) ↔
      ∃ source, synthesize hooks contract className = .ok source) ∧
    ((∃ source, synthesize hooks contract className = .ok source) ↔
      contract.isContract = true ∧
        (contract.isInterface = true → ∀ s ∈ hooks.superclass contract, s.isClass = true) ∧
        ∀ i ∈ hooks.interfaces contract, i.isInterface = true) ∧
    ∀ source source', synthesize hooks contract className = .ok source →
      synthesize { hooks with interfaces := given } contract className = .ok source' →
        source'.text = source.text ∧
        (∃ extending names,
          source.text = importLines (distinct (hooks.imports contract))
            ++ ("public class " ++ className ++ extending
              ++ (if names = [] then "" else " implements " ++ String.intercalate ", " names)
              ++ " \x7b\n")
            ++ members hooks contract className ++ "\x7d\n" ∧
          (extending = "" ∨ ∃ s, extending = " extends " ++ s) ∧
          names.Pairwise (· < ·) ∧
          ∀ name, name ∈ names ↔ (∃ i ∈ hooks.interfaces contract, i.name = name) ∨
            contract.isInterface = true ∧ name = contract.name) ∧
        ∀ name, name ∈ source'.nominated.map (·.name) ↔ name ∈ source.nominated.map (·.name) := by
  have sameHeader : meantInterfaces { hooks with interfaces := given } contract
      = meantInterfaces hooks contract := meantInterfaces_congr same
  refine ⟨?_, synthesize_isOk_iff, ?_⟩
  · rw [synthesize_isOk_iff, synthesize_isOk_iff]
    simp only [same]
  · intro source source' made made'
    obtain ⟨-, -, superclass, chosen, named, rfl⟩ := synthesize_eq_ok_iff.1 made
    obtain ⟨-, -, superclass', chosen', named', rfl⟩ := synthesize_eq_ok_iff.1 made'
    -- the choice of a superclass does not look at the interfaces
    cases named.symm.trans named'
    obtain ⟨extending, spelled, extends_⟩ :=
      header_eq className superclass (meantInterfaces hooks contract)
    refine ⟨?_, ⟨extending, _, congrArg (_ ++ · ++ _ ++ _) spelled, extends_,
      sorted_meantInterfaces hooks contract, fun name => mem_meantInterfaces_iff⟩, ?_⟩
    · dsimp only
      rw [sameHeader]
      rfl
    · intro name
      simp only [List.map_append, List.mem_append, mem_firstOfName, same]

namespace Sample

/-- An interface of this name and with this method. -/
def marker (name method : String) : Descriptor :=
  { name, kind := .interface, methods := [{ name := method }] }

/-- The contract itself is among the interfaces, and two of them have one name. -/
def markers : List Descriptor :=
  [marker "app.Log" "log", greeter, marker "app.Audit" "audit", marker "app.Log" "note"]

/-- The same interfaces in another order, one of them twice. -/
def shuffled : List Descriptor :=
  [marker "app.Log" "note", marker "app.Audit" "audit", marker "app.Log" "log",
    marker "app.Audit" "audit", greeter]

/-- The names stand in the header in ascending order, each of them once. -/
theorem markers_unordered :
    (∀ i, i ∈ shuffled ↔ i ∈ markers) ∧
    ∃ source source' names,
      synthesize { greeterHooks with interfaces := fun _ => markers } greeter "Made"
        = .ok source ∧
      synthesize { greeterHooks with interfaces := fun _ => shuffled } greeter "Made"
        = .ok source' ∧
      source'.text = source.text ∧
      (∃ before after, source.text = before ++ " implements " ++ String.intercalate ", " names
        ++ " \x7b\n" ++ after) ∧
      names = ["app.Audit", "app.Greeter", "app.Log"] ∧
      ∀ name, name ∈ source'.nominated.map (·.name) ↔ name ∈ source.nominated.map (·.name) := by
  have same : ∀ i, i ∈ shuffled ↔ i ∈ markers := by
    intro i
    simp only [shuffled, markers, List.mem_cons]
    tauto
  obtain ⟨both, fits, alike⟩ := interfaces_unordered
    { greeterHooks with interfaces := fun _ => markers } (fun _ => shuffled) greeter "Made" same
  obtain ⟨source, made⟩ := fits.2 (by decide)
  obtain ⟨source', made'⟩ := both.2 ⟨source, made⟩
  obtain ⟨text, ⟨extending, names, spelled, -, sorted, member⟩, nominated⟩ :=
    alike source source' made made'
  have listed : names = ["app.Audit", "app.Greeter", "app.Log"] := by
    apply sorted.eq_of_mem_iff (by decide)
    intro name
    rw [member]
    simp [markers, marker, greeter, Descriptor.isInterface]
    tauto
  rw [if_neg (by rw [listed]; nofun)] at spelled
  let hooks : Hooks := { greeterHooks with interfaces := fun _ => markers }
  let before := importLines (distinct (hooks.imports greeter))
    ++ ("public class " ++ "Made" ++ extending)
  let after := members hooks greeter "Made" ++ "\x7d\n"
  have text_ : source.text = before ++ " implements " ++ String.intercalate ", " names ++ " \x7b\n"
      ++ after := by
    rw [spelled]
    simp only [before, after, hooks, String.append_assoc]
  exact ⟨same, source, source', names, made, made', text, ⟨before, after, text_⟩, listed, nominated⟩

end Sample

end Classwright
