import Classwright.Proofs.Lineage
import Mathlib.Data.List.Nodup

/-!
# The types above a type by superclass links

The superclasses of a type are those that one link after the other leads to, through declared types,
nearest first and each of them once, whatever links end nowhere or go in a circle. On a circle
through the type itself the walk comes back to it before it ends.
-/

namespace Classwright

namespace TypeTable

/-- The declared type to which as many superclass links lead, each from a declared type. -/
def above? (t : TypeTable) (name : String) : Nat → Option Descriptor
  | 0 => t.lookup name
  | n + 1 => (t.above? name n).bind fun d => d.superclass.bind t.lookup

/-- Superclass links lead from the type back to itself. -/
def Circular (t : TypeTable) (name : String) : Prop :=
  ∃ n d, t.above? name (n + 1) = some d ∧ d.name = name

variable {t : TypeTable} {name : String} {d : Descriptor} {n : Nat}

theorem lookup_of_above? (there : t.above? name n = some d) : t.lookup d.name = some d := by
  have found : ∃ s, t.lookup s = some d := by
    cases n with
    | zero => exact ⟨name, there⟩
    | succ n =>
      obtain ⟨e, _, linked⟩ := Option.bind_eq_some_iff.1 there
      obtain ⟨s, _, found⟩ := Option.bind_eq_some_iff.1 linked
      exact ⟨s, found⟩
  obtain ⟨s, found⟩ := found
  rw [name_of_lookup found]
  exact found

/-- The first link can be taken first. -/
theorem above?_succ (found : t.lookup name = some d) (n : Nat) :
    t.above? name (n + 1) = d.superclass.bind fun s => t.above? s n := by
  induction n with
  | zero =>
    rw [above?, above?, found]
    rfl
  | succ n ih =>
    rw [above?, ih, Option.bind_assoc]
    rfl

theorem leads_of_above? (there : t.above? name n = some d) :
    Leads t superclassLinks name d.name := by
  induction n generalizing d with
  | zero =>
    rw [name_of_lookup there]
    exact .refl name
  | succ n ih =>
    obtain ⟨e, below, linked⟩ := Option.bind_eq_some_iff.1 there
    obtain ⟨s, link, found⟩ := Option.bind_eq_some_iff.1 linked
    rw [name_of_lookup found]
    exact (ih below).trans (.single (lookup_of_above? below) (Option.mem_toList.2 link))

/-! ### The chain -/

/-- What stands at a place of the chain is as many links away. -/
theorem above?_of_getElem?_chain {visited : List String} {link : Option String} {i : Nat}
    (there : (t.chain visited link)[i]? = some d) :
    (link.bind fun s => t.above? s i) = some d := by
  induction visited, link using TypeTable.chain.induct t generalizing i with
  | case1 visited => simp [chain] at there
  | case2 visited name met =>
    rw [chain_met met] at there
    cases there
  | case3 visited name _ unknown =>
    rw [chain_unknown unknown] at there
    cases there
  | case4 visited name new e found _ ih =>
    rw [chain_found (Bool.eq_false_iff.2 new) found] at there
    cases i with
    | zero =>
      rw [List.getElem?_cons_zero] at there
      exact found.trans there
    | succ i =>
      rw [List.getElem?_cons_succ] at there
      exact (above?_succ found i).trans (ih there)

/-- The chain has every name once, and none that has been met before. -/
theorem nodup_chain (visited : List String) (link : Option String) :
    ((t.chain visited link).map (·.name)).Nodup ∧
      ∀ d ∈ t.chain visited link, d.name ∉ visited := by
  rw [chain_eq_walk]
  exact nodup_walk visited link.toList

/-! ### Superclasses -/

theorem above?_of_getElem?_superclasses {i : Nat} (there : (t.superclasses name)[i]? = some d) :
    t.above? name (i + 1) = some d := by
  have linked := above?_of_getElem?_chain there
  cases found : t.lookup name with
  | none =>
    rw [found] at linked
    cases linked
  | some e =>
    rw [found] at linked
    exact (above?_succ found i).trans linked

theorem mem_superclasses_iff : d ∈ t.superclasses name ↔ ∃ n, t.above? name (n + 1) = some d := by
  constructor
  · intro member
    obtain ⟨i, there⟩ := List.getElem?_of_mem member
    exact ⟨i, above?_of_getElem?_superclasses there⟩
  · rintro ⟨n, there⟩
    cases found : t.lookup name with
    | none =>
      -- nothing stands above a name that is not declared
      have nothing : ∀ n, t.above? name n = none := by
        intro n
        induction n with
        | zero => exact found
        | succ n ih => rw [above?, ih, Option.bind_none]
      rw [nothing] at there
      cases there
    | some e =>
      have declared := lookup_of_above? there
      rw [above?_succ found] at there
      obtain ⟨s, link, there⟩ := Option.bind_eq_some_iff.1 there
      rw [superclasses, found, Option.bind_some, link, chain_eq_walk, mem_walk_iff]
      exact ⟨declared, s, List.mem_singleton.2 rfl, leads_of_above? there⟩

/-- A type that is above itself is the last one above it: behind it the first one would come
again. -/
theorem getLast?_superclasses {i : Nat} (there : (t.superclasses name)[i]? = some d)
    (same : d.name = name) : (t.superclasses name).getLast? = some d := by
  have declared : t.lookup name = some d := same ▸ lookup_of_above? (above?_of_getElem?_superclasses
    there)
  have inside := (List.getElem?_eq_some_iff.1 there).1
  have last : (t.superclasses name).length = i + 1 := by
    refine Nat.le_antisymm (Nat.le_of_not_lt fun more => ?_) inside
    have behind := above?_of_getElem?_superclasses (List.getElem?_eq_getElem more)
    have first := above?_of_getElem?_superclasses
      (List.getElem?_eq_getElem (Nat.lt_of_le_of_lt (Nat.zero_le i) inside))
    rw [above?, above?_of_getElem?_superclasses there, Option.bind_some] at behind
    rw [above?, above?, declared, Option.bind_some] at first
    have again := Option.some.inj (first.symm.trans behind)
    have distinct := (nodup_chain (t := t) [] ((t.lookup name).bind (·.superclass))).1
    have equal := (List.Nodup.getElem_inj_iff (List.Nodup.of_map _ distinct)).1 again
    omega
  rw [List.getLast?_eq_getElem?, last]
  exact there

/-- The superclasses of a type, whatever is declared in circles or not at all: each once, in the
order of the links that lead to them, just those that links lead to through declared types. The type
itself is not among them just if no links lead back to it; otherwise it is the last one. -/
theorem superclasses_exact (t : TypeTable) (name : String) :
    ((t.superclasses name).map (·.name)).Nodup ∧
    (∀ i d, (t.superclasses name)[i]? = some d → t.above? name (i + 1) = some d) ∧
    (∀ d, d ∈ t.superclasses name ↔ ∃ n, t.above? name (n + 1) = some d) ∧
    ((∀ d, d ∈ t.superclasses name ↔ d.name ≠ name ∧ ∃ n, t.above? name n = some d) ↔
      ¬ t.Circular name) ∧
    (t.Circular name ↔ ∃ d, (t.superclasses name).getLast? = some d ∧ d.name = name) := by
  refine ⟨(nodup_chain _ _).1, fun i d => above?_of_getElem?_superclasses,
    fun d => mem_superclasses_iff, ⟨?_, ?_⟩, ⟨?_, ?_⟩⟩
  · rintro exact_ ⟨n, d, there, same⟩
    exact ((exact_ d).1 (mem_superclasses_iff.2 ⟨n, there⟩)).1 same
  · intro straight d
    rw [mem_superclasses_iff]
    constructor
    · rintro ⟨n, there⟩
      exact ⟨fun same => straight ⟨n, d, there, same⟩, n + 1, there⟩
    · rintro ⟨other, n, there⟩
      cases n with
      | zero => exact absurd (name_of_lookup there) other
      | succ n => exact ⟨n, there⟩
  · rintro ⟨n, d, there, same⟩
    obtain ⟨i, there⟩ := List.getElem?_of_mem (mem_superclasses_iff.2 ⟨n, there⟩)
    exact ⟨d, getLast?_superclasses there same, same⟩
  · rintro ⟨d, last, same⟩
    obtain ⟨n, there⟩ := mem_superclasses_iff.1 (List.mem_of_getLast? last)
    exact ⟨n, d, there, same⟩

end TypeTable

namespace Sample

/-- Two classes that extend each other. -/
def mutual_ : TypeTable where
  types := [{ name := "A", kind := .concreteClass, superclass := some "B" },
    { name := "B", kind := .concreteClass, superclass := some "A" }]

/-- The class is among its own superclasses. -/
theorem above_itself : (mutual_.superclasses "A").map (·.name) = ["B", "A"] ∧
    ¬ ∀ d, d ∈ mutual_.superclasses "A" ↔ d.name ≠ "A" ∧ ∃ n, mutual_.above? "A" n = some d := by
  have names : (mutual_.superclasses "A").map (·.name) = ["B", "A"] := by decide +kernel
  refine ⟨names, fun exact_ => ?_⟩
  obtain ⟨d, member, same⟩ := List.mem_map.1 (names ▸ (by simp : "A" ∈ ["B", "A"]))
  exact ((exact_ d).1 member).1 same

end Sample

end Classwright
