import Classwright.Proofs.Dispatch
import Classwright.Proofs.Generating

/-!
# Registering further types

A table may gain types under new names. As long as the declared types lead to known names only, no
walk that starts at a known name gets to the new types: it meets the same types in the same order.
-/

namespace Classwright

/-- The type mentions such names only. -/
def TypeRef.Over (known : String → Prop) : TypeRef → Prop
  | void => True
  | primitive _ => True
  | named name => known name
  | array element => element.Over known

theorem TypeRef.Over.mono {known known' : String → Prop} {t : TypeRef} (h : t.Over known)
    (more : ∀ name, known name → known' name) : t.Over known' := by
  induction t with
  | void => trivial
  | primitive kind => trivial
  | named name => exact more name h
  | array element ih => exact ih h

theorem TypeRef.over_withDims {known : String → Prop} {t : TypeRef} (h : t.Over known) :
    (dims : Nat) → (t.withDims dims).Over known
  | 0 => h
  | dims + 1 => over_withDims h dims

instance TypeRef.decidableOver {known : String → Prop} [DecidablePred known] :
    (t : TypeRef) → Decidable (t.Over known)
  | void => .isTrue trivial
  | primitive _ => .isTrue trivial
  | named name => inferInstanceAs (Decidable (known name))
  | array element => decidableOver element

namespace TypeTable

/-- The supertypes and the return types of declared types are known. -/
structure Closed (t : TypeTable) : Prop where
  parents : ∀ name d, t.lookup name = some d → ∀ p ∈ d.parents, t.resolves p = true
  returnTypes : ∀ name d, t.lookup name = some d → ∀ m ∈ d.methods,
    m.returnType.Over fun name => t.resolves name = true

/-- What the one table declares, the other declares just so. It declares no other type under the
name of a builtin type. -/
structure Enriches (t' t : TypeTable) : Prop where
  kept : t.Extends t'
  fresh : ∀ name ∈ Builtin.all, t'.contains name = true → t.contains name = true

variable {t t' : TypeTable} {name : String}

theorem resolves_of_builtin (builtin : name ∈ Builtin.all) : t.resolves name = true := by
  rw [resolves, List.contains_iff_mem.2 builtin, Bool.true_or]

theorem closed_of_types (h : ∀ d ∈ t.types, (∀ p ∈ d.parents, t.resolves p = true) ∧
    ∀ m ∈ d.methods, m.returnType.Over fun name => t.resolves name = true) : t.Closed where
  parents _ d found := (h d (mem_of_lookup found)).1
  returnTypes _ d found := (h d (mem_of_lookup found)).2

/-! ### Chains of superclasses -/

theorem chain_met {visited : List String} (met : visited.contains name = true) :
    t.chain visited (some name) = [] := by
  rw [chain, dif_pos met]

theorem chain_unknown {visited : List String} (unknown : t.lookup name = none) :
    t.chain visited (some name) = [] := by
  rw [chain]
  split
  · rfl
  · split
    · rfl
    · rename_i d found
      rw [unknown] at found
      cases found

theorem chain_found {visited : List String} {d : Descriptor} (new : visited.contains name = false)
    (found : t.lookup name = some d) :
    t.chain visited (some name) = d :: t.chain (name :: visited) d.superclass := by
  rw [chain, dif_neg (by rw [new]; exact Bool.false_ne_true)]
  split
  · rename_i unknown
    rw [unknown] at found
    cases found
  · rename_i e found'
    rw [Option.some.inj (found.symm.trans found')]

/-! ### Walks from known names -/

theorem Enriches.trans {t'' : TypeTable} (first : t''.Enriches t') (h : t'.Enriches t) :
    t''.Enriches t where
  kept := h.kept.trans first.kept
  fresh name builtin there := h.fresh name builtin (first.fresh name builtin there)

theorem enriches_defineIfAbsent {d : Descriptor} (t : TypeTable) (new : d.name ∉ Builtin.all) :
    (t.defineIfAbsent d).Enriches t where
  kept := extends_defineIfAbsent t d
  fresh name builtin there := by
    have other : d.name ≠ name := by
      rintro rfl
      exact new builtin
    rwa [contains_defineIfAbsent_of_ne other] at there

namespace Enriches

/-- Known names stand for what they stood for. -/
theorem lookup_eq (h : t'.Enriches t) (known : t.resolves name = true) :
    t'.lookup name = t.lookup name := by
  cases found : t.lookup name with
  | some d => exact h.kept name d found
  | none =>
    rw [resolves, contains, found, Option.isSome_none, Bool.or_false, List.contains_iff_mem] at known
    refine Option.eq_none_iff_forall_ne_some.2 fun d found' => ?_
    have there := h.fresh name known (by rw [contains, found', Option.isSome_some])
    rw [contains, found] at there
    cases there

theorem contains (h : t'.Enriches t) (there : t.contains name = true) :
    t'.contains name = true := by
  obtain ⟨d, found⟩ := Option.isSome_iff_exists.1 there
  rw [TypeTable.contains, h.kept name d found, Option.isSome_some]

theorem resolves (h : t'.Enriches t) (known : t.resolves name = true) :
    t'.resolves name = true := by
  rw [TypeTable.resolves, Bool.or_eq_true] at known ⊢
  exact known.imp_right h.contains

theorem walk_eq (h : t'.Enriches t) {next : Descriptor → List String}
    (leads : ∀ name d, t.lookup name = some d → ∀ p ∈ next d, t.resolves p = true)
    (visited queue : List String) (known : ∀ name ∈ queue, t.resolves name = true) :
    t'.walk next visited queue = t.walk next visited queue := by
  refine @walk_induction t next
    (fun visited queue met => (∀ name ∈ queue, t.resolves name = true) →
      t'.walk next visited queue = met) ?_ ?_ ?_ visited queue known
  · intro visited _
    rw [walk]
  · intro visited name queue passed ih known
    obtain ⟨hname, hqueue⟩ := List.forall_mem_cons.1 known
    rcases passed with met | unknown
    · rw [walk_skip met]
      exact ih hqueue
    · rw [walk_unknown ((h.lookup_eq hname).trans unknown)]
      exact ih hqueue
  · intro visited name queue d new found ih known
    obtain ⟨hname, hqueue⟩ := List.forall_mem_cons.1 known
    rw [walk_found new ((h.lookup_eq hname).trans found)]
    refine congrArg _ (ih fun p member => ?_)
    exact (List.mem_append.1 member).elim (hqueue p) (leads name d found p)

theorem chain_eq (h : t'.Enriches t) (closed : t.Closed) (visited : List String)
    (link : Option String) (known : ∀ name ∈ link, t.resolves name = true) :
    t'.chain visited link = t.chain visited link := by
  induction visited, link using TypeTable.chain.induct t with
  | case1 visited => rw [chain, chain]
  | case2 visited name met => rw [chain_met met, chain_met met]
  | case3 visited name new unknown =>
    rw [chain_unknown unknown, chain_unknown ((h.lookup_eq (known name rfl)).trans unknown)]
  | case4 visited name new d found _ ih =>
    have new : visited.contains name = false := Bool.eq_false_iff.2 new
    rw [chain_found new found, chain_found new ((h.lookup_eq (known name rfl)).trans found)]
    refine congrArg _ (ih fun s is => ?_)
    exact closed.parents name d found s (List.mem_append_left _ (Option.mem_toList.2 is))

theorem superclasses_eq (h : t'.Enriches t) (closed : t.Closed) (known : t.resolves name = true) :
    t'.superclasses name = t.superclasses name := by
  unfold superclasses
  rw [h.lookup_eq known]
  refine h.chain_eq closed [] _ fun s is => ?_
  obtain ⟨d, found, link⟩ := Option.bind_eq_some_iff.1 is
  exact closed.parents name d found s (List.mem_append_left _ (Option.mem_toList.2 link))

/-- What a known name leads to is known, and the same types lead there. -/
theorem leads_iff (h : t'.Enriches t) (closed : t.Closed) (known : t.resolves name = true)
    (sup : String) :
    Leads t' Descriptor.parents name sup ↔ Leads t Descriptor.parents name sup := by
  constructor <;> intro leads
  · induction leads with
    | refl name => exact .refl name
    | step found member _ ih =>
      have found := (h.lookup_eq known).symm.trans found
      exact .step found member (ih (closed.parents _ _ found _ member))
  · induction leads with
    | refl name => exact .refl name
    | step found member _ ih =>
      exact .step (h.kept _ _ found) member (ih (closed.parents _ _ found _ member))

theorem isSubtype_eq (h : t'.Enriches t) (closed : t.Closed) (known : t.resolves name = true)
    (sup : String) : t'.isSubtype name sup = t.isSubtype name sup := by
  rw [Bool.eq_iff_iff, isSubtype_eq_true_iff, isSubtype_eq_true_iff, h.leads_iff closed known]

theorem lineage_eq (h : t'.Enriches t) (closed : t.Closed) {interfaces : List String}
    (known : t.resolves name = true) (all : ∀ i ∈ interfaces, t.resolves i = true) :
    t'.lineage name interfaces = t.lineage name interfaces := by
  have byInterfaces : ∀ n d, t.lookup n = some d → ∀ i ∈ d.interfaces, t.resolves i = true :=
    fun n d found i is => closed.parents n d found i (List.mem_append_right _ is)
  unfold lineage interfaceClosure
  dsimp only
  rw [h.lookup_eq known, h.superclasses_eq closed known]
  refine congrArg _ (h.walk_eq byInterfaces [] _ fun i member => ?_)
  rcases List.mem_append.1 member with member | member
  · exact all i member
  · obtain ⟨d, above, is⟩ := List.mem_flatMap.1 member
    rcases List.mem_append.1 above with above | above
    · exact byInterfaces name d (Option.mem_toList.1 above) i is
    · exact byInterfaces d.name d (lookup_of_mem_chain above) i is

end Enriches

end TypeTable

end Classwright
