import Mathlib.Data.List.Chain
import Classwright.Proofs.Registering

/-!
# What stands above a class

A type stands below another one if a chain of links to superclasses and interfaces goes from the one
to the other. Whether a class conforms to a type is found by a search along both kinds of links at
once; the types that inherited methods are looked for in are found by a walk along superclasses and
then a walk along interfaces. The two agree where interfaces stand below interfaces only: then a
chain goes along superclasses first and along interfaces after that.
-/

namespace Classwright

namespace TypeTable

variable {t : TypeTable} {d : Descriptor} {superclass : String} {interfaces : List String}

/-! ### Chains of links -/

/-- The first name is declared with the second one as its superclass or as one of its interfaces. -/
def Links (t : TypeTable) (lower upper : String) : Prop :=
  ∃ d, t.lookup lower = some d ∧ (d.superclass = some upper ∨ upper ∈ d.interfaces)

theorem links_iff {lower upper : String} :
    t.Links lower upper ↔ ∃ d, t.lookup lower = some d ∧ upper ∈ d.parents := by
  simp only [Links, Descriptor.parents, List.mem_append, Option.mem_toList]

theorem leads_iff_exists_chain {a b : String} : Leads t Descriptor.parents a b
    ↔ ∃ names, (a :: names).IsChain t.Links ∧ (a :: names).getLast? = some b := by
  constructor
  · intro leads
    induction leads with
    | refl name => exact ⟨[], .singleton name, rfl⟩
    | step found member _ ih =>
      obtain ⟨names, chain, last⟩ := ih
      exact ⟨_ :: names, .cons_cons (links_iff.2 ⟨_, found, member⟩) chain, last⟩
  · rintro ⟨names, chain, last⟩
    induction names generalizing a with
    | nil => exact Option.some.inj last ▸ .refl a
    | cons middle names ih =>
      obtain ⟨link, rest⟩ := List.isChain_cons_cons.1 chain
      obtain ⟨d, found, member⟩ := links_iff.1 link
      exact .step found member (ih rest last)

/-- Whatever is declared, in circles or not at all, a name stands below another one just if that is
the universal base or the name itself, or if a chain of links goes from the one to the other. -/
theorem isSubtype_iff_exists_chain (t : TypeTable) (sub sup : String) :
    t.isSubtype sub sup = true ↔ sup = Builtin.object ∨ sup = sub ∨
      ∃ names, (sub :: names).IsChain t.Links ∧ (sub :: names).getLast? = some sup := by
  rw [isSubtype_eq_true_iff, leads_iff_exists_chain]
  refine or_congr_right ⟨.inr, ?_⟩
  rintro (rfl | chain)
  · exact ⟨[], .singleton sup, rfl⟩
  · exact chain

/-- The superclass as a list of at most one name, to walk along. -/
def superclassLinks (d : Descriptor) : List String := d.superclass.toList

/-! ### The two walks -/

/-- The chain of superclasses is a walk whose queue never holds two names. -/
theorem chain_eq_walk (visited : List String) (link : Option String) :
    t.chain visited link = t.walk superclassLinks visited link.toList := by
  induction visited, link using TypeTable.chain.induct t with
  | case1 visited => rw [chain, Option.toList_none, walk]
  | case2 visited name met =>
    rw [chain_met met, Option.toList_some, walk_skip met, walk]
  | case3 visited name _ unknown =>
    rw [chain_unknown unknown, Option.toList_some, walk_unknown unknown, walk]
  | case4 visited name new d found _ ih =>
    have new : visited.contains name = false := Bool.eq_false_iff.2 new
    rw [chain_found new found, Option.toList_some, walk_found new found, ih, List.nil_append]
    rfl

/-- A type and its superclasses are the declared types that superclass links lead to. -/
theorem mem_ancestors_iff : d ∈ (t.lookup superclass).toList ++ t.superclasses superclass
    ↔ t.lookup d.name = some d ∧ Leads t superclassLinks superclass d.name := by
  rw [List.mem_append, Option.mem_toList, superclasses, chain_eq_walk, mem_walk_iff]
  constructor
  · rintro (found | ⟨declared, s, link, leads⟩)
    · have named := name_of_lookup found
      exact ⟨named ▸ found, named ▸ .refl _⟩
    · obtain ⟨e, found, link⟩ := Option.bind_eq_some_iff.1 (Option.mem_toList.1 link)
      exact ⟨declared, .step found (Option.mem_toList.2 link) leads⟩
  · rintro ⟨declared, leads⟩
    cases leads with
    | refl => exact .inl declared
    | step found member rest =>
      rw [found]
      exact .inr ⟨declared, _, member, rest⟩

/-- The types above a class are those that its superclass leads to and those that interfaces of the
class or of one of these lead to. -/
theorem mem_lineage_iff : d ∈ t.lineage superclass interfaces
    ↔ t.lookup d.name = some d ∧ (Leads t superclassLinks superclass d.name ∨
      ∃ i, Leads t Descriptor.interfaces i d.name ∧ (i ∈ interfaces ∨
        ∃ name above, Leads t superclassLinks superclass name ∧
          t.lookup name = some above ∧ i ∈ above.interfaces)) := by
  simp only [lineage, interfaceClosure]
  rw [List.mem_append, mem_ancestors_iff, mem_walk_iff, ← and_or_left]
  refine and_congr_right fun _ => or_congr_right (exists_congr fun i => ?_)
  rw [and_comm, List.mem_append, List.mem_flatMap]
  refine and_congr_right fun _ => or_congr_right ⟨?_, ?_⟩
  · rintro ⟨above, member, names⟩
    obtain ⟨declared, leads⟩ := mem_ancestors_iff.1 member
    exact ⟨above.name, above, leads, declared, names⟩
  · rintro ⟨name, above, leads, declared, names⟩
    have named := name_of_lookup declared
    exact ⟨above, mem_ancestors_iff.2 ⟨named ▸ declared, named ▸ leads⟩, names⟩

/-! ### Chains of parents -/

theorem Leads.mono {next next' : Descriptor → List String} (within : ∀ d, next d ⊆ next' d)
    {a b : String} (leads : Leads t next a b) : Leads t next' a b := by
  induction leads with
  | refl name => exact .refl name
  | step found member _ ih => exact .step found (within _ member) ih

theorem Leads.of_superclassLinks {a b : String} (leads : Leads t superclassLinks a b) :
    Leads t Descriptor.parents a b :=
  leads.mono fun _ => List.subset_append_left _ _

theorem Leads.of_interfaces {a b : String} (leads : Leads t Descriptor.interfaces a b) :
    Leads t Descriptor.parents a b :=
  leads.mono fun _ => List.subset_append_right _ _

/-- What stands above a class is led to by one of its parents. -/
theorem leads_of_mem_lineage (above : d ∈ t.lineage superclass interfaces) :
    ∃ parent ∈ superclass :: interfaces, Leads t Descriptor.parents parent d.name := by
  obtain ⟨_, extended | ⟨i, implemented, direct | ⟨name, e, extended, found, names⟩⟩⟩ :=
    mem_lineage_iff.1 above
  · exact ⟨superclass, List.mem_cons_self, extended.of_superclassLinks⟩
  · exact ⟨i, List.mem_cons_of_mem _ direct, implemented.of_interfaces⟩
  · exact ⟨superclass, List.mem_cons_self, extended.of_superclassLinks.trans
      (.step found (List.mem_append_right _ names) implemented.of_interfaces)⟩

theorem not_mem_lineage_unknown (unknown : t.lookup superclass = none) :
    d ∉ t.lineage superclass [] := by
  intro above
  obtain ⟨parent, member, leads⟩ := leads_of_mem_lineage above
  rw [List.mem_singleton.1 member] at leads
  rw [leads.eq_of_unknown unknown, (mem_lineage_iff.1 above).1] at unknown
  cases unknown

/-- Interfaces stand below nothing but interfaces, and what is named as an interface is one. Names
that are not declared are free. -/
structure Stratified (t : TypeTable) : Prop where
  base : t.contains Builtin.object = false
  rootless : ∀ name d, t.lookup name = some d → d.isInterface = true → d.superclass = none
  interfaces : ∀ name d, t.lookup name = some d → ∀ i ∈ d.interfaces,
    ∀ e, t.lookup i = some e → e.isInterface = true

namespace Stratified

variable {a b : String}

/-- Above an interface there are interfaces only. -/
theorem leads_of_interface (stratified : t.Stratified) (leads : Leads t Descriptor.parents a b)
    (isInterface : ∀ d, t.lookup a = some d → d.isInterface = true) :
    Leads t Descriptor.interfaces a b := by
  induction leads with
  | refl name => exact .refl name
  | step found member _ ih =>
    have member : _ ∈ _ := member
    rw [Descriptor.parents, stratified.rootless _ _ found (isInterface _ found),
      Option.toList_none, List.nil_append] at member
    exact .step found member (ih (stratified.interfaces _ _ found _ member))

/-- A chain of parents goes along superclasses first and along interfaces after that. -/
theorem leads_split (stratified : t.Stratified) (leads : Leads t Descriptor.parents a b) :
    Leads t superclassLinks a b ∨ ∃ i name above, Leads t Descriptor.interfaces i b ∧
      Leads t superclassLinks a name ∧ t.lookup name = some above ∧ i ∈ above.interfaces := by
  induction leads with
  | refl name => exact .inl (.refl name)
  | step found member rest ih =>
    rcases List.mem_append.1 member with extended | implemented
    · refine ih.imp (.step found extended) ?_
      rintro ⟨i, name, above, leads, below, declared, names⟩
      exact ⟨i, name, above, leads, .step found extended below, declared, names⟩
    · have isInterface := stratified.interfaces _ _ found _ implemented
      exact .inr ⟨_, _, _, stratified.leads_of_interface rest isInterface, .refl _, found,
        implemented⟩

/-- A class inherits from the declared types that one of its parents leads to. -/
theorem mem_lineage (stratified : t.Stratified)
    (implements : ∀ i ∈ interfaces, ∀ e, t.lookup i = some e → e.isInterface = true)
    (direct : a ∈ superclass :: interfaces) (leads : Leads t Descriptor.parents a d.name)
    (declared : t.lookup d.name = some d) : d ∈ t.lineage superclass interfaces := by
  refine mem_lineage_iff.2 ⟨declared, ?_⟩
  rcases List.mem_cons.1 direct with rfl | direct
  · refine (stratified.leads_split leads).imp_right ?_
    rintro ⟨i, above, e, implemented, root⟩
    exact ⟨i, implemented, .inr ⟨above, e, root⟩⟩
  · exact .inr ⟨a, stratified.leads_of_interface leads (implements a direct), .inl direct⟩

/-- So it does from what stands above them. -/
theorem mem_lineage_above (stratified : t.Stratified)
    (implements : ∀ i ∈ interfaces, ∀ e, t.lookup i = some e → e.isInterface = true)
    (direct : a ∈ superclass :: interfaces) (leads : Leads t Descriptor.parents a b)
    (above : d ∈ t.lineage b []) : d ∈ t.lineage superclass interfaces := by
  obtain ⟨parent, member, further⟩ := leads_of_mem_lineage above
  rw [List.mem_singleton.1 member] at further
  exact stratified.mem_lineage implements direct (leads.trans further) (mem_lineage_iff.1 above).1

end Stratified

end TypeTable

/-! ### Conforming and inheriting -/

namespace LoadedClass

variable {tables : Tables} {c : LoadedClass} {name : String} {d : Descriptor}

/-- A class conforms to the declared types that one of its parents leads to. -/
theorem isSubtypeOf_iff_leads (noBase : name ≠ Builtin.object) (other : name ≠ c.code.name) :
    c.isSubtypeOf tables name = true ↔ ∃ parent ∈ c.code.superclass :: c.code.interfaces,
      TypeTable.Leads (tables c.registry) Descriptor.parents parent name := by
  simp only [isSubtypeOf, Bool.or_eq_true, beq_iff_eq, other, noBase, false_or, List.any_eq_true,
    TypeTable.isSubtype_eq_true_iff]

/-- What a class inherits from, it conforms to, in every table. -/
theorem isSubtypeOf_of_mem_supertypes (above : d ∈ c.supertypes tables) :
    c.isSubtypeOf tables d.name = true := by
  obtain ⟨parent, member, leads⟩ := TypeTable.leads_of_mem_lineage above
  refine Bool.or_eq_true_iff.2 (.inr (List.any_eq_true.2 ⟨parent, member, ?_⟩))
  exact TypeTable.isSubtype_eq_true_iff.2 (.inr leads)

/-- A class conforms to a declared type, other than one of its own name, just if it inherits from
it. -/
theorem isSubtypeOf_iff_inherits (stratified : (tables c.registry).Stratified)
    (implements : ∀ i ∈ c.code.interfaces, ∀ e, (tables c.registry).lookup i = some e →
      e.isInterface = true)
    (declared : (tables c.registry).contains name = true) (other : name ≠ c.code.name) :
    c.isSubtypeOf tables name = true ↔ ∃ host ∈ c.supertypes tables, host.name = name := by
  constructor
  · intro conforms
    obtain ⟨d, found⟩ := Option.isSome_iff_exists.1 declared
    have named := TypeTable.name_of_lookup found
    have noBase : name ≠ Builtin.object := by
      rintro rfl
      exact absurd (stratified.base.symm.trans declared) Bool.false_ne_true
    obtain ⟨parent, member, leads⟩ := (isSubtypeOf_iff_leads noBase other).1 conforms
    exact ⟨d, stratified.mem_lineage implements member (named.symm ▸ leads) (named.symm ▸ found),
      named⟩
  · rintro ⟨host, above, rfl⟩
    exact isSubtypeOf_of_mem_supertypes above

end LoadedClass

/-- What makes a table stratified, type by type. -/
theorem TypeTable.stratified_of_types {t : TypeTable} (base : t.contains Builtin.object = false)
    (rootless : ∀ d ∈ t.types, d.isInterface = true → d.superclass = none)
    (interfaces : ∀ d ∈ t.types, ∀ i ∈ d.interfaces, ∀ e ∈ t.types, e.name = i →
      e.isInterface = true) : t.Stratified where
  base := base
  rootless _ d found := rootless d (mem_of_lookup found)
  interfaces _ d found i member e found' :=
    interfaces d (mem_of_lookup found) i member e (mem_of_lookup found') (name_of_lookup found')

namespace Sample

/-- Two interfaces in a circle, and a class that implements one of them and whose superclass extends
itself. -/
def circle : TypeTable where
  types := [{ name := "Left", kind := .interface, interfaces := ["Right"] },
    { name := "Right", kind := .interface, interfaces := ["Left"] },
    { name := "Base", kind := .abstractClass, superclass := some "Ring", interfaces := ["Left"] },
    { name := "Ring", kind := .concreteClass, superclass := some "Ring" }]

/-- A class that stands below all of them. -/
def leaf : LoadedClass where
  id := 0
  code := ⟨Code.formatVersion, "Leaf", "Base", ["Right"], [], [], [], []⟩
  registry := 0
  maxCallDepth := 64

theorem circle_stratified : circle.Stratified :=
  TypeTable.stratified_of_types (by decide) (by decide) (by decide)

/-- Both directions at a type in the circle that the class inherits from. -/
theorem leaf_inherits : circle.Stratified ∧
    (∀ i ∈ leaf.code.interfaces, ∀ e, circle.lookup i = some e → e.isInterface = true) ∧
    circle.contains "Left" = true ∧ "Left" ≠ leaf.code.name ∧
    (leaf.isSubtypeOf (fun _ => circle) "Left" = true ↔
      ∃ host ∈ leaf.supertypes fun _ => circle, host.name = "Left") ∧
    leaf.isSubtypeOf (fun _ => circle) "Left" = true := by
  have implements : ∀ i ∈ leaf.code.interfaces, ∀ e, circle.lookup i = some e →
      e.isInterface = true := by
    intro i member e found
    rw [List.mem_singleton.1 member] at found
    have same : circle.lookup "Right" = some circle.types[1] := rfl
    rw [same] at found
    cases found
    rfl
  have declared : circle.contains "Left" = true := rfl
  have other : "Left" ≠ leaf.code.name := by decide
  exact ⟨circle_stratified, implements, declared, other,
    leaf.isSubtypeOf_iff_inherits circle_stratified implements declared other, by decide +kernel⟩

end Sample

end Classwright
