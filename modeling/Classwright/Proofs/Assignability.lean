import Classwright.Proofs.Compiled
import Classwright.Proofs.Conformance

/-!
# Assignability

What a class under compilation takes for assignable is decided on types alone, what a run converts
is decided on values. For classes that are linked against one table, each under a name of its own,
the first is sound for the second: every value of a type can be coerced to whatever the type is
assignable to. Nothing is said of values whose objects belong to classes linked elsewhere.
-/

namespace Classwright

open Check

mutual

/-- The objects in a value. -/
def Value.objects : Value → List Object
  | .object o => [o]
  | .array items => Value.allObjects items
  | _ => []

def Value.allObjects : List Value → List Object
  | [] => []
  | v :: vs => v.objects ++ Value.allObjects vs

end

theorem Value.mem_allObjects {items : List Value} {o : Object} :
    o ∈ Value.allObjects items ↔ ∃ v ∈ items, o ∈ v.objects := by
  induction items with
  | nil => simp [allObjects]
  | cons v items ih => simp [allObjects, ih]

/-- Generated classes that are linked against one table, which declares no builtin name. Their names
are their own. -/
structure LinkedTogether (tables : Tables) (path : Nat) (Member : LoadedClass → Prop) : Prop where
  regular : (tables path).Regular
  registry : ∀ c, Member c → c.registry = path
  resolved : ∀ c, Member c → ∀ parent ∈ c.code.superclass :: c.code.interfaces,
    (tables path).resolves parent = true
  fresh : ∀ c, Member c → c.code.name ∉ Builtin.all ∧ (tables path).lookup c.code.name = none
  distinct : ∀ c d, Member c → Member d → c.code.name = d.code.name → c = d

/-- The context is that of a class of this code. -/
structure Check.ClassContext.Describes (cx : ClassContext) (table : TypeTable)
    (code : Code.Class) : Prop where
  table : cx.table = table
  name : cx.name = code.name
  superclass : cx.superclass = code.superclass
  interfaces : cx.interfaces = code.interfaces

theorem Check.Accepted.describes {table : TypeTable} {unit : Source.CompilationUnit}
    {code : Code.Class} (accepted : Accepted table unit code) :
    (contextOf table unit).Describes table code where
  table := contextOf_table table unit
  name := by rw [accepted.assembled]; rfl
  superclass := by rw [accepted.assembled]; rfl
  interfaces := by rw [accepted.assembled]; rfl

/-- A primitive value widens to each primitive type that its type may be assigned to. -/
theorem Value.coerceTo_isSome_of_widensTo {tables : Tables} {own kind : Primitive} {v : Value}
    (widens : own.widensTo kind = true) (h : v.primitive? = some own) :
    (v.coerceTo tables (.primitive kind)).isSome = true := by
  have numeric : own.isNumeric = kind.isNumeric := by
    cases own <;> cases kind <;> first | rfl | cases widens
  simp only [coerceTo, h, widens, if_true]
  exact convert_isSome h numeric

/-- The type that is assignable to another one, told as a written type: `null` is of all reference
types, nothing is of `void`. -/
theorem Check.ClassContext.isAssignable_cases {cx : ClassContext} {tables : Tables}
    {source : StaticType} {target : TypeRef} {v : Value} (unreported : source ≠ .error)
    (assignable : cx.isAssignable source target = true) (h : source.Holds tables v) :
    (source = .null ∧ v = .null ∧ target ≠ .void ∧ ∀ k, target ≠ .primitive k) ∨
    ∃ type, cx.isAssignableRef type target = true ∧ v.isInstanceOf tables type = true := by
  cases source with
  | error => exact absurd rfl unreported
  | void => cases target <;> cases assignable
  | null =>
    refine .inl ⟨rfl, h, ?_, ?_⟩
    · rintro rfl
      cases assignable
    · rintro k rfl
      cases assignable
  | primitive kind =>
    refine .inr ⟨.primitive kind, ?_, (Value.isInstanceOf_primitive kind v).2 h⟩
    cases target <;> exact assignable
  | ref type =>
    refine .inr ⟨type, ?_, h⟩
    cases target <;> first | exact assignable | cases assignable

namespace LinkedTogether

variable {tables : Tables} {path : Nat} {Member : LoadedClass → Prop} {c d : LoadedClass}
  {cx : ClassContext}

/-- No name in the table leads to the name of a generated class. -/
theorem not_isSubtype_fresh (linked : LinkedTogether tables path Member) (hd : Member d)
    {parent : String} (known : (tables path).resolves parent = true) :
    (tables path).isSubtype parent d.code.name = false := by
  have fresh := linked.fresh d hd
  have unresolved : (tables path).resolves d.code.name = false := by
    simp [TypeTable.resolves, TypeTable.contains, fresh.1, fresh.2]
  refine Bool.eq_false_iff.2 fun below => ?_
  rcases TypeTable.isSubtype_eq_true_iff.1 below with base | leads
  · exact fresh.1 (base ▸ by decide)
  · rcases leads.last_link with rfl | ⟨m, e, _, found, member⟩
    · rw [unresolved] at known
      cases known
    · have := linked.regular.parents_known e (TypeTable.mem_of_lookup found) _ member
      rw [unresolved] at this
      cases this

/-- Of the classes only one stands below the name of a generated class. -/
theorem eq_of_isSubtypeOf_name (linked : LinkedTogether tables path Member) (hc : Member c)
    (hd : Member d) (below : c.isSubtypeOf tables d.code.name = true) : c = d := by
  simp only [LoadedClass.isSubtypeOf, Bool.or_eq_true, beq_iff_eq, List.any_eq_true] at below
  rcases below with (same | same) | ⟨parent, member, below⟩
  · exact linked.distinct c d hc hd same.symm
  · exact absurd (same ▸ by decide) (linked.fresh d hd).1
  · rw [linked.registry c hc,
      linked.not_isSubtype_fresh hd (linked.resolved c hc parent member)] at below
    cases below

theorem base_unknown (linked : LinkedTogether tables path Member) :
    (tables path).lookup Builtin.object = none :=
  linked.regular.builtin_free _ (by decide)

/-- What a class under compilation takes for a supertype of a name, every class below the name
stands below. -/
theorem isSubtypeOf_of_isSubtype (linked : LinkedTogether tables path Member) (hc : Member c)
    (hd : Member d) (describes : cx.Describes (tables path) d.code) {sub sup : String}
    (assignable : cx.isSubtype sub sup = true) (below : c.isSubtypeOf tables sub = true) :
    c.isSubtypeOf tables sup = true := by
  have base := linked.base_unknown
  have hpath := linked.registry c hc
  simp only [ClassContext.isSubtype, Bool.or_eq_true, beq_iff_eq] at assignable
  rcases assignable with (rfl | rfl) | assignable
  · exact below
  · simp [LoadedClass.isSubtypeOf]
  · rw [describes.name] at assignable
    split at assignable
    · rename_i own
      subst own
      have same := linked.eq_of_isSubtypeOf_name hc hd below
      subst same
      rw [describes.superclass, describes.interfaces, describes.table] at assignable
      simp only [LoadedClass.isSubtypeOf, Bool.or_eq_true]
      rw [hpath]
      exact .inr assignable
    · rw [describes.table] at assignable
      simp only [LoadedClass.isSubtypeOf, Bool.or_eq_true, beq_iff_eq, List.any_eq_true] at below ⊢
      rw [hpath] at below ⊢
      rcases below with (rfl | rfl) | ⟨parent, member, below⟩
      · rcases TypeTable.eq_of_isSubtype_unknown (linked.fresh c hc).2 assignable with h | h
        · exact .inl (.inr h)
        · exact .inl (.inl h.symm)
      · rcases TypeTable.eq_of_isSubtype_unknown base assignable with h | h
        · exact .inl (.inr h)
        · exact .inl (.inr h.symm)
      · exact .inr ⟨parent, member, TypeTable.isSubtype_trans base below assignable⟩

/-- A supertype of a builtin type is the type itself or the universal base. -/
theorem isSubtype_builtin (linked : LinkedTogether tables path Member) (hd : Member d)
    (describes : cx.Describes (tables path) d.code) {sub sup : String} (builtin : sub ∈ Builtin.all)
    (assignable : cx.isSubtype sub sup = true) : sup = sub ∨ sup = Builtin.object := by
  simp only [ClassContext.isSubtype, Bool.or_eq_true, beq_iff_eq] at assignable
  rcases assignable with (h | h) | assignable
  · exact .inl h.symm
  · exact .inr h
  · rw [describes.name] at assignable
    split at assignable
    · rename_i own
      exact absurd (own ▸ builtin) (linked.fresh d hd).1
    · rw [describes.table] at assignable
      have unknown := linked.regular.builtin_free _ builtin
      exact (TypeTable.eq_of_isSubtype_unknown unknown assignable).symm.imp_left Eq.symm

/-- A value of a named type is one of every name that stands above. -/
theorem isInstanceOf_of_isSubtype (linked : LinkedTogether tables path Member) (hd : Member d)
    (describes : cx.Describes (tables path) d.code) {sub sup : String} {v : Value}
    (objects : ∀ o ∈ v.objects, Member o.cls) (assignable : cx.isSubtype sub sup = true)
    (h : v.isInstanceOf tables (.named sub) = true) :
    v.isInstanceOf tables (.named sup) = true := by
  rw [Value.isInstanceOf_named, Bool.or_eq_true, beq_iff_eq] at h ⊢
  by_cases top : sup = Builtin.object
  · exact .inl top
  · have notTop : sub ≠ Builtin.object := by
      rintro rfl
      rcases linked.isSubtype_builtin hd describes (by decide) assignable with h | h <;> exact top h
    have href := h.resolve_left notTop
    right
    have builtin : sub ∈ Builtin.all → sup = sub := fun member =>
      (linked.isSubtype_builtin hd describes member assignable).resolve_right top
    cases v with
    | object o =>
      have hc := objects o (List.mem_singleton.2 rfl)
      exact linked.isSubtypeOf_of_isSubtype hc hd describes assignable href
    | null => rfl
    | str _ | type _ | method _ | handler _ =>
      have member : sub ∈ Builtin.all := by
        simp only [Value.isReference, beq_iff_eq] at href
        rw [href]
        decide
      rw [builtin member]
      exact href
    | _ => simp [Value.isReference] at href

/-- A value of a reference type is one of each reference type that it may be assigned to. -/
theorem isInstanceOf_of_isAssignableRef (linked : LinkedTogether tables path Member)
    (hd : Member d) (describes : cx.Describes (tables path) d.code) {source target : TypeRef}
    {v : Value} (objects : ∀ o ∈ v.objects, Member o.cls) (noprim : ∀ k, target ≠ .primitive k)
    (assignable : cx.isAssignableRef source target = true)
    (h : v.isInstanceOf tables source = true) : v.isInstanceOf tables target = true := by
  induction source generalizing target v with
  | void => simp [Value.isInstanceOf_void] at h
  | primitive k =>
    cases target with
    | void => simp [ClassContext.isAssignableRef] at assignable
    | primitive k => exact absurd rfl (noprim k)
    | named name =>
      have top : name = Builtin.object := by simpa [ClassContext.isAssignableRef] using assignable
      exact top ▸ Value.isInstanceOf_object v
    | array b => simp [ClassContext.isAssignableRef] at assignable
  | named sub =>
    cases target with
    | void => simp [ClassContext.isAssignableRef] at assignable
    | primitive k => exact absurd rfl (noprim k)
    | named sup =>
      exact linked.isInstanceOf_of_isSubtype hd describes objects
        (by simpa [ClassContext.isAssignableRef] using assignable) h
    | array b => simp [ClassContext.isAssignableRef] at assignable
  | array a ih =>
    cases target with
    | void => simp [ClassContext.isAssignableRef] at assignable
    | primitive k => exact absurd rfl (noprim k)
    | named name =>
      have top : name = Builtin.object := by simpa [ClassContext.isAssignableRef] using assignable
      exact top ▸ Value.isInstanceOf_object v
    | array b =>
      cases v with
      | null => rfl
      | array items =>
        simp only [Value.isInstanceOf, List.all_eq_true] at h ⊢
        intro item member
        have inside : ∀ o ∈ item.objects, Member o.cls := fun o ho =>
          objects o (Value.mem_allObjects.2 ⟨item, member, ho⟩)
        -- Elements of a primitive type are of one type on both sides and are not converted.
        cases b with
        | primitive q =>
          cases a <;> simp [ClassContext.isAssignableRef] at assignable
          exact assignable ▸ h item member
        | void => cases a <;> simp [ClassContext.isAssignableRef] at assignable
        | _ =>
          refine ih inside (by simp) ?_ (h item member)
          cases a <;> simp_all [ClassContext.isAssignableRef]
      | _ => simp [Value.isInstanceOf] at h

/-- Among classes that are linked against one table, each under a name of its own: where the class
that the context describes takes one type for assignable to another, each value of the first can be
coerced to the second, and what the coercion gives is of the second. -/
theorem coerceTo_of_isAssignable (linked : LinkedTogether tables path Member) (hd : Member d)
    (describes : cx.Describes (tables path) d.code) {source : StaticType} {target : TypeRef}
    (unreported : source ≠ .error) (assignable : cx.isAssignable source target = true)
    {v : Value} (objects : ∀ o ∈ v.objects, Member o.cls) (h : source.Holds tables v) :
    ∃ w, v.coerceTo tables target = some w ∧ w.isInstanceOf tables target = true := by
  suffices coerces : (v.coerceTo tables target).isSome = true by
    obtain ⟨w, made⟩ := Option.isSome_iff_exists.1 coerces
    exact ⟨w, made, Value.isInstanceOf_of_coerceTo made⟩
  obtain ⟨_, rfl, novoid, noprim⟩ | ⟨type, fits, ofType⟩ :=
    ClassContext.isAssignable_cases unreported assignable h
  · exact Value.coerceTo_isSome_of_isInstanceOf (Value.isInstanceOf_null novoid noprim)
  · by_cases prim : ∃ kind, target = .primitive kind
    · obtain ⟨kind, rfl⟩ := prim
      cases type with
      | primitive own =>
        refine Value.coerceTo_isSome_of_widensTo ?_ ((Value.isInstanceOf_primitive own v).1 ofType)
        simpa [ClassContext.isAssignableRef] using fits
      | _ => simp [ClassContext.isAssignableRef] at fits
    · have noprim : ∀ kind, target ≠ .primitive kind := fun kind same => prim ⟨kind, same⟩
      exact Value.coerceTo_isSome_of_isInstanceOf
        (linked.isInstanceOf_of_isAssignableRef hd describes objects noprim fits ofType)

end LinkedTogether

/-! ### Two classes below one interface -/

namespace Sample

/-- What has a name, the interface below it, and a class that knows nothing of both. -/
def kennel : TypeTable where
  types := [⟨"Named", .interface, none, [], [], []⟩, ⟨"Pet", .interface, none, ["Named"], [], []⟩,
    ⟨"Base", .concreteClass, none, [], [], []⟩]

def cat : String := "class Cat extends Base implements Pet \x7b \x7d"

def catClass : LoadedClass := ⟨0, codeOf kennel cat, 0, 64⟩

def dogClass : LoadedClass := ⟨1, codeOf kennel "class Dog implements Pet \x7b \x7d", 0, 64⟩

def kennels : Tables := fun _ => kennel

/-- Cats and dogs, with gaps, in arrays of arrays. -/
def litters : Value :=
  .array [.array [.object ⟨1, catClass⟩, .null, .object ⟨2, dogClass⟩], .null]

def arrays (name : String) : TypeRef := .array (.array (.named name))

theorem kennel_facts :
    (compileSource kennel cat).toOption.isSome = true ∧
    catClass.code.name ≠ dogClass.code.name ∧
    (∀ c ∈ [catClass, dogClass],
      (∀ parent ∈ c.code.superclass :: c.code.interfaces, kennel.resolves parent = true) ∧
      c.code.name ∉ Builtin.all ∧ (kennel.lookup c.code.name).isNone = true) ∧
    (contextOf kennel (unitOf cat)).isAssignable (.ref (arrays "Pet")) (arrays "Named") = true ∧
    litters.isInstanceOf kennels (arrays "Pet") = true := by
  decide +kernel

theorem kennel_linked : LinkedTogether kennels 0 (· ∈ [catClass, dogClass]) where
  regular := ⟨by decide +kernel, by decide +kernel⟩
  registry := by decide +kernel
  resolved := fun c hc => (kennel_facts.2.2.1 c hc).1
  fresh := fun c hc =>
    ⟨(kennel_facts.2.2.1 c hc).2.1, Option.isNone_iff_eq_none.1 (kennel_facts.2.2.1 c hc).2.2⟩
  distinct := by
    have different := kennel_facts.2.1
    simp only [List.mem_cons, List.not_mem_nil, or_false]
    rintro c d (rfl | rfl) (rfl | rfl) same
    · rfl
    · exact absurd same different
    · exact absurd same.symm different
    · rfl

/-- An array of arrays of pets is one of arrays of what has a name. -/
theorem litters_conform :
    (contextOf kennel (unitOf cat)).isAssignable (.ref (arrays "Pet")) (arrays "Named") = true ∧
    (∀ o ∈ litters.objects, o.cls ∈ [catClass, dogClass]) ∧
    ∃ w, litters.coerceTo kennels (arrays "Named") = some w ∧
      w.isInstanceOf kennels (arrays "Named") = true := by
  obtain ⟨compiles, _, _, assignable, pets⟩ := kennel_facts
  have describes := (accepted_of_compileUnit (unit_compiles compiles)).describes
  have objects : ∀ o ∈ litters.objects, o.cls ∈ [catClass, dogClass] := by
    have both : litters.objects = [⟨1, catClass⟩, ⟨2, dogClass⟩] := rfl
    rw [both]
    simp
  exact ⟨assignable, objects, kennel_linked.coerceTo_of_isAssignable (d := catClass)
    List.mem_cons_self describes (by nofun) assignable objects pets⟩

end Sample

end Classwright
