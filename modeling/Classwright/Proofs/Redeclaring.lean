import Classwright.Proofs.Members
import Classwright.Proofs.Registering
import Classwright.Proofs.Reloading

/-!
# Declarations against more types

Every name that a source without errors mentions stands for the class itself or for a known type.
Against a table that declares more types it is declared just so, and the relations between types of
known names are the same.
-/

namespace Classwright.Check

open Source (Import TypeName)

/-! ### Names -/

namespace TypeScope

variable {s : TypeScope} {t' : TypeTable}

def withTable (s : TypeScope) (table : TypeTable) : TypeScope := { s with table := table }

/-- The name is that of the class itself, or known. -/
def Knows (s : TypeScope) (name : String) : Prop := name = s.ownName ∨ s.table.resolves name = true

theorem knows_of_builtin {name : String} (builtin : name ∈ Builtin.all) : s.Knows name :=
  .inr (TypeTable.resolves_of_builtin builtin)

theorem over_of_resolve (known : s.ImportsKnown) {t : TypeName} {type : TypeRef}
    (found : s.resolve t = .ok type) : type.Over s.Knows := by
  unfold resolve at found
  cases primitive : Primitive.ofKeyword? t.name with
  | some kind =>
    rw [primitive] at found
    cases found
    exact TypeRef.over_withDims (by trivial) t.dims
  | none =>
    rw [primitive] at found
    cases looked : s.resolveName? t.name with
    | none =>
      rw [looked] at found
      cases found
    | some name =>
      rw [looked] at found
      cases found
      have bare : s.resolve { t with dims := 0 } = .ok (.named name) := by
        unfold resolve
        rw [primitive, looked]
        rfl
      have stands : (TypeRef.named name).Over s.Knows := resolves_of_resolve known bare
      exact TypeRef.over_withDims stands t.dims

theorem over_resolveOr (known : s.ImportsKnown) (t : TypeName) :
    (s.resolveOr t).1.Over s.Knows := by
  unfold resolveOr
  split
  · rename_i found
    exact over_of_resolve known found
  · exact knows_of_builtin (by decide)

theorem over_resolveAll (known : s.ImportsKnown) (ts : List TypeName) :
    ∀ t ∈ (s.resolveAll ts).1, t.Over s.Knows := by
  intro t member
  simp only [resolveAll, List.mem_map] at member
  obtain ⟨_, ⟨written, _, rfl⟩, rfl⟩ := member
  exact over_resolveOr known written

theorem resolveName?_withTable (h : t'.Enriches s.table) {name qualified : String}
    (found : s.resolveName? name = some qualified) :
    (s.withTable t').resolveName? name = some qualified := by
  unfold resolveName? at found ⊢
  have declared (found : (if s.table.contains name then some name else none) = some qualified) :
      (if t'.contains name then some name else none) = some qualified := by
    split at found
    · rename_i there
      rw [if_pos (h.contains there)]
      exact found
    · cases found
  split at found
  · rename_i dotted
    rw [if_pos dotted]
    exact declared found
  · rename_i simple
    rw [if_neg simple]
    split at found
    · rename_i first
      exact (if_pos first).trans found
    · rename_i other
      refine (if_neg other).trans ?_
      rw [show (s.withTable t').imported? name = s.imported? name from rfl]
      cases imported : s.imported? name with
      | some q => rwa [imported] at found
      | none =>
        rw [imported] at found
        exact declared found

theorem resolve_withTable (h : t'.Enriches s.table) {t : TypeName} {type : TypeRef}
    (found : s.resolve t = .ok type) : (s.withTable t').resolve t = .ok type := by
  unfold resolve at found ⊢
  cases primitive : Primitive.ofKeyword? t.name with
  | some kind => rwa [primitive] at found
  | none =>
    rw [primitive] at found
    cases looked : s.resolveName? t.name with
    | none =>
      rw [looked] at found
      cases found
    | some name =>
      rw [looked] at found
      rw [resolveName?_withTable h looked]
      exact found

theorem resolveOr_withTable (h : t'.Enriches s.table) {t : TypeName}
    (clean : (s.resolveOr t).2 = []) : (s.withTable t').resolveOr t = s.resolveOr t := by
  unfold resolveOr at clean ⊢
  cases found : s.resolve t with
  | ok type => rw [resolve_withTable h found]
  | error d =>
    rw [found] at clean
    cases clean

theorem resolveAll_withTable (h : t'.Enriches s.table) {ts : List TypeName}
    (clean : (s.resolveAll ts).2 = []) : (s.withTable t').resolveAll ts = s.resolveAll ts := by
  have same : ts.map (s.withTable t').resolveOr = ts.map s.resolveOr := by
    refine List.map_congr_left fun t member => resolveOr_withTable h ?_
    exact List.flatMap_eq_nil_iff.1 clean _ (List.mem_map_of_mem member)
  unfold resolveAll
  rw [same]

theorem addImport_withTable (h : t'.Enriches s.table) {i : Import} {s' : TypeScope}
    (added : s.addImport i = .ok s') : (s.withTable t').addImport i = .ok (s'.withTable t') := by
  unfold addImport at added ⊢
  split at added
  · cases added
  · rename_i resolved
    have resolved : s.table.resolves i.path = true := by simpa using resolved
    have resolved' : (s.withTable t').table.resolves i.path = true := h.resolves resolved
    have same : (s.withTable t').imported? (simpleName i.path) = s.imported? (simpleName i.path) :=
      rfl
    rw [resolved', same]
    cases taken : s.imported? (simpleName i.path) with
    | none =>
      rw [taken] at added
      cases added
      rfl
    | some existing =>
      rw [taken] at added
      dsimp only at added ⊢
      split at added
      · rename_i again
        cases added
        simp [again]
      · cases added

theorem ofImports_withTable {t : TypeTable} (h : t'.Enriches t) {ownName : String}
    {imports : List Import} (clean : (ofImports t ownName imports).2 = []) :
    ofImports t' ownName imports = ((ofImports t ownName imports).1.withTable t', []) := by
  have folded : ∀ (is : List Import) (start : TypeScope × List Diagnostic), start.1.table = t →
      (is.foldl importing start).2 = [] → start.2 = [] ∧
        is.foldl importing (start.1.withTable t', [])
          = ((is.foldl importing start).1.withTable t', []) := by
    intro is
    induction is with
    | nil => exact fun start _ clean => ⟨clean, rfl⟩
    | cons i is ih =>
      rintro ⟨s, ds⟩ rfl clean
      rw [List.foldl_cons] at clean ⊢
      cases added : s.addImport i with
      | error d =>
        have stopped : importing (s, ds) i = (s, ds ++ [d]) := by simp only [importing, added]
        rw [stopped] at clean
        exact absurd (ih (s, ds ++ [d]) rfl clean).1 (by simp)
      | ok s' =>
        have went : importing (s, ds) i = (s', ds) := by simp only [importing, added]
        have went' : importing (s.withTable t', []) i = (s'.withTable t', []) := by
          simp only [importing, addImport_withTable h added]
        rw [went] at clean
        rw [List.foldl_cons, went, went']
        exact ih (s', ds) (addImport_table added).1 clean
  rw [ofImports_eq_foldl] at clean ⊢
  exact (folded imports (withOwnName t ownName, []) rfl clean).2

end TypeScope

/-! ### Declarations -/

section Declarations

variable {s : TypeScope} {t' : TypeTable} (h : t'.Enriches s.table) (known : s.ImportsKnown)

include h

theorem superclassOf_withTable (known : s.ImportsKnown) {written : TypeName}
    (clean : (superclassOf s s.ownName written).2 = []) :
    superclassOf (s.withTable t') s.ownName written = superclassOf s s.ownName written := by
  unfold superclassOf at clean ⊢
  dsimp only at clean ⊢
  cases found : s.resolve written with
  | error d =>
    rw [found] at clean
    cases clean
  | ok type =>
    rw [TypeScope.resolve_withTable h found]
    cases type with
    | named name =>
      rw [found] at clean
      dsimp only at clean ⊢
      split at clean
      · cases clean
      · rename_i other
        have resolved := (TypeScope.resolves_of_resolve known found).resolve_left other
        have same : (s.withTable t').table.lookup name = s.table.lookup name := h.lookup_eq resolved
        rw [same]
    | _ => rfl

theorem interfacesOf_withTable {seen : List String} {written : List TypeName}
    (clean : (interfacesOf s seen written).2 = []) :
    interfacesOf (s.withTable t') seen written = interfacesOf s seen written := by
  induction written generalizing seen with
  | nil => rfl
  | cons w written ih =>
    unfold interfacesOf at clean ⊢
    dsimp only at clean ⊢
    cases found : s.resolve w with
    | error d =>
      rw [found] at clean
      cases clean
    | ok type =>
      rw [TypeScope.resolve_withTable h found]
      rw [found] at clean
      cases type with
      | named name =>
        dsimp only at clean ⊢
        split at clean
        · cases clean
        · rename_i isInterface
          have there : s.table.contains name = true := by
            rw [TypeTable.contains]
            cases looked : s.table.lookup name with
            | none => simp [looked] at isInterface
            | some d => rfl
          have same : (s.withTable t').table.lookup name = s.table.lookup name :=
            h.lookup_eq (TypeScope.resolves_of_contains there)
          rw [same, if_neg isInterface, if_neg isInterface]
          split at clean
          · cases clean
          · rename_i new
            rw [if_neg new, if_neg new, ih clean]
      | _ => cases clean

theorem declareMember_withTable {className : String} {before : List DeclaredMember}
    {m : Source.Member} (clean : (declareMember s className before m).2 = []) :
    declareMember (s.withTable t') className before m = declareMember s className before m := by
  cases m with
  | field decl =>
    simp only [declareMember, List.append_eq_nil_iff] at clean ⊢
    rw [TypeScope.resolveOr_withTable h clean.2]
  | method decl =>
    simp only [declareMember, List.append_eq_nil_iff] at clean ⊢
    obtain ⟨⟨⟨⟨_, params⟩, returned⟩, throws⟩, _⟩ := clean
    rw [TypeScope.resolveAll_withTable h params, TypeScope.resolveAll_withTable h throws]
    cases written : decl.returnType with
    | none => rfl
    | some type =>
      rw [written] at returned
      dsimp only
      rw [TypeScope.resolveOr_withTable h returned]
  | constructor decl =>
    simp only [declareMember, List.append_eq_nil_iff] at clean ⊢
    rw [TypeScope.resolveAll_withTable h clean.1.2]

theorem declareMembers_withTable {className : String} {members : List Source.Member}
    (clean : (declareMembers s className members).2 = []) :
    declareMembers (s.withTable t') className members = declareMembers s className members := by
  induction members using List.reverseRecOn with
  | nil => rfl
  | append_singleton ms m ih =>
    rw [declareMembers_concat_diagnostics, List.append_eq_nil_iff] at clean
    have earlier := ih clean.1
    have last := declareMember_withTable h clean.2
    refine Prod.ext ?_ ?_
    · rw [declareMembers_concat, declareMembers_concat, earlier, last]
    · rw [declareMembers_concat_diagnostics, declareMembers_concat_diagnostics, earlier, last]

end Declarations

def ClassContext.withTable (cx : ClassContext) (table : TypeTable) : ClassContext :=
  { cx with scope := cx.scope.withTable table }

theorem ClassContext.declare_withTable {s : TypeScope} {t' : TypeTable}
    (h : t'.Enriches s.table) (known : s.ImportsKnown) {decl : Source.ClassDecl}
    (own : s.ownName = decl.name) (clean : (declare s decl).2 = []) :
    declare (s.withTable t') decl = ((declare s decl).1.withTable t', []) := by
  simp only [declare, List.append_eq_nil_iff] at clean
  obtain ⟨⟨superclass, interfaces⟩, members⟩ := clean
  unfold declare
  dsimp only
  rw [interfacesOf_withTable h interfaces, declareMembers_withTable h members, interfaces, members]
  cases written : decl.superclass with
  | none => rfl
  | some type =>
    rw [written, ← own] at superclass
    rw [← own]
    dsimp only
    rw [superclassOf_withTable h known superclass, superclass]
    rfl

/-- The context of a unit that compiles, but for the table. -/
theorem Accepted.contextOf_withTable {t t' : TypeTable} (h : t'.Enriches t)
    {unit : Source.CompilationUnit} {code : Code.Class} (accepted : Accepted t unit code) :
    TypeScope.ofImports t' unit.decl.name unit.imports
        = ((contextOf t unit).scope.withTable t', []) ∧
      ClassContext.declare ((contextOf t unit).scope.withTable t') unit.decl
        = ((contextOf t unit).withTable t', []) := by
  have known := TypeScope.importsKnown_ofImports t unit.decl.name unit.imports
  have same : t'.Enriches (contextOf t unit).scope.table := by
    have table : (contextOf t unit).scope.table = t := contextOf_table t unit
    rwa [table]
  exact ⟨TypeScope.ofImports_withTable h accepted.imports_clean,
    ClassContext.declare_withTable same known (contextOf_ownName t unit) accepted.declared_clean⟩

/-! ### Relations between types -/

/-- What the context is made of is the class itself or known to its table. -/
structure ClassContext.Grounded (cx : ClassContext) : Prop where
  closed : cx.table.Closed
  imports : cx.scope.ImportsKnown
  own : cx.scope.ownName = cx.name
  superclass : cx.table.resolves cx.superclass = true
  interfaces : ∀ i ∈ cx.interfaces, cx.table.resolves i = true
  fields : ∀ f ∈ cx.fields, f.type.Over cx.scope.Knows
  methods : ∀ m ∈ cx.methods, m.method.returnType.Over cx.scope.Knows
  params : ∀ m ∈ cx.members, ∀ p ∈ m.bodyParams.2, p.Over cx.scope.Knows

theorem Accepted.grounded {t : TypeTable} (closed : t.Closed) {unit : Source.CompilationUnit}
    {code : Code.Class} (accepted : Accepted t unit code) : (contextOf t unit).Grounded := by
  have known := TypeScope.importsKnown_ofImports t unit.decl.name unit.imports
  have supertypes := accepted.resolves
  rw [accepted.assembled, List.forall_mem_cons] at supertypes
  have table := contextOf_table t unit
  have declared : ∀ m ∈ (contextOf t unit).members, ∃ before written,
      m = (declareMember (contextOf t unit).scope unit.decl.name before written).1 := by
    intro m member
    rw [contextOf_members] at member
    obtain ⟨before, after, split⟩ := List.append_of_mem member
    obtain ⟨written, same⟩ := declareMembers_split split
    exact ⟨before, written, same⟩
  refine ⟨table.symm ▸ closed, known, contextOf_ownName t unit, ?_, ?_, ?_, ?_, ?_⟩
  · rw [table]
    exact supertypes.1
  · rw [table]
    exact supertypes.2
  · intro f member
    obtain ⟨m, inMembers, isField⟩ := List.mem_filterMap.1 member
    obtain ⟨before, written, rfl⟩ := declared m inMembers
    cases written <;> cases isField
    exact TypeScope.over_resolveOr known _
  · intro f member
    obtain ⟨m, inMembers, isMethod⟩ := List.mem_filterMap.1 member
    obtain ⟨before, written, rfl⟩ := declared m inMembers
    cases written with
    | field decl => cases isMethod
    | constructor decl => cases isMethod
    | method decl =>
      cases isMethod
      simp only
      cases decl.returnType with
      | none => trivial
      | some type => exact TypeScope.over_resolveOr known type
  · intro m member
    obtain ⟨before, written, rfl⟩ := declared m member
    cases written with
    | field decl => exact fun _ none_ => nomatch none_
    | method decl => exact TypeScope.over_resolveAll known _
    | constructor decl => exact TypeScope.over_resolveAll known _

/-- The type is that of an expression without errors: its names are known. -/
def StaticType.Over (known : String → Prop) : StaticType → Prop
  | .ref type => type.Over known
  | _ => True

theorem StaticType.over_of {known : String → Prop} {t : TypeRef} (h : t.Over known) :
    (StaticType.of t).Over known := by
  cases t <;> exact h

section Relations

variable {cx : ClassContext} {t' : TypeTable} (grounded : cx.Grounded)
  (h : t'.Enriches cx.table)

include grounded h

theorem isSubtype_withTable {sub : String} (known : cx.scope.Knows sub) (sup : String) :
    (cx.withTable t').isSubtype sub sup = cx.isSubtype sub sup := by
  have parents : ∀ parent ∈ cx.superclass :: cx.interfaces,
      t'.isSubtype parent sup = cx.table.isSubtype parent sup := by
    intro parent member
    refine h.isSubtype_eq grounded.closed ?_ sup
    rcases List.mem_cons.1 member with rfl | member
    · exact grounded.superclass
    · exact grounded.interfaces parent member
  unfold ClassContext.isSubtype
  change (sub == sup || sup == Builtin.object || if sub == cx.name then
      (cx.superclass :: cx.interfaces).any fun parent => t'.isSubtype parent sup
    else t'.isSubtype sub sup) = _
  by_cases same : sub = cx.name
  · rw [if_pos (beq_iff_eq.2 same), if_pos (beq_iff_eq.2 same)]
    refine congrArg _ ?_
    rw [Bool.eq_iff_iff, List.any_eq_true, List.any_eq_true]
    exact exists_congr fun parent => and_congr_right fun member => by rw [parents parent member]
  · have other := known.resolve_left fun own => same (own.trans grounded.own)
    rw [if_neg (by simpa using same), if_neg (by simpa using same),
      h.isSubtype_eq grounded.closed other]

theorem isAssignableRef_withTable {source : TypeRef} (known : source.Over cx.scope.Knows)
    (target : TypeRef) :
    (cx.withTable t').isAssignableRef source target = cx.isAssignableRef source target := by
  induction source generalizing target with
  | void => cases target <;> rfl
  | primitive kind => cases target <;> rfl
  | named name =>
    cases target with
    | named sup => exact isSubtype_withTable grounded h known sup
    | _ => rfl
  | array element ih =>
    cases target with
    | array other =>
      have elements := ih known other
      cases element <;> cases other <;> first | rfl | exact elements
    | _ => rfl

theorem isAssignable_withTable {source : StaticType} (known : source.Over cx.scope.Knows)
    (target : TypeRef) :
    (cx.withTable t').isAssignable source target = cx.isAssignable source target := by
  cases source with
  | ref type =>
    cases target <;> first | rfl | exact isAssignableRef_withTable grounded h known _
  | _ => cases target <;> rfl

theorem inheritedMethods_withTable :
    (cx.withTable t').inheritedMethods = cx.inheritedMethods :=
  congrArg ownedMethods (h.lineage_eq grounded.closed grounded.superclass grounded.interfaces)

theorem methodsOf_withTable {name : String} (known : cx.scope.Knows name) :
    (cx.withTable t').methodsOf name = cx.methodsOf name := by
  unfold ClassContext.methodsOf
  rw [inheritedMethods_withTable grounded h]
  by_cases same : name = cx.name
  · exact (if_pos same).trans (if_pos same).symm
  · have other := known.resolve_left fun own => same (own.trans grounded.own)
    refine (if_neg same).trans (Eq.trans ?_ (if_neg same).symm)
    exact congrArg ownedMethods (h.lineage_eq grounded.closed other fun _ none_ => nomatch none_)

/-- Overrides are as allowed as they were. -/
theorem checkOverride_withTable (span : Span) {own : OwnedMethod}
    (known : own.method.returnType.Over cx.scope.Knows) (parent : OwnedMethod) :
    (cx.withTable t').checkOverride span own parent = cx.checkOverride span own parent := by
  have fits : (cx.withTable t').returnFits own.method.returnType parent.method.returnType
      = cx.returnFits own.method.returnType parent.method.returnType := by
    unfold ClassContext.returnFits
    cases same : own.method.returnType with
    | named a =>
      rw [same] at known
      cases parent.method.returnType with
      | named b =>
        dsimp only
        rw [isSubtype_withTable grounded h known]
      | _ => rfl
    | _ => rfl
  unfold ClassContext.checkOverride
  rw [fits]
  rfl

theorem checkInheritance_withTable (span : Span) :
    (cx.withTable t').checkInheritance span = cx.checkInheritance span := by
  have missing : ∀ inherited reported ms,
      (cx.withTable t').missing inherited reported ms = cx.missing inherited reported ms := by
    intro inherited reported ms
    induction ms generalizing reported with
    | nil => rfl
    | cons m ms ih =>
      unfold ClassContext.missing
      rw [ih, ih]
      rfl
  unfold ClassContext.checkInheritance
  dsimp only
  rw [inheritedMethods_withTable grounded h, missing]
  refine congrArg (· ++ _) ?_
  refine List.flatMap_congr fun m member => ?_
  cases m with
  | method decl own =>
    refine List.flatMap_congr fun parent _ => ?_
    refine checkOverride_withTable grounded h decl.span (grounded.methods own ?_) parent
    exact List.mem_filterMap.2 ⟨_, member, rfl⟩
  | _ => rfl

end Relations

end Classwright.Check
