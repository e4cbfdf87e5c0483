import Classwright.Check.Compile
import Mathlib.Data.List.Induction

/-!
# What a compiled unit is made of

A unit that compiles has no diagnostic anywhere, and its code is put together from the members of
its class context.
-/

namespace Classwright.Check

open Source (CompilationUnit Import)

/-- The context in which a unit is checked. -/
def contextOf (table : TypeTable) (unit : CompilationUnit) : ClassContext :=
  (ClassContext.declare (TypeScope.ofImports table unit.decl.name unit.imports).1 unit.decl).1

theorem TypeScope.addImport_table {s s' : TypeScope} {i : Import} (added : s.addImport i = .ok s') :
    s'.table = s.table ∧ s'.ownName = s.ownName := by
  unfold TypeScope.addImport at added
  split at added
  · cases added
  · split at added
    · cases added
      exact ⟨rfl, rfl⟩
    · split at added
      · cases added
        exact ⟨rfl, rfl⟩
      · cases added

/-- One import more, or what is reported of it. -/
def TypeScope.importing (start : TypeScope × List Diagnostic) (i : Import) :
    TypeScope × List Diagnostic :=
  match start.1.addImport i with
  | .ok s => (s, start.2)
  | .error d => (start.1, start.2 ++ [d])

theorem TypeScope.ofImports_eq_foldl (table : TypeTable) (ownName : String)
    (imports : List Import) :
    TypeScope.ofImports table ownName imports
      = imports.foldl TypeScope.importing (TypeScope.withOwnName table ownName, []) :=
  rfl

/-- What no import changes holds once all of them have been looked at. -/
theorem TypeScope.ofImports_invariant {P : TypeScope → Prop} {table : TypeTable}
    {ownName : String} (start : P (TypeScope.withOwnName table ownName))
    (step : ∀ {s s' : TypeScope} {i : Import}, P s → s.addImport i = .ok s' → P s')
    (imports : List Import) : P (TypeScope.ofImports table ownName imports).1 := by
  have keeps : ∀ (is : List Import) (start : TypeScope × List Diagnostic), P start.1 →
      P (is.foldl TypeScope.importing start).1 := by
    intro is
    induction is with
    | nil => exact fun _ holds => holds
    | cons i is ih =>
      intro start holds
      refine ih _ ?_
      unfold TypeScope.importing
      cases added : start.1.addImport i with
      | error d => exact holds
      | ok s => exact step holds added
  rw [TypeScope.ofImports_eq_foldl]
  exact keeps imports _ start

theorem TypeScope.ofImports_table (table : TypeTable) (ownName : String) (imports : List Import) :
    (TypeScope.ofImports table ownName imports).1.table = table
      ∧ (TypeScope.ofImports table ownName imports).1.ownName = ownName := by
  refine TypeScope.ofImports_invariant (P := fun s => s.table = table ∧ s.ownName = ownName)
    ⟨rfl, rfl⟩ (fun holds added => ?_) imports
  have kept := TypeScope.addImport_table added
  exact ⟨kept.1.trans holds.1, kept.2.trans holds.2⟩

theorem contextOf_scope (table : TypeTable) (unit : CompilationUnit) :
    (contextOf table unit).scope = (TypeScope.ofImports table unit.decl.name unit.imports).1 := rfl

@[simp] theorem contextOf_table (table : TypeTable) (unit : CompilationUnit) :
    (contextOf table unit).table = table :=
  (TypeScope.ofImports_table table unit.decl.name unit.imports).1

@[simp] theorem contextOf_name (table : TypeTable) (unit : CompilationUnit) :
    (contextOf table unit).name = unit.decl.name := rfl

theorem contextOf_ownName (table : TypeTable) (unit : CompilationUnit) :
    (contextOf table unit).scope.ownName = unit.decl.name :=
  (TypeScope.ofImports_table table unit.decl.name unit.imports).2

theorem contextOf_members (table : TypeTable) (unit : CompilationUnit) :
    (contextOf table unit).members
      = (declareMembers (contextOf table unit).scope unit.decl.name unit.decl.members).1 := rfl

theorem contextOf_superclass (table : TypeTable) (unit : CompilationUnit) :
    (contextOf table unit).superclass = (match unit.decl.superclass with
      | none => (Builtin.object, [])
      | some written =>
        superclassOf (contextOf table unit).scope unit.decl.name written).1 := rfl

theorem declareMembers_concat (scope : TypeScope) (className : String) (ms : List Source.Member)
    (m : Source.Member) : (declareMembers scope className (ms ++ [m])).1
      = (declareMembers scope className ms).1
        ++ [(declareMember scope className (declareMembers scope className ms).1 m).1] := by
  rw [declareMembers, List.foldl_append, List.foldl_cons, List.foldl_nil]
  rfl

theorem declareMembers_concat_diagnostics (scope : TypeScope) (className : String)
    (ms : List Source.Member) (m : Source.Member) :
    (declareMembers scope className (ms ++ [m])).2 = (declareMembers scope className ms).2
      ++ (declareMember scope className (declareMembers scope className ms).1 m).2 := by
  rw [declareMembers, List.foldl_append, List.foldl_cons, List.foldl_nil]
  rfl

/-- What a class is found to implement is declared as an interface. -/
theorem exists_of_mem_interfacesOf {scope : TypeScope} {seen : List String}
    {written : List Source.TypeName} :
    ∀ i ∈ (interfacesOf scope seen written).1,
      ∃ d, scope.table.lookup i = some d ∧ d.isInterface = true := by
  induction written generalizing seen with
  | nil => exact fun _ member => nomatch member
  | cons w written ih =>
    unfold interfacesOf
    dsimp only
    split
    · exact ih
    · split
      · exact ih
      · rename_i isInterface
        split
        · exact ih
        · intro i member
          rcases List.mem_cons.1 member with rfl | member
          · cases looked : scope.table.lookup i with
            | none => simp [looked] at isInterface
            | some d => exact ⟨d, rfl, by simpa [looked] using isInterface⟩
          · exact ih i member
    · exact ih

/-- Nothing is wrong with a unit that compiles, and its code is that of its members. -/
structure Accepted (table : TypeTable) (unit : CompilationUnit) (code : Code.Class) : Prop where
  imports_clean : (TypeScope.ofImports table unit.decl.name unit.imports).2 = []
  declared_clean : (ClassContext.declare
    (TypeScope.ofImports table unit.decl.name unit.imports).1 unit.decl).2 = []
  inheritance_clean : (contextOf table unit).checkInheritance unit.decl.span = []
  members_clean : ∀ m ∈ (contextOf table unit).members,
    (compileMember (contextOf table unit) m).2 = []
  assembled : code = assemble (contextOf table unit) unit.decl.modifiers.effective
    ((contextOf table unit).members.map fun m => (compileMember (contextOf table unit) m).1)

theorem accepted_of_compileUnit {table : TypeTable} {unit : CompilationUnit} {code : Code.Class}
    (compiled : compileUnit table unit = .ok code) : Accepted table unit code := by
  unfold compileUnit at compiled
  simp only at compiled
  split at compiled
  · rename_i clean
    simp only [List.append_eq_nil_iff, List.flatMap_eq_nil_iff, List.mem_map,
      forall_exists_index, and_imp, forall_apply_eq_imp_iff₂] at clean
    obtain ⟨⟨⟨himports, hdeclared⟩, hinheritance⟩, hmembers⟩ := clean
    refine ⟨himports, hdeclared, hinheritance, hmembers, ?_⟩
    rw [List.map_map] at compiled
    exact (Except.ok.inj compiled).symm
  · cases compiled

theorem Accepted.compiles {table : TypeTable} {unit : CompilationUnit} {code : Code.Class}
    (accepted : Accepted table unit code) : compileUnit table unit = .ok code := by
  have members : ((contextOf table unit).members.map
      (compileMember (contextOf table unit))).flatMap (·.2) = [] := by
    rw [List.flatMap_map]
    exact List.flatMap_eq_nil_iff.2 accepted.members_clean
  unfold compileUnit
  simp only
  split
  · rw [List.map_map, accepted.assembled]
    rfl
  · rename_i reported
    refine (reported ?_).elim
    rw [accepted.imports_clean, accepted.declared_clean, List.nil_append, List.nil_append,
      List.append_eq_nil_iff]
    exact ⟨accepted.inheritance_clean, members⟩

/-- The methods that a class context declares are those of the code. -/
theorem Accepted.exists_code_of_mem_methods {table : TypeTable} {unit : CompilationUnit}
    {code : Code.Class} (accepted : Accepted table unit code) {m : OwnedMethod}
    (own : m ∈ (contextOf table unit).methods) :
    ∃ c ∈ code.methods, c.name = m.method.name ∧ c.params = m.method.params ∧
      c.returnType = m.method.returnType := by
  simp only [ClassContext.methods, List.mem_filterMap] at own
  obtain ⟨member, inMembers, isMethod⟩ := own
  cases member with
  | field decl info => cases isMethod
  | constructor decl params => cases isMethod
  | method decl info =>
    cases isMethod
    refine ⟨(compileMethod (contextOf table unit) decl m).1, ?_, rfl, rfl, rfl⟩
    rw [accepted.assembled]
    simp only [assemble, List.filterMap_map, List.mem_filterMap, Function.comp]
    exact ⟨_, inMembers, rfl⟩

/-- A source text that compiles is the text of a unit that does. -/
theorem compileUnit_of_compileSource {table : TypeTable} {source : String} {code : Code.Class}
    (compiled : compileSource table source = .ok code) :
    ∃ tokens unit, Source.scan source = .ok tokens ∧ Source.parse tokens = .ok unit
      ∧ compileUnit table unit = .ok code := by
  unfold compileSource at compiled
  cases hscan : Source.scan source with
  | error e =>
    rw [hscan] at compiled
    cases compiled
  | ok tokens =>
    rw [hscan] at compiled
    change ((Source.parse tokens).mapError CompileError.grammar >>= fun unit =>
      (compileUnit table unit).mapError CompileError.check) = .ok code at compiled
    cases hparse : Source.parse tokens with
    | error e =>
      rw [hparse] at compiled
      cases compiled
    | ok unit =>
      rw [hparse] at compiled
      change (compileUnit table unit).mapError CompileError.check = .ok code at compiled
      refine ⟨tokens, unit, rfl, hparse, ?_⟩
      cases hcheck : compileUnit table unit with
      | error e =>
        rw [hcheck] at compiled
        cases compiled
      | ok code' =>
        rw [hcheck] at compiled
        cases compiled
        rfl

/-- The text of a unit that compiles is a source text that does. -/
theorem compileSource_of_compileUnit {table : TypeTable} {source : String}
    {tokens : Lexed} {unit : Source.CompilationUnit} {code : Code.Class}
    (scanned : Source.scan source = .ok tokens) (parsed : Source.parse tokens = .ok unit)
    (compiled : compileUnit table unit = .ok code) : compileSource table source = .ok code := by
  rw [compileSource, scanned]
  change ((Source.parse tokens).mapError CompileError.grammar >>= fun unit =>
    (compileUnit table unit).mapError CompileError.check) = .ok code
  rw [parsed]
  change (compileUnit table unit).mapError CompileError.check = .ok code
  rw [compiled]
  rfl

/-! ### Expressions where a type is required -/

/-- How an expression gets the type that is required of it: a constant is narrowed, a primitive is
promoted, and anything else is left as it is, reported or not. -/
theorem coerce_cases (cx : ClassContext) (e : Code.Expr) (source : StaticType) (target : TypeRef)
    (span : Span) :
    (∃ value kind, source = .int ∧ target = .primitive kind ∧ e = .const (.int value) ∧
      constantFits value kind = true ∧
      coerce cx e source target span = pure (convert target e)) ∨
    ((∀ value kind, source = .int → target = .primitive kind → e = .const (.int value) →
        constantFits value kind = false) ∧
      cx.isAssignable source target = false ∧
      coerce cx e source target span
        = Lower.report (.incompatible source.text target.canonicalName) span >>= fun _ => pure e) ∨
    cx.isAssignable source target = true ∧
      ((∃ a b, source = .primitive a ∧ target = .primitive b ∧
          coerce cx e source target span = pure (promote e a b)) ∨
        (∀ a b, source = .primitive a → target ≠ .primitive b) ∧
          coerce cx e source target span = pure e) := by
  unfold coerce
  split
  · rename_i refused
    have refused : cx.isAssignable source target = false := by simpa using refused
    simp only
    split
    · split
      · rename_i fits
        exact .inl ⟨_, _, rfl, rfl, rfl, fits, rfl⟩
      · rename_i loses
        refine .inr (.inl ⟨?_, refused, rfl⟩)
        rintro value kind _ ⟨⟩ ⟨⟩
        exact Bool.eq_false_iff.2 loses
    · rename_i other
      exact .inr (.inl ⟨fun value kind hs ht he => (other kind value hs ht he).elim, refused, rfl⟩)
  · rename_i assignable
    have assignable : cx.isAssignable source target = true := by simpa using assignable
    simp only
    split
    · split
      · rename_i fits
        exact .inl ⟨_, _, rfl, rfl, rfl, fits, rfl⟩
      · exact .inr (.inr ⟨assignable, .inl ⟨_, _, rfl, rfl, rfl⟩⟩)
    · refine .inr (.inr ⟨assignable, ?_⟩)
      split
      · exact .inl ⟨_, _, rfl, rfl, rfl⟩
      · rename_i notBoth
        exact .inr ⟨fun a b same => notBoth a b same, rfl⟩

end Classwright.Check

/-! ### What a source text is compiled to -/

namespace Classwright.Sample

open Check

def nowhere : Span := ⟨0, 0, 1, 1⟩

/-- What a source text is parsed to. -/
def unitOf (source : String) : Source.CompilationUnit :=
  match (Source.scan source).toOption.bind fun tokens => (Source.parse tokens).toOption with
  | some unit => unit
  | none => ⟨[], ⟨{}, "", none, [], [], nowhere⟩⟩

/-- What a source text is compiled to. -/
def codeOf (table : TypeTable) (source : String) : Code.Class :=
  match compileSource table source with
  | .ok code => code
  | .error _ => ⟨0, "", "", [], [], [], [], []⟩

theorem compiles_of_isOk {table : TypeTable} {source : String}
    (ok : (compileSource table source).toOption.isSome = true) :
    compileSource table source = .ok (codeOf table source) ∧
    ∃ tokens, Source.scan source = .ok tokens ∧ Source.parse tokens = .ok (unitOf source) := by
  cases compiled : compileSource table source with
  | error e =>
    rw [compiled] at ok
    cases ok
  | ok code =>
    obtain ⟨tokens, unit, scanned, parsed, _⟩ := compileUnit_of_compileSource compiled
    refine ⟨by rw [codeOf, compiled], tokens, scanned, ?_⟩
    rw [unitOf, scanned, parsed]
    simp [Except.toOption, parsed]

theorem unit_compiles {table : TypeTable} {source : String}
    (ok : (compileSource table source).toOption.isSome = true) :
    compileUnit table (unitOf source) = .ok (codeOf table source) := by
  obtain ⟨compiled, tokens, scanned, parsed⟩ := compiles_of_isOk ok
  obtain ⟨tokens', unit, scanned', parsed', compiled'⟩ := compileUnit_of_compileSource compiled
  rw [scanned, Except.ok.injEq] at scanned'
  subst scanned'
  rw [parsed, Except.ok.injEq] at parsed'
  subst parsed'
  exact compiled'

end Classwright.Sample
