import Classwright.Proofs.Compiled
import Classwright.Proofs.Forwarding
import Classwright.Proofs.Nominating

/-!
# Headers of synthesized sources

The names in the header of a synthesized source are resolved again when it is compiled, and there a
simple name that the hooks import stands for the import. So whatever fragments the hooks give: what
a compiled class extends and implements is what the names of its header stand for, imports first.
-/

namespace Classwright

open Source Synthesis

/-- What a name stands for in a source with these imports, if it stands for anything. -/
def Check.denoted (imports : List String) (ownName name : String) : String :=
  if name = ownName ∨ name ∈ Builtin.all then name
  else (imports.find? (simpleName · == name)).getD name

/-! ### Names in a scope -/

theorem plain_of_mem_splitAt {sep : Char} {cs part : List Char} (member : part ∈ Text.splitAt sep cs) :
    sep ∉ part := by
  induction cs generalizing part with
  | nil =>
    rw [Text.splitAt, List.mem_singleton] at member
    rw [member]
    exact List.not_mem_nil
  | cons c cs ih =>
    rw [Text.splitAt] at member
    split at member
    · rcases List.mem_cons.1 member with rfl | member
      · exact List.not_mem_nil
      · exact ih member
    · rename_i other
      split at member
      · rw [List.mem_singleton.1 member, List.mem_singleton]
        exact fun same => other same.symm
      · rename_i first parts split_
        rw [split_] at ih
        rcases List.mem_cons.1 member with rfl | member
        · rw [List.mem_cons, not_or]
          exact ⟨fun same => other same.symm, ih List.mem_cons_self⟩
        · exact ih (.tail _ member)

theorem simpleName_plain (name : String) : '.' ∉ (simpleName name).toList := by
  rw [simpleName, String.toList_ofList, Text.splitLastDot]
  dsimp only
  cases last : (Text.splitAt '.' name.toList).getLast? with
  | none => exact List.not_mem_nil
  | some part => exact plain_of_mem_splitAt (List.mem_of_getLast? last)

namespace Check

variable {table : TypeTable} {ownName name found : String} {imports : List Import}

theorem denoted_of_unshadowed {paths : List String}
    (unshadowed : ∀ path ∈ paths, simpleName path = name → path = name) :
    denoted paths ownName name = name := by
  unfold denoted
  split
  · rfl
  · cases first : paths.find? (simpleName · == name) with
    | none => rfl
    | some path =>
      have here := List.find?_some first
      exact unshadowed path (List.mem_of_find?_eq_some first) (eq_of_beq here)

theorem denoted_dotted {paths : List String} (dotted : '.' ∈ name.toList) :
    denoted paths ownName name = name := by
  refine denoted_of_unshadowed fun path _ same => ?_
  rw [← same] at dotted
  exact absurd dotted (simpleName_plain path)

namespace TypeScope

theorem imported?_addImport {s s' : TypeScope} {i : Import} (added : s.addImport i = .ok s')
    (name : String) : s'.imported? name
      = (s.imported? name).or (if simpleName i.path == name then some i.path else none) := by
  unfold addImport at added
  split at added
  · cases added
  · split at added
    · cases added
      simp only [imported?, List.find?_append, List.find?_singleton, Option.map_or]
      congr 1
      split <;> rfl
    · rename_i existing taken
      split at added
      · rename_i same
        cases added
        by_cases here : simpleName i.path = name
        · rw [← here, taken, same]
          rfl
        · rw [if_neg (by simpa using here), Option.or_none]
      · cases added

/-- Without anything wrong with them, the imports stand in the scope as they were written; the
induction is on what is still to be imported. -/
theorem imported?_foldl {imports : List Import} {start : TypeScope × List Diagnostic}
    (clean : (imports.foldl importing start).2 = []) (name : String) :
    start.2 = [] ∧ (imports.foldl importing start).1.imported? name
      = (start.1.imported? name).or ((imports.map (·.path)).find? (simpleName · == name)) := by
  induction imports generalizing start with
  | nil => exact ⟨clean, (Option.or_none).symm⟩
  | cons i imports ih =>
    rw [List.foldl_cons] at clean ⊢
    obtain ⟨before, imported⟩ := ih clean
    cases added : start.1.addImport i with
    | error d =>
      rw [importing, added] at before
      exact absurd before (by simp)
    | ok s =>
      rw [importing, added] at before imported
      rw [importing, added]
      refine ⟨before, ?_⟩
      rw [imported, imported?_addImport added, Option.or_assoc, List.map_cons, List.find?_cons]
      congr 1
      cases simpleName i.path == name <;> rfl

theorem imported?_ofImports (clean : (ofImports table ownName imports).2 = []) (name : String) :
    (ofImports table ownName imports).1.imported? name
      = (imports.map (·.path)).find? (simpleName · == name) := by
  rw [ofImports_eq_foldl] at clean ⊢
  rw [(imported?_foldl clean name).2]
  rfl

theorem resolveName?_denoted (clean : (ofImports table ownName imports).2 = [])
    (looked : (ofImports table ownName imports).1.resolveName? name = some found) :
    found = denoted (imports.map (·.path)) ownName name := by
  unfold resolveName? at looked
  rw [imported?_ofImports clean, (ofImports_table table ownName imports).2] at looked
  split at looked
  · rename_i dotted
    rw [denoted_dotted (List.contains_iff_mem.1 dotted)]
    split at looked
    · exact (Option.some.inj looked).symm
    · cases looked
  · unfold denoted
    split at looked
    · rename_i own
      rw [if_pos own]
      exact (Option.some.inj looked).symm
    · rename_i other
      rw [if_neg other]
      split at looked
      · rename_i path imported
        rw [imported]
        exact (Option.some.inj looked).symm
      · rename_i none_
        rw [none_]
        split at looked
        · exact (Option.some.inj looked).symm
        · cases looked

/-- A written name is resolved to the type that it stands for. -/
theorem resolve_named (clean : (ofImports table ownName imports).2 = [])
    (legal : isQualifiedName name = true) {w : TypeName} (written : w.bare = named name)
    {t : TypeRef} (resolved : (ofImports table ownName imports).1.resolve w = .ok t) :
    t = .named (denoted (imports.map (·.path)) ownName name) := by
  have bare : (ofImports table ownName imports).1.resolve (named name) = .ok t :=
    resolve_bare written resolved
  unfold resolve at bare
  rw [show (named name).name = name from rfl,
    Delegation.ofKeyword?_of_isQualifiedName legal] at bare
  dsimp only at bare
  split at bare
  · rename_i found looked
    rw [← resolveName?_denoted clean looked]
    exact (Except.ok.inj bare).symm
  · cases bare

end TypeScope

/-! ### Supertypes that are accepted -/

theorem superclassOf_resolve {scope : TypeScope} {className : String} {w : TypeName}
    (clean : (superclassOf scope className w).2 = []) :
    scope.resolve w = .ok (.named (superclassOf scope className w).1) := by
  unfold superclassOf at clean ⊢
  grind

theorem interfacesOf_resolve {scope : TypeScope} {seen : List String} {ws : List TypeName}
    (clean : (interfacesOf scope seen ws).2 = []) :
    ws.map scope.resolve = (interfacesOf scope seen ws).1.map fun name => .ok (.named name) := by
  induction ws generalizing seen with
  | nil => rfl
  | cons w ws ih =>
    rw [interfacesOf] at clean ⊢
    dsimp only at clean ⊢
    split at clean
    · cases clean
    · rename_i name resolved
      split at clean
      · cases clean
      · rename_i isInterface
        split at clean
        · cases clean
        · rename_i new
          rw [if_neg isInterface, if_neg new, List.map_cons, List.map_cons, resolved, ih clean]
    · cases clean

end Check

/-! ### Headers that are read -/

namespace Source

/-- A class has the header that is read in front of its members. -/
theorem Cursor.classDecl_header {c d last : Cursor} {head : Header} {decl : ClassDecl}
    (read : c.header.Gives head d) (given : c.classDecl.2.Gives decl last) :
    decl.name = head.name ∧ decl.superclass = head.superclass ∧
      decl.interfaces = head.interfaces := by
  obtain ⟨shorter, read⟩ := read
  unfold classDecl at given
  simp only [read, Step.gives_upTo, Step.gives_mapAt] at given
  obtain ⟨_, _, rfl⟩ := given
  exact ⟨rfl, rfl, rfl⟩

theorem unit_of_parse {l : Lexed} {unit : CompilationUnit} (parsed : parse l = .ok unit) :
    unit.imports = (Cursor.ofLexed l).imports.1 ∧
      ∃ last, ((Cursor.ofLexed l).imports.2.2.classDecl).2.Gives unit.decl last := by
  unfold parse at parsed
  generalize Cursor.imports (Cursor.ofLexed l) = start at parsed ⊢
  obtain ⟨is, es, c⟩ := start
  dsimp only at parsed ⊢
  cases declared : c.classDecl with
  | mk errors step =>
    rw [declared] at parsed
    cases step with
    | error e d => cases parsed
    | ok decl last shorter =>
      dsimp only at parsed
      split at parsed
      · cases parsed
        exact ⟨rfl, last, shorter, rfl⟩
      · cases parsed

/-- A unit has the imports and the header that its source starts with, whatever follows. -/
theorem header_of_parse {l : Lexed} {unit : CompilationUnit} (parsed : parse l = .ok unit)
    {paths : List String} {className : String} {superclass : Option String}
    {interfaces : List String} {body : List Token}
    (tokens : l.tokens.map (·.token)
      = paths.flatMap importTokens ++ (headerTokens className superclass interfaces ++ body)) :
    unit.imports.map (·.path) = paths ∧ unit.decl.name = className ∧
      unit.decl.superclass.map TypeName.bare = superclass.map named ∧
      unit.decl.interfaces.map TypeName.bare = interfaces.map named := by
  have noImport : (headerTokens className superclass interfaces ++ body).head?
      ≠ some (.keyword .import_) := by simp [headerTokens]
  obtain ⟨bare, _, behind⟩ := imports_written (c := Cursor.ofLexed l) tokens noImport
  obtain ⟨head, d, read, shape, _⟩ := reads_header behind
  obtain ⟨imports, last, declared⟩ := unit_of_parse parsed
  obtain ⟨name, extended, implemented⟩ := Cursor.classDecl_header read declared
  have paths_ : (unit.imports.map Import.bare).map (·.path) = unit.imports.map (·.path) := by
    rw [List.map_map]
    rfl
  rw [name, extended, implemented]
  refine ⟨?_, congrArg (·.name) shape, congrArg (·.superclass) shape,
    congrArg (·.interfaces) shape⟩
  rw [← paths_, imports, bare, List.map_map]
  exact List.map_id _

end Source

namespace Synthesis

variable {hooks : Hooks} {contract : Descriptor} {className : String} {source : ClassSource}

/-- The types that the hooks nominate; they are asked for the superclass of an interface alone. -/
def nominees (hooks : Hooks) (contract : Descriptor) : List Descriptor :=
  (if contract.isInterface then (hooks.superclass contract).toList else [])
    ++ hooks.interfaces contract

/-- Every name that goes into the imports and the header of a source is legal. -/
structure LegalHeader (hooks : Hooks) (contract : Descriptor) : Prop where
  name : isQualifiedName contract.name = true
  imports : ∀ path ∈ hooks.imports contract, isQualifiedName path = true
  nominees : ∀ d ∈ nominees hooks contract, isQualifiedName d.name = true

namespace LegalHeader

variable {name : String}

theorem superclass (legal : LegalHeader hooks contract)
    (member : name ∈ meantSuperclass hooks contract) : isQualifiedName name = true := by
  have there := (Option.mem_filter_iff.1 member).1
  split at there
  · rename_i isInterface
    obtain ⟨s, given, rfl⟩ := Option.map_eq_some_iff.1 there
    refine legal.nominees s (List.mem_append_left _ ?_)
    rw [if_pos isInterface, given]
    exact List.mem_singleton.2 rfl
  · cases there
    exact legal.name

theorem interface (legal : LegalHeader hooks contract)
    (member : name ∈ meantInterfaces hooks contract) : isQualifiedName name = true := by
  rcases mem_meantInterfaces_iff.1 member with ⟨i, given, rfl⟩ | ⟨_, rfl⟩
  · exact legal.nominees i (List.mem_append_right _ given)
  · exact legal.name

end LegalHeader

/-- The tokens of a source start with those of the imports and the header, whatever the fragments of
the hooks are. -/
theorem tokens_of_scan (legal : LegalHeader hooks contract) (ownName : isName className = true)
    (made : synthesize hooks contract className = .ok source) {l : Lexed}
    (scanned : scan source.text = .ok l) :
    ∃ body, l.tokens.map (·.token) = (distinct (hooks.imports contract)).flatMap importTokens
      ++ (headerTokens className (meantSuperclass hooks contract) (meantInterfaces hooks contract)
        ++ body) := by
  obtain ⟨superclass, nominated, chosen, text⟩ := synthesize_text made
  have words : words? source.text.toList = some (l.tokens.map (·.token)) :=
    words?_eq_some_iff.2 ⟨l, scanned, rfl⟩
  have imports := spells_imports fun path member => legal.imports path (mem_distinct.1 member)
  have extended : ∀ s ∈ superclass.filter (· != Builtin.object), isQualifiedName s = true := by
    intro s member
    rw [← meantSuperclass_eq chosen] at member
    exact legal.superclass member
  have header := spells_header ownName extended fun _ member => legal.interface member
  rw [text, String.append_assoc, String.toList_append, String.toList_append, List.append_assoc,
    imports, header] at words
  obtain ⟨ts, behind, same⟩ := Option.map_eq_some_iff.1 words
  obtain ⟨body, _, rfl⟩ := Option.map_eq_some_iff.1 behind
  rw [← meantSuperclass_eq chosen] at same
  exact ⟨body, same.symm⟩

end Synthesis

/-! ### Headers that are compiled -/

namespace Check

variable {table : TypeTable} {unit : CompilationUnit} {code : Code.Class}

theorem Accepted.superclass_eq (accepted : Accepted table unit code) :
    code.superclass = (contextOf table unit).superclass := by
  rw [accepted.assembled]
  rfl

theorem Accepted.interfaces_eq (accepted : Accepted table unit code) :
    code.interfaces = (contextOf table unit).interfaces := by
  rw [accepted.assembled]
  rfl

/-- Without a written superclass a class extends `Object`. -/
theorem Accepted.superclass_none (accepted : Accepted table unit code)
    (written : unit.decl.superclass = none) : code.superclass = Builtin.object := by
  rw [accepted.superclass_eq, contextOf_superclass, written]

theorem Accepted.resolve_superclass (accepted : Accepted table unit code) {w : TypeName}
    (written : unit.decl.superclass = some w) :
    (contextOf table unit).scope.resolve w = .ok (.named code.superclass) := by
  have clean := accepted.declared_clean
  unfold ClassContext.declare at clean
  rw [written] at clean
  simp only [List.append_eq_nil_iff] at clean
  rw [accepted.superclass_eq, contextOf_superclass, written]
  exact superclassOf_resolve clean.1.1

theorem Accepted.resolve_interfaces (accepted : Accepted table unit code) :
    unit.decl.interfaces.map (contextOf table unit).scope.resolve
      = code.interfaces.map fun name => .ok (.named name) := by
  have clean := accepted.declared_clean
  unfold ClassContext.declare at clean
  simp only [List.append_eq_nil_iff] at clean
  rw [accepted.interfaces_eq]
  exact interfacesOf_resolve clean.1.2

end Check

namespace Synthesis

theorem find?_distinct {α : Type} [BEq α] [LawfulBEq α] (p : α → Bool) (as : List α) :
    (distinct as).find? p = as.find? p := by
  induction as with
  | nil => rfl
  | cons a as ih =>
    rw [distinct, List.find?_cons, List.find?_cons, List.find?_filter, ← ih]
    cases here : p a with
    | true => rfl
    | false =>
      dsimp only
      congr 1
      funext b
      by_cases same : b = a
      · simp [same, here]
      · simp [same]

/-- What a name in the header of the class of a contract stands for. -/
def headerDenotes (hooks : Hooks) (contract : Descriptor) (name : String) : String :=
  Check.denoted (hooks.imports contract) (classNameFor contract.name) name

/-- Types that are written as names and resolved to names, each to the one that it stands for. -/
theorem resolved_names {resolve : TypeName → Except Check.Diagnostic TypeRef}
    {denotes : String → String} {names found : List String}
    (resolves : ∀ name ∈ names, ∀ w t, w.bare = named name → resolve w = .ok t →
      t = .named (denotes name))
    {ws : List TypeName} (written : ws.map TypeName.bare = names.map named)
    (resolved : ws.map resolve = found.map fun name => .ok (.named name)) :
    found = names.map denotes := by
  induction names generalizing ws found with
  | nil =>
    rw [List.map_nil, List.map_eq_nil_iff] at written
    rw [written, List.map_nil] at resolved
    exact List.map_eq_nil_iff.1 resolved.symm
  | cons name names ih =>
    obtain ⟨w, ws, rfl, first, rest⟩ := List.map_eq_cons_iff.1 written
    obtain ⟨other, found, rfl, same, others⟩ := List.map_eq_cons_iff.1 resolved.symm
    have here := resolves name List.mem_cons_self w _ first same.symm
    rw [TypeRef.named.inj here, List.map_cons,
      ih (fun n member => resolves n (.tail _ member)) rest others.symm]

/-- A compiled class extends and implements what the names in its header stand for. -/
theorem compiled_header {hooks : Hooks} {contract : Descriptor} {source : ClassSource}
    (legal : LegalHeader hooks contract)
    (made : synthesize hooks contract (classNameFor contract.name) = .ok source)
    {table : TypeTable} {code : Code.Class} (compiled : compileSource table source.text = .ok code) :
    code.superclass = ((meantSuperclass hooks contract).map (headerDenotes hooks contract)).getD
        Builtin.object ∧
      code.interfaces = (meantInterfaces hooks contract).map (headerDenotes hooks contract) := by
  obtain ⟨l, unit, scanned, parsed, checked⟩ := Check.compileUnit_of_compileSource compiled
  obtain ⟨body, tokens⟩ :=
    tokens_of_scan legal (isName_classNameFor contract.name) made scanned
  obtain ⟨imports, name, extended, implemented⟩ := header_of_parse parsed tokens
  have accepted := Check.accepted_of_compileUnit checked
  -- imports that are written twice make no difference
  have resolves : ∀ written, isQualifiedName written = true → ∀ w t, w.bare = named written →
      (Check.contextOf table unit).scope.resolve w = .ok t →
      t = .named (headerDenotes hooks contract written) := by
    intro written qualified w t bare resolved
    rw [Check.contextOf_scope] at resolved
    rw [Check.TypeScope.resolve_named accepted.imports_clean qualified bare resolved, imports, name]
    unfold headerDenotes Check.denoted
    rw [find?_distinct]
  constructor
  · cases given : meantSuperclass hooks contract with
    | none =>
      rw [given, Option.map_none, Option.map_eq_none_iff] at extended
      exact accepted.superclass_none extended
    | some s =>
      rw [given] at extended
      obtain ⟨w, written, bare⟩ := Option.map_eq_some_iff.1 extended
      have same := resolves s (legal.superclass given) w _ bare (accepted.resolve_superclass written)
      exact TypeRef.named.inj same
  · exact resolved_names (fun i member => resolves i (legal.interface member)) implemented
      accepted.resolve_interfaces

end Synthesis

end Classwright
