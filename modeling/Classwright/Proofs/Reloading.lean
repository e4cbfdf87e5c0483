import Classwright.Generation.Loader
import Classwright.Proofs.Initializing
import Classwright.Proofs.Stored

/-!
# What a compiler has written is loaded

A source without floating-point literals is compiled to a class that is read back from the file it
was written to, and links against the types it was compiled with, unless an initial value fails or
its document nests too deep. How deep the code of a class nests is not bounded by the compiler, so
that there are classes that it stores for nobody to read.
-/

namespace Classwright

/-! ### Supertypes are known -/

namespace Check

open Source (Import TypeName)

namespace TypeScope

/-- All that has been imported is known. -/
def ImportsKnown (s : TypeScope) : Prop := ∀ i ∈ s.imports, s.table.resolves i.2 = true

theorem ImportsKnown.addImport {s s' : TypeScope} (known : s.ImportsKnown) {i : Import}
    (added : s.addImport i = .ok s') : s'.ImportsKnown := by
  unfold TypeScope.addImport at added
  split at added
  · cases added
  · rename_i resolved
    split at added
    · cases added
      intro j member
      rcases List.mem_append.1 member with member | member
      · exact known j member
      · rw [List.mem_singleton.1 member]
        simpa using resolved
    · split at added
      · cases added
        exact known
      · cases added

theorem importsKnown_ofImports (table : TypeTable) (ownName : String) (imports : List Import) :
    (ofImports table ownName imports).1.ImportsKnown := by
  refine ofImports_invariant ?_ (fun known added => known.addImport added) imports
  intro i member
  cases member

theorem resolves_of_contains {table : TypeTable} {name : String} (there : table.contains name) :
    table.resolves name = true := by
  rw [TypeTable.resolves, there, Bool.or_true]

/-- A written name stands for the class itself or for a type that is known. -/
theorem resolves_of_resolve {s : TypeScope} (known : s.ImportsKnown) {t : TypeName} {name : String}
    (found : s.resolve t = .ok (.named name)) :
    name = s.ownName ∨ s.table.resolves name = true := by
  have bare : ∀ {u : TypeRef} {dims : Nat}, u.withDims dims = .named name → u = .named name := by
    intro u dims same
    cases dims with
    | zero => exact same
    | succ dims => cases same
  unfold resolve at found
  split at found
  · cases bare (Except.ok.inj found)
  · split at found
    · rename_i looked
      cases bare (Except.ok.inj found)
      unfold resolveName? at looked
      split at looked
      · split at looked
        · rename_i there
          cases looked
          exact .inr (resolves_of_contains there)
        · cases looked
      · split at looked
        · rename_i own
          cases looked
          rcases own with own | builtin
          · exact .inl own
          · refine .inr ?_
            rw [TypeTable.resolves, List.contains_iff_mem.2 builtin, Bool.true_or]
        · split at looked
          · rename_i qualified imported
            cases looked
            obtain ⟨i, member, rfl⟩ := Option.map_eq_some_iff.1 imported
            exact .inr (known i (List.mem_of_find?_eq_some member))
          · split at looked
            · rename_i there
              cases looked
              exact .inr (resolves_of_contains there)
            · cases looked
    · cases found

end TypeScope

theorem resolves_superclassOf {scope : TypeScope} (known : scope.ImportsKnown)
    (written : TypeName) :
    scope.table.resolves (superclassOf scope scope.ownName written).1 = true := by
  have object : scope.table.resolves Builtin.object = true := rfl
  unfold superclassOf
  dsimp only
  split
  · exact object
  · rename_i name found
    split
    · exact object
    · rename_i other
      have resolved := (TypeScope.resolves_of_resolve known found).resolve_left other
      split
      · split
        · exact resolved
        · exact object
      · split
        · exact resolved
        · split
          · exact resolved
          · split <;> exact resolved
  · exact object

theorem resolves_interfacesOf {scope : TypeScope} {seen : List String} {written : List TypeName} :
    ∀ t ∈ (interfacesOf scope seen written).1, scope.table.resolves t = true := by
  intro t member
  obtain ⟨d, found, _⟩ := exists_of_mem_interfacesOf t member
  refine TypeScope.resolves_of_contains ?_
  rw [TypeTable.contains, found]
  rfl

theorem Accepted.version {table : TypeTable} {unit : Source.CompilationUnit} {code : Code.Class}
    (accepted : Accepted table unit code) : code.version = Code.formatVersion := by
  rw [accepted.assembled]
  rfl

/-- The supertypes of a class that compiles are known. -/
theorem Accepted.resolves {table : TypeTable} {unit : Source.CompilationUnit} {code : Code.Class}
    (accepted : Accepted table unit code) :
    ∀ t ∈ code.superclass :: code.interfaces, table.resolves t = true := by
  have known := TypeScope.importsKnown_ofImports table unit.decl.name unit.imports
  have scope := contextOf_table table unit
  have own := contextOf_ownName table unit
  rw [← contextOf_scope] at known
  rw [accepted.assembled]
  intro t member
  rw [← scope]
  rcases List.mem_cons.1 member with rfl | member
  · change (contextOf table unit).scope.table.resolves (contextOf table unit).superclass = true
    rw [contextOf_superclass]
    cases unit.decl.superclass with
    | none => rfl
    | some written =>
      rw [← own]
      exact resolves_superclassOf known written
  · exact resolves_interfacesOf t member

end Check

/-! ### Files -/

namespace FileTree

variable {t t' : FileTree}

/-- A way through directories stays one as long as the directories are the same. -/
theorem follow_of_directories (same : t'.directories = t.directories) {place : List String}
    {parts : List String} {end_ : List String} (found : t.follow place parts = .ok end_) :
    t'.follow place parts = .ok end_ := by
  have isDirectory : ∀ place, t'.isDirectory place = t.isDirectory place := by
    intro place
    rw [FileTree.isDirectory, FileTree.isDirectory, same]
  induction parts generalizing place with
  | nil => exact found
  | cons part parts ih =>
    rw [follow] at found ⊢
    rw [isDirectory]
    split at found
    · cases found
    · rename_i free
      rw [if_neg free]
      split at found
      · rename_i stays
        rw [if_pos stays]
        exact ih found
      · rename_i moves
        rw [if_neg moves]
        split at found
        · rename_i up
          rw [if_pos up]
          split at found
          · cases found
          · rename_i inside
            rw [if_neg inside]
            exact ih found
        · rename_i down
          rw [if_neg down]
          split at found
          · cases found
          · rename_i short
            rw [if_neg short]
            exact ih found

theorem locate_of_directories (same : t'.directories = t.directories) {p : Path}
    {end_ : List String} (found : t.locate p = .ok end_) : t'.locate p = .ok end_ := by
  unfold locate at found ⊢
  split at found
  · cases found
  · split at found
    · cases found
    · rename_i valid some_
      rw [if_neg valid, if_neg some_]
      exact follow_of_directories same found

theorem locate_put {place : List String} {content : String} {p : Path} {end_ : List String}
    (found : t.locate p = .ok end_) : (t.put place content).locate p = .ok end_ := by
  have same : (t.put place content).directories = t.directories := rfl
  exact locate_of_directories same found

theorem file?_put (t : FileTree) (place : List String) (content : String) :
    (t.put place content).file? place = some content := by
  simp [put, file?]

theorem readText_of_locate {p : Path} {place : List String} (located : t.locate p = .ok place) :
    t.readText p = match t.file? place with
      | some content => .ok content
      | none => .error (if t.isDirectory place then .isADirectory else .notFound) := by
  rw [readText, located]
  rfl

theorem readText_of_file? {p : Path} {place : List String} {content : String}
    (located : t.locate p = .ok place) (there : t.file? place = some content) :
    t.readText p = .ok content := by
  rw [readText_of_locate located, there]

/-- What has been written is read. -/
theorem readText_writeText {p : Path} {content : String}
    (written : t.writeText p content = .ok t') :
    t'.readText p = .ok content := by
  unfold writeText at written
  cases found : t.locate p with
  | error f =>
    rw [found] at written
    cases written
  | ok place =>
    rw [found] at written
    dsimp only [bind, Except.bind] at written
    split at written
    · cases written
    · split at written
      · cases written
      · split at written
        · cases written
        · cases written
          exact readText_of_file? (locate_put found) (file?_put ..)

end FileTree

/-! ### Loading -/

namespace Source

/-- A literal that is no fraction. -/
def Literal.Whole : Literal → Prop
  | float _ | double _ => False
  | _ => True

instance : DecidablePred Literal.Whole
  | .float _ | .double _ => .isFalse id
  | .int _ | .long _ | .char _ | .string _ | .bool _ | .null => .isTrue trivial

end Source

namespace Check

/-- The constants of a source without fractions are read exactly. -/
theorem defaults_exact : Defaults Code.Constant.Exact := by
  intro t above
  unfold defaultCode
  split <;> trivial

theorem wrote_exact {v : Source.Literal} (whole : v.Whole) : Wrote Code.Constant.Exact v := by
  cases v with
  | float _ | double _ => exact whole.elim
  | _ => trivial

end Check

namespace Code

/-- Fields, static fields and variables have numbers of 64 bits. -/
structure Class.Countable (code : Class) : Prop where
  fields : code.fields.length ≤ UInt64.size
  statics : code.statics.length ≤ UInt64.size
  constructors : ∀ k ∈ code.constructors, k.locals < UInt64.size
  methods : ∀ m ∈ code.methods, m.locals < UInt64.size

instance (code : Class) : Decidable code.Countable :=
  decidable_of_iff (code.fields.length ≤ UInt64.size ∧ code.statics.length ≤ UInt64.size ∧
      (∀ k ∈ code.constructors, k.locals < UInt64.size) ∧
      ∀ m ∈ code.methods, m.locals < UInt64.size)
    ⟨fun ⟨fields, statics, constructors, methods⟩ => ⟨fields, statics, constructors, methods⟩,
      fun h => ⟨h.fields, h.statics, h.constructors, h.methods⟩⟩

theorem counted_of_below {code : Class} (countable : code.Countable) {locals : Nat}
    (few : locals < UInt64.size) {a : Access} (below : a.Below locals code.bound) : a.Counted := by
  cases a with
  | read kind slot | write kind slot =>
    cases kind with
    | local_ => exact Nat.lt_trans below few
    | field => exact Nat.lt_of_lt_of_le below countable.fields
    | static => exact Nat.lt_of_lt_of_le below countable.statics
  | declare slot => exact Nat.lt_trans below few
  | this | super | call _ => trivial

/-- Slots that there are have numbers of 64 bits if all slots have. -/
theorem Class.WellScoped.counted {code : Class} (slots : code.WellScoped)
    (countable : code.Countable) : code.Counted where
  fields := fun f member e given a touched =>
    counted_of_below countable (by decide) (slots.fields f member e given a touched)
  statics := fun f member e given a touched =>
    counted_of_below countable (by decide) (slots.statics f member e given a touched).1
  constructors := fun k member =>
    { locals := countable.constructors k member
      accesses := fun a touched => counted_of_below countable (countable.constructors k member)
        ((slots.constructors k member).below a touched) }
  methods := fun m member =>
    { locals := countable.methods m member
      accesses := fun a touched => counted_of_below countable (countable.methods m member)
        ((slots.methods m member).below a touched) }

end Code

open Check

/-- The stored form of a compiled source without fractions is read as the class, unless it nests too
deep. -/
theorem ofText?_of_compiles {table : TypeTable} {unit : Source.CompilationUnit} {code : Code.Class}
    (compiled : compileUnit table unit = .ok code) (whole : unit.Literals Source.Literal.Whole)
    (countable : code.Countable) :
    Code.Class.ofText? code.toText = if code.Readable then some code else none := by
  have accepted := accepted_of_compileUnit compiled
  have exact := accepted.only defaults_exact (whole.mono fun _ => wrote_exact)
  have version : code.version < UInt32.size := by
    rw [accepted.version]
    decide
  exact Code.Class.ofText?_toText version exact
    ((classNumbered compiled).wellScoped.counted countable)

/-- The class that is read from the file that a compiled class was written to. -/
theorem readUnit_written {files files' : FileTree} {directory : Path} {code : Code.Class}
    (version : code.version = Code.formatVersion)
    (stored : Code.Class.ofText? code.toText = if code.Readable then some code else none)
    (written : files.writeText (unitPath directory code.name) code.toText = .ok files') :
    readUnit files' directory code.name
      = if code.Readable then .ok code else .error .malformed := by
  delta readUnit
  rw [FileTree.readText_writeText written]
  dsimp only
  rw [stored]
  by_cases readable : code.Readable
  · simp [readable, version]
  · simp [readable]

/-- How loading a compiled class ends. -/
inductive Reloaded (code : Code.Class) : Except Stop LoadedClass → Prop
  | loaded (c : LoadedClass) : c.code = code → Reloaded code (.ok c)
  | failed (f : Failure) : f.IsInitial code.name → Reloaded code (.error (.failed f))

/-- What the compiler writes for a source without fractions is read back, and loaded against the
same types, exactly if it nests no deeper than documents may. -/
theorem reload_of_compileSource {table : TypeTable} {source : String} {code : Code.Class}
    (compiled : compileSource table source = .ok code)
    (whole : ∀ tokens unit, Source.scan source = .ok tokens → Source.parse tokens = .ok unit →
      unit.Literals Source.Literal.Whole)
    (countable : code.Countable) :
    (Code.Class.ofText? code.toText = if code.Readable then some code else none) ∧
    ∀ (files files' : FileTree) (directory : Path),
      files.writeText (unitPath directory code.name) code.toText = .ok files' →
      ∀ (maxCallDepth loads id : Nat) (s : Store), s.tables id = table →
        let ended := unitLoader maxCallDepth loads ⟨files', directory, code.name, id⟩ s
        (code.Readable → Reloaded code ended.1) ∧
        (¬code.Readable → ended = (.error (.failed (.load code.name .malformed)), s)) := by
  obtain ⟨tokens, unit, scanned, parsed, compiled⟩ := compileUnit_of_compileSource compiled
  have stored := ofText?_of_compiles compiled (whole tokens unit scanned parsed) countable
  have accepted := accepted_of_compileUnit compiled
  refine ⟨stored, ?_⟩
  rintro files files' directory written maxCallDepth loads id s rfl
  have read := readUnit_written accepted.version stored written
  constructor
  · intro readable
    rw [if_pos readable] at read
    obtain ⟨result, values, initial, linked⟩ := link_secluded code
    delta unitLoader
    dsimp only
    rw [read]
    dsimp only
    rw [linked s id maxCallDepth accepted.resolves]
    cases result with
    | ok _ => exact .loaded _ rfl
    | error f => exact .failed f (initial f rfl)
  · intro unreadable
    rw [if_neg unreadable] at read
    delta unitLoader
    dsimp only
    rw [read]
    rfl

namespace Sample

/-- A class with a static field whose initial value is computed, and a text in it. -/
def ledger : String :=
  "class Ledger \x7b static String title = \"Gr\u00f6\u00dfe\".toUpperCase(); long total = 5L; "
    ++ "boolean above(long bound) \x7b return !(total <= bound); \x7d \x7d"

/-- A class with a body of so many negations. -/
def negations (count : Nat) : String :=
  "class Deep \x7b boolean deep() \x7b return " ++ String.ofList (List.replicate count '!')
    ++ "true; \x7d \x7d"

/-- The file in which a class is stored, in a directory of its own. -/
def shelved (code : Code.Class) : FileTree :=
  FileTree.put { directories := [["shelf"]] } ["shelf", Code.fileName code.name] code.toText

theorem shelved_written {code : Code.Class} (named : code.name = "Ledger") :
    ({ directories := [["shelf"]] } : FileTree).writeText (unitPath ["shelf"] code.name) code.toText
      = .ok (shelved code) := by
  rw [shelved, named]
  generalize code.toText = content
  have path : unitPath ["shelf"] "Ledger" = ["shelf", Code.fileName "Ledger"] := by decide +kernel
  rw [path]
  have place : FileTree.locate { directories := [["shelf"]] } ["shelf", Code.fileName "Ledger"]
      = .ok ["shelf", Code.fileName "Ledger"] := by decide +kernel
  rw [FileTree.writeText, place]
  rfl

theorem ledger_runs : (compileSource {} ledger).toOption.isSome = true ∧
    (unitOf ledger).Literals Source.Literal.Whole ∧ (codeOf {} ledger).Countable ∧
    (codeOf {} ledger).Readable ∧ (codeOf {} ledger).name = "Ledger" := by
  decide +kernel

theorem whole_of_unitOf {source : String} (ok : (compileSource {} source).toOption.isSome = true)
    (whole : (unitOf source).Literals Source.Literal.Whole) : ∀ tokens unit,
    Source.scan source = .ok tokens → Source.parse tokens = .ok unit →
    unit.Literals Source.Literal.Whole := by
  intro tokens unit scanned parsed
  obtain ⟨_, tokens', scanned', parsed'⟩ := compiles_of_isOk ok
  cases scanned.symm.trans scanned'
  cases parsed.symm.trans parsed'
  exact whole

/-- The class is read back, and loaded with its title. -/
theorem ledger_reloaded : compileSource {} ledger = .ok (codeOf {} ledger) ∧
    Code.Class.ofText? (codeOf {} ledger).toText = some (codeOf {} ledger) ∧
    Reloaded (codeOf {} ledger) (unitLoader 64 0
      ⟨shelved (codeOf {} ledger), ["shelf"], (codeOf {} ledger).name, 0⟩ {}).1 := by
  obtain ⟨ok, whole, countable, readable, named⟩ := ledger_runs
  have compiled := (compiles_of_isOk ok).1
  have reloads := reload_of_compileSource compiled (whole_of_unitOf ok whole) countable
  refine ⟨compiled, by rw [reloads.1, if_pos readable], ?_⟩
  exact (reloads.2 _ _ _ (shelved_written named) 64 0 0 {} rfl).1 readable

theorem negations_run : (compileSource {} (negations 61)).toOption.isSome = true ∧
    (unitOf (negations 61)).Literals Source.Literal.Whole ∧
    (codeOf {} (negations 61)).Countable ∧ ¬(codeOf {} (negations 61)).Readable ∧
    (codeOf {} (negations 60)).Readable := by
  decide +kernel

/-- One negation too many is compiled and stored, but not read back. -/
theorem negations_lost : ¬∀ (source : String) (code : Code.Class),
    compileSource {} source = .ok code →
    (∀ tokens unit, Source.scan source = .ok tokens → Source.parse tokens = .ok unit →
      unit.Literals Source.Literal.Whole) →
    Code.Class.ofText? code.toText = some code := by
  intro restored
  obtain ⟨ok, whole, countable, unreadable, _⟩ := negations_run
  have lost := ofText?_of_compiles (unit_compiles ok) whole countable
  rw [if_neg unreadable, restored _ _ (compiles_of_isOk ok).1 (whole_of_unitOf ok whole)] at lost
  cases lost

end Sample

end Classwright
