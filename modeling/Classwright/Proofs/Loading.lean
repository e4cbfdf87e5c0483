import Classwright.Proofs.Retrying

/-!
# Types read from directories

Reading directories of descriptors that are all valid comes to one fold over what the files hold,
in the order of the directories and of the file names in each: a name that is registered keeps its
type, and another gets the type of the first file that defines it.
-/

namespace Classwright

/-! ### Tables to which types are added -/

namespace TypeTable

variable {t : TypeTable}

theorem size_defineIfAbsent (t : TypeTable) (d : Descriptor) :
    (t.defineIfAbsent d).size = t.size + if t.contains d.name then 0 else 1 := by
  unfold defineIfAbsent
  split
  · rfl
  · exact List.length_append

/-- As many types are new as have names that are not declared. -/
theorem size_foldl {ds : List Descriptor} (distinct : (ds.map (·.name)).Nodup) (t : TypeTable) :
    (ds.foldl defineIfAbsent t).size
      = t.size + (ds.filter fun d => !t.contains d.name).length := by
  induction ds generalizing t with
  | nil => rfl
  | cons d ds ih =>
    rw [List.map_cons, List.nodup_cons] at distinct
    have same : (ds.filter fun e => !(t.defineIfAbsent d).contains e.name)
        = ds.filter fun e => !t.contains e.name := by
      refine List.filter_congr fun e member => ?_
      have other : d.name ≠ e.name := by
        intro h
        exact distinct.1 (h ▸ List.mem_map_of_mem member)
      rw [contains_defineIfAbsent_of_ne other]
    rw [List.foldl_cons, ih distinct.2, size_defineIfAbsent, same, List.filter_cons]
    cases t.contains d.name with
    | true => rfl
    | false => exact Nat.add_right_comm _ _ _

end TypeTable

/-! ### What directories hold -/

theorem Catalog.mem_descriptorFiles {names : List String} {file : String} :
    file ∈ descriptorFiles names ↔
      file ∈ names ∧ Path.extension? file = some descriptorExtension := by
  rw [descriptorFiles, List.mem_mergeSort, List.mem_filter]
  exact and_congr_right fun _ => beq_iff_eq

namespace FileTree

/-- The descriptor in a file of a directory. -/
def descriptor? (files : FileTree) (directory : Path) (file : String) : Option Descriptor :=
  (files.readText (directory.join [file])).toOption.bind Descriptor.ofText?

/-- The files of a directory that are read for descriptors, in the order in which they are. -/
def shelf (files : FileTree) (directory : Path) : List String :=
  Catalog.descriptorFiles ((files.list directory).toOption.getD [])

/-- The directory can be listed, and each of its files that is read holds a descriptor. -/
def Readable (files : FileTree) (directory : Path) : Prop :=
  (∃ names, files.list directory = .ok names) ∧
    ∀ file ∈ files.shelf directory, ∃ d, files.descriptor? directory file = some d

/-- The types in a directory, in the order in which they are read. -/
def descriptors (files : FileTree) (directory : Path) : List Descriptor :=
  (files.shelf directory).filterMap (files.descriptor? directory)

/-- The file of the directory is read and holds the type. -/
def Holds (files : FileTree) (directory : Path) (file : String) (d : Descriptor) : Prop :=
  file ∈ files.shelf directory ∧ files.descriptor? directory file = some d

variable {files : FileTree} {directory : Path} {name : String} {d : Descriptor}

/-- Files are read by their names. -/
theorem sorted_shelf (files : FileTree) (directory : Path) :
    (files.shelf directory).Pairwise (· ≤ ·) := by
  have sorted : (files.shelf directory).Pairwise fun a b => decide (a ≤ b) = true := by
    refine List.pairwise_mergeSort (fun a b c h h' => ?_) (fun a b => ?_) _
    · rw [decide_eq_true_eq] at h h' ⊢
      exact String.le_trans h h'
    · rw [Bool.or_eq_true, decide_eq_true_eq, decide_eq_true_eq]
      exact String.le_total a b
  exact sorted.imp fun h => of_decide_eq_true h

theorem mem_descriptors : d ∈ files.descriptors directory ↔ ∃ file, files.Holds directory file d :=
  List.mem_filterMap

/-- What is found first in names in order is the least name that is looked for. -/
theorem find?_sorted {l : List String} (sorted : l.Pairwise (· ≤ ·)) {p : String → Bool}
    {file : String} :
    l.find? p = some file ↔
      file ∈ l ∧ p file = true ∧ ∀ other ∈ l, other < file → p other = false := by
  constructor
  · intro found
    obtain ⟨meets, front, back, rfl, fail⟩ := List.find?_eq_some_iff_append.1 found
    refine ⟨by simp, meets, fun other member less => ?_⟩
    rcases List.mem_append.1 member with member | member
    · simpa using fail other member
    · have least : file ≤ other := by
        rcases List.mem_cons.1 member with rfl | member
        · exact String.le_refl _
        · exact List.rel_of_pairwise_cons (List.pairwise_append.1 sorted).2.1 member
      exact absurd less (String.not_lt.2 least)
  · rintro ⟨member, meets, least⟩
    obtain ⟨first, found⟩ := Option.isSome_iff_exists.1 (List.find?_isSome.2 ⟨file, member, meets⟩)
    obtain ⟨meets', front, back, rfl, fail⟩ := List.find?_eq_some_iff_append.1 found
    have after : file ∈ first :: back := by
      refine (List.mem_append.1 member).resolve_left fun before => ?_
      simpa [meets] using fail file before
    rcases List.mem_cons.1 after with rfl | after
    · exact found
    · have le : first ≤ file := List.rel_of_pairwise_cons (List.pairwise_append.1 sorted).2.1 after
      have not_less : ¬ first < file := by
        intro less
        have := least first (by simp) less
        exact Bool.false_ne_true (this.symm.trans meets')
      rw [found, String.le_antisymm le (String.not_lt.1 not_less)]

/-- The first type of a name in a directory is the one that the least file holds. -/
theorem find?_descriptors_eq_some_iff :
    (files.descriptors directory).find? (·.name == name) = some d ↔
      d.name = name ∧ ∃ file, files.Holds directory file d ∧
        ∀ file' d', file' < file → files.Holds directory file' d' → d'.name ≠ name := by
  rw [descriptors, List.find?_filterMap, Option.bind_eq_some_iff]
  constructor
  · rintro ⟨file, found, holds⟩
    obtain ⟨member, meets, least⟩ := (find?_sorted (files.sorted_shelf directory)).1 found
    rw [holds, Option.any_some] at meets
    refine ⟨eq_of_beq meets, file, ⟨member, holds⟩, fun file' d' less holds' same => ?_⟩
    have fails := least file' holds'.1 less
    rw [holds'.2, Option.any_some, same, beq_self_eq_true] at fails
    exact Bool.noConfusion fails
  · rintro ⟨named, file, holds, least⟩
    refine ⟨file, (find?_sorted (files.sorted_shelf directory)).2 ⟨holds.1, ?_, ?_⟩, holds.2⟩
    · rw [holds.2, Option.any_some, named, beq_self_eq_true]
    · intro other member less
      cases held : files.descriptor? directory other with
      | none => rfl
      | some d' => exact beq_false_of_ne (least other d' less ⟨member, held⟩)

/-- The file that holds the type is the first, by the order of the directories and then by its own
name, that defines the name. -/
def FirstDefines (files : FileTree) (directories : List Path) (name : String) (d : Descriptor) :
    Prop :=
  d.name = name ∧ ∃ before directory after file, directories = before ++ directory :: after ∧
    files.Holds directory file d ∧
    (∀ directory' ∈ before, ∀ file' d', files.Holds directory' file' d' → d'.name ≠ name) ∧
    ∀ file' d', file' < file → files.Holds directory file' d' → d'.name ≠ name

theorem find?_descriptors_eq_none_iff :
    (files.descriptors directory).find? (·.name == name) = none ↔
      ∀ file d, files.Holds directory file d → d.name ≠ name := by
  rw [List.find?_eq_none]
  constructor
  · intro none_ file d holds same
    exact none_ d (mem_descriptors.2 ⟨file, holds⟩) (beq_of_eq same)
  · intro none_ d member same
    obtain ⟨file, holds⟩ := mem_descriptors.1 member
    exact none_ file d holds (eq_of_beq same)

/-- The first type of a name in several directories is that of the first file that defines it. -/
theorem find?_flatMap_descriptors_eq_some_iff {directories : List Path} :
    (directories.flatMap files.descriptors).find? (·.name == name) = some d ↔
      files.FirstDefines directories name d := by
  rw [List.find?_flatMap, List.findSome?_eq_some_iff]
  constructor
  · rintro ⟨before, directory, after, rfl, found, none_⟩
    obtain ⟨named, file, holds, least⟩ := find?_descriptors_eq_some_iff.1 found
    exact ⟨named, before, directory, after, file, rfl, holds,
      fun e member => find?_descriptors_eq_none_iff.1 (none_ e member), least⟩
  · rintro ⟨named, before, directory, after, file, rfl, holds, none_, least⟩
    exact ⟨before, directory, after, rfl,
      find?_descriptors_eq_some_iff.2 ⟨named, file, holds, least⟩,
      fun e member => find?_descriptors_eq_none_iff.2 (none_ e member)⟩

end FileTree

/-! ### Reading directories -/

namespace Catalog

section

variable {α β : Type} {body : Reading (StateM FileTree) α} {next : α → Reading (StateM FileTree) β}
  {t t' : TypeTable} {files : FileTree}

theorem run_bind_of_ok {a : α} (ran : (body.run.run t).run files = ((.ok a, t'), files)) :
    ((body >>= next).run.run t).run files = ((next a).run.run t').run files := by
  rw [ExceptT.run_bind, StateT.run_bind, StateT.run_bind, ran]
  rfl

theorem run_orFault {action : StateM FileTree (Except FileFault α)} {a : α}
    (done : action.run files = (.ok a, files)) :
    ((orFault action : Reading (StateM FileTree) α).run.run t).run files = ((.ok a, t), files) := by
  change ((((Except.mapError CatalogFault.file) (action.run files).1, t), (action.run files).2) :
    (Except CatalogFault α × TypeTable) × FileTree) = _
  rw [done]
  rfl

end

variable {files : FileTree}

/-- What is read declares these types, counts those that are new and changes no file. -/
def Reads (files : FileTree) (body : Reading (StateM FileTree) Nat) (ds : List Descriptor) : Prop :=
  ∀ t : TypeTable, ∃ n, (ds.foldl TypeTable.defineIfAbsent t).size = t.size + n ∧
    (body.run.run t).run files = ((.ok n, ds.foldl TypeTable.defineIfAbsent t), files)

theorem reads_zero : Reads files (pure 0) [] := fun _ => ⟨0, rfl, rfl⟩

theorem Reads.add {body body' : Reading (StateM FileTree) Nat} {ds ds' : List Descriptor}
    (h : Reads files body ds) (h' : Reads files body' ds') :
    Reads files (do
      let new ← body
      let others ← body'
      return new + others) (ds ++ ds') := by
  intro t
  obtain ⟨n, counted, ran⟩ := h t
  obtain ⟨n', counted', ran'⟩ := h' (ds.foldl TypeTable.defineIfAbsent t)
  rw [List.foldl_append]
  refine ⟨n + n', ?_, ?_⟩
  · rw [counted', counted, Nat.add_assoc]
  · rw [run_bind_of_ok ran, run_bind_of_ok ran']
    rfl

theorem reads_readFile {directory : Path} {file : String} {d : Descriptor}
    (holds : files.descriptor? directory file = some d) :
    Reads files (readFile (directory.join [file])) [d] := by
  obtain ⟨text, read, valid⟩ := Option.bind_eq_some_iff.1 holds
  have content : files.readText (directory.join [file]) = .ok text := by
    cases content : files.readText (directory.join [file]) with
    | error f =>
      rw [content] at read
      cases read
    | ok text' =>
      rw [content] at read
      cases read
      rfl
  have done : (FileSystem.readText (directory.join [file]) : StateM FileTree _).run files
      = (.ok text, files) := congrArg (fun r => (r, files)) content
  intro t
  refine ⟨_, t.size_defineIfAbsent d, ?_⟩
  rw [readFile, run_bind_of_ok (run_orFault done), valid]
  rfl

theorem reads_readFiles {directory : Path} {names : List String}
    (valid : ∀ file ∈ names, ∃ d, files.descriptor? directory file = some d) :
    Reads files (readFiles directory names) (names.filterMap (files.descriptor? directory)) := by
  induction names with
  | nil => exact reads_zero
  | cons file names ih =>
    rw [List.forall_mem_cons] at valid
    obtain ⟨d, holds⟩ := valid.1
    rw [List.filterMap_cons_some holds]
    exact (reads_readFile holds).add (ih valid.2)

theorem reads_readDirectories {directories : List Path}
    (readable : ∀ directory ∈ directories, files.Readable directory) :
    Reads files (readDirectories directories) (directories.flatMap files.descriptors) := by
  induction directories with
  | nil => exact reads_zero
  | cons directory directories ih =>
    rw [List.forall_mem_cons] at readable
    obtain ⟨⟨names, listed⟩, valid⟩ := readable.1
    rw [FileTree.shelf, listed] at valid
    have done : (FileSystem.list directory : StateM FileTree _).run files = (.ok names, files) :=
      congrArg (fun r => (r, files)) listed
    intro t
    rw [List.flatMap_cons, FileTree.descriptors, FileTree.shelf, listed, readDirectories,
      run_bind_of_ok (run_orFault done)]
    exact (reads_readFiles valid).add (ih readable.2) t

end Catalog

namespace Registry

variable {files : FileTree} {directories : List Path}

/-- The registry in which the types that directories hold are registered. -/
def loaded (r : Registry) (files : FileTree) (directories : List Path) : Registry :=
  { r with table := (directories.flatMap files.descriptors).foldl TypeTable.defineIfAbsent r.table }

/-- Loading types from directories of a tree. -/
def readFrom (r : Registry) (directories : List Path) (files : FileTree) :
    (Except CatalogFault Nat × Registry) × FileTree :=
  (r.readDirectories directories : StateM FileTree _).run files

theorem readFrom_eq (readable : ∀ directory ∈ directories, files.Readable directory)
    (r : Registry) :
    ∃ n, (r.loaded files directories).table.size = r.table.size + n ∧
      r.readFrom directories files = ((.ok n, r.loaded files directories), files) := by
  obtain ⟨n, counted, ran⟩ := Catalog.reads_readDirectories readable r.table
  refine ⟨n, counted, ?_⟩
  rw [readFrom, readDirectories, StateT.run_bind, ran]
  rfl

/-- All that can be read is known. -/
theorem loaded_loaded (r : Registry) :
    (r.loaded files directories).loaded files directories = r.loaded files directories := by
  have known := TypeTable.contains_foldl (directories.flatMap files.descriptors) r.table
  have same := TypeTable.foldl_known known
  rw [loaded, loaded, same]

/-- A second time there is nothing new. -/
theorem readFrom_loaded (readable : ∀ directory ∈ directories, files.Readable directory)
    (r : Registry) :
    (r.loaded files directories).readFrom directories files
      = ((.ok 0, r.loaded files directories), files) := by
  obtain ⟨n, counted, ran⟩ := readFrom_eq readable (r.loaded files directories)
  rw [loaded_loaded] at counted ran
  rw [ran, Nat.left_eq_add.1 counted]

end Registry

end Classwright
