import Classwright.Proofs.Forwarding
import Classwright.Proofs.Indentation
import Classwright.Proofs.Loading
import Classwright.Proofs.Reloading

/-!
# Types written to a directory

Writing types puts one file for each into the directory, which is listed and read back afterwards.
What is then loaded from the directory is what was written, as far as it is not known already.
-/

namespace Classwright

/-! ### Paths into a directory -/

namespace Path

/-- A name that a file may have and that leads nowhere else. -/
structure Plain (file : String) : Prop where
  some_ : file ≠ ""
  stays : file ≠ "."
  descends : file ≠ ".."
  slash : '/' ∉ file.toList
  valid : '\x00' ∉ file.toList

variable {p : Path} {file : String}

theorem mem_text {c : Char} (part : c ≠ '/') : c ∈ p.text.toList ↔ ∃ name ∈ p, c ∈ name.toList := by
  induction p with
  | nil => simp [text]
  | cons name names ih =>
    cases names with
    | nil => simp [text]
    | cons name' names =>
      rw [text] at ih
      rw [text, String.intercalate_cons_cons, String.toList_append, String.toList_append,
        List.mem_append, List.mem_append, ih, List.exists_mem_cons_iff]
      simp [part]

theorem isBlank_of_mem (plain : Plain file) (member : file ∈ p) : p.isBlank = false := by
  obtain ⟨c, first⟩ : ∃ c, c ∈ file.toList := by
    refine List.exists_mem_of_ne_nil _ fun empty => plain.some_ ?_
    exact String.toList_inj.1 empty
  have part : c ≠ '/' := fun same => plain.slash (same ▸ first)
  have inside : c ∈ p.text.toList := (mem_text part).2 ⟨file, member, first⟩
  rw [isBlank, Bool.eq_false_iff]
  intro blank
  rw [String.isEmpty_iff] at blank
  rw [blank] at inside
  exact List.not_mem_nil inside

theorem isAbsolute_cons_cons (part part' : String) (p : Path) :
    isAbsolute (part :: part' :: p) = decide (part = "") := by
  by_cases root : part = ""
  · rw [root]
    rfl
  · rw [decide_eq_false root]
    unfold isAbsolute
    split
    · rename_i h
      exact absurd (List.cons.inj h).1 root
    · rfl

/-- A file is reached from where its directory is reached from. -/
theorem isAbsolute_append {base front : Path} (some_ : base.isBlank = false)
    (same : front = base ∨ base = front ++ [""]) (file : String) :
    (front ++ [file]).isAbsolute = base.isAbsolute := by
  match front, same with
  | [], .inl rfl => exact absurd some_ (by decide)
  | [], .inr rfl => exact absurd some_ (by decide)
  | [part], .inl rfl =>
    have relative : part ≠ "" := by
      rintro rfl
      exact absurd some_ (by decide)
    rw [List.singleton_append, isAbsolute_cons_cons, decide_eq_false relative, isAbsolute]
    rintro _ _ h
    cases h
  | [part], .inr rfl | part :: _ :: _, .inl rfl | part :: _ :: _, .inr rfl =>
    exact (isAbsolute_cons_cons part _ _).trans (isAbsolute_cons_cons part _ _).symm

theorem join_eq {base : Path} (some_ : base.isBlank = false) (file : String) :
    ∃ front, base.join [file] = front ++ [file] ∧ (front = base ∨ base = front ++ [""]) := by
  have relative : isAbsolute [file] = false := by
    unfold isAbsolute
    split
    · rename_i h
      cases h
    · rfl
  rw [join, relative, some_, Bool.or_self, if_neg Bool.false_ne_true]
  split
  · rename_i slash
    obtain ⟨front, rfl⟩ := List.getLast?_eq_some_iff.1 slash
    exact ⟨front, by rw [List.dropLast_concat], .inr rfl⟩
  · exact ⟨base, rfl, .inl rfl⟩

theorem getLast?_join (base : Path) (file : String) :
    (base.join [file]).getLast? = some file := by
  unfold join
  split
  · rfl
  · split <;> exact List.getLast?_concat

end Path

/-! ### Files in a directory -/

namespace FileTree

variable {t t' : FileTree} {place : List String} {directory : Path} {file : String}

theorem follow_append (t : FileTree) (place front back : List String) :
    t.follow place (front ++ back) = (t.follow place front).bind fun q => t.follow q back := by
  induction front generalizing place with
  | nil => rfl
  | cons part front ih =>
    rw [List.cons_append, follow, follow]
    split
    · rfl
    · split
      · exact ih place
      · split
        · split
          · rfl
          · exact ih _
        · split
          · rfl
          · exact ih _

/-- A slash at the end of a path leads nowhere else. -/
theorem follow_front {front : List String} (same : front = directory ∨ directory = front ++ [""])
    {root : List String} (found : t.follow root directory = .ok place) :
    t.follow root front = .ok place := by
  rcases same with rfl | rfl
  · exact found
  · rw [follow_append] at found
    cases ahead : t.follow root front with
    | error f =>
      rw [ahead] at found
      cases found
    | ok q =>
      rw [ahead] at found
      change t.follow q [""] = .ok place at found
      rw [follow] at found
      split at found
      · cases found
      · rw [if_pos (.inl rfl), follow] at found
        exact found

/-- The path of a file in a directory leads into the directory. -/
theorem locate_join (located : t.locate directory = .ok place)
    (isDirectory : t.isDirectory place = true) (plain : Path.Plain file) :
    t.locate (directory.join [file])
      = if 255 < file.utf8ByteSize then .error .tooLong else .ok (place ++ [file]) := by
  unfold locate at located
  split at located
  · cases located
  · rename_i valid
    split at located
    · cases located
    · rename_i some_
      rw [Bool.not_eq_true] at some_
      obtain ⟨front, joined, same⟩ := Path.join_eq some_ file
      have within : ∀ part ∈ front, part ∈ directory := by
        rcases same with rfl | rfl
        · exact fun part member => member
        · exact fun part member => List.mem_append_left _ member
      have valid' : (front ++ [file]).text.toList.contains '\x00' = false := by
        rw [Bool.eq_false_iff]
        intro nul
        obtain ⟨part, member, nul⟩ := (Path.mem_text (by decide)).1 (List.contains_iff_mem.1 nul)
        rcases List.mem_append.1 member with member | member
        · have nul := (Path.mem_text (by decide)).2 ⟨part, within part member, nul⟩
          exact valid (List.contains_iff_mem.2 nul)
        · exact plain.valid (List.mem_singleton.1 member ▸ nul)
      rw [locate, joined, valid', if_neg Bool.false_ne_true,
        Path.isBlank_of_mem plain (List.mem_append_right _ (List.mem_singleton.2 rfl)),
        if_neg Bool.false_ne_true, Path.isAbsolute_append some_ same, follow_append,
        follow_front same located]
      simp [Except.bind, follow, isDirectory, plain.some_, plain.stays, plain.descends]

theorem list_eq_ok_iff {names : List String} :
    t.list directory = .ok names ↔ ∃ place, t.locate directory = .ok place ∧
      t.isDirectory place = true ∧
      names = (t.files.map (·.1) ++ t.directories).filterMap (childName? place) := by
  unfold list
  cases t.locate directory with
  | error f =>
    constructor
    · intro listed
      cases listed
    · rintro ⟨place, located, _⟩
      cases located
  | ok place =>
    dsimp only [bind, Except.bind]
    constructor
    · intro listed
      split at listed
      · rename_i isDirectory
        cases listed
        exact ⟨place, rfl, isDirectory, rfl⟩
      · cases listed
    · rintro ⟨_, located, isDirectory, rfl⟩
      cases located
      rw [if_pos isDirectory]

theorem childName?_eq_some_iff {below : List String} :
    childName? place below = some file ↔ below = place ++ [file] := by
  unfold childName?
  constructor
  · intro hangs
    split at hangs
    · rename_i h
      obtain ⟨front, rfl⟩ := List.getLast?_eq_some_iff.1 hangs
      rw [← h.1, List.dropLast_concat]
    · cases hangs
  · rintro rfl
    rw [if_pos ⟨List.dropLast_concat, List.concat_ne_nil _ _⟩, List.getLast?_concat]

/-- Directories that exist are not created again. -/
theorem createFrom_eq {root : List String} {parts : List String}
    (found : t.follow root parts = .ok place) (isDirectory : t.isDirectory place = true) :
    t.createFrom root parts = .ok t := by
  induction parts generalizing root with
  | nil => rfl
  | cons part parts ih =>
    have entered : ∀ {q : List String}, t.follow q parts = .ok place → t.isDirectory q = true := by
      intro q found
      cases parts with
      | nil =>
        cases found
        exact isDirectory
      | cons part parts =>
        rw [follow] at found
        split at found
        · cases found
        · rename_i open_
          simpa using open_
    rw [follow] at found
    rw [createFrom]
    split at found
    · cases found
    · split at found
      · rename_i stays
        rw [if_pos stays]
        exact ih found
      · rename_i moves
        rw [if_neg moves]
        split at found
        · rename_i up
          rw [if_pos up]
          split at found
          · cases found
          · rename_i inside
            rw [if_neg inside]
            exact ih found
        · rename_i down
          rw [if_neg down]
          split at found
          · cases found
          · rename_i short
            rw [if_neg short]
            dsimp only
            rw [if_pos (entered found)]
            exact ih found

theorem createDirectories_eq (located : t.locate directory = .ok place)
    (isDirectory : t.isDirectory place = true) : t.createDirectories directory = .ok t := by
  unfold locate at located
  unfold createDirectories
  split at located
  · cases located
  · rename_i valid
    split at located
    · cases located
    · rw [if_neg valid]
      exact createFrom_eq located isDirectory

theorem put_of_not_mem {content : String} (new : place ∉ t.files.map (·.1)) :
    t.put place content = { t with files := (place, content) :: t.files } := by
  have same : t.files.filter (·.1 != place) = t.files := by
    refine List.filter_eq_self.2 fun entry member => ?_
    rw [bne_iff_ne]
    rintro rfl
    exact new (List.mem_map_of_mem member)
  rw [put, same]

/-- Writing to a directory puts a file there, unless its name is too long. -/
theorem writeText_join {content : String} (located : t.locate directory = .ok place)
    (isDirectory : t.isDirectory place = true) (plain : Path.Plain file)
    (free : t.isDirectory (place ++ [file]) = false) :
    t.writeText (directory.join [file]) content
      = if 255 < file.utf8ByteSize then .error .tooLong
        else .ok (t.put (place ++ [file]) content) := by
  rw [writeText, locate_join located isDirectory plain]
  split
  · rfl
  · dsimp only [bind, Except.bind]
    rw [free, if_neg Bool.false_ne_true, Path.getLast?_join, if_neg (by simpa using plain.some_),
      List.dropLast_concat, isDirectory, Bool.not_true, if_neg Bool.false_ne_true]

theorem run_writeText (t : FileTree) (p : Path) (content : String) :
    (FileSystem.writeText p content : StateM FileTree (Except FileFault Unit)).run t
      = match t.writeText p content with
        | .ok t' => (.ok (), t')
        | .error f => (.error f, t) := rfl

end FileTree

/-! ### Writing types -/

namespace Catalog

/-- The name of the file in which a type is written. -/
def fileName (name : String) : String := name ++ "." ++ descriptorExtension

/-- A name with which a file in a directory can be named. -/
def NamesFile (name : String) : Prop :=
  name ≠ "" ∧ '/' ∉ name.toList ∧ '\x00' ∉ name.toList

variable {name : String}

theorem toList_fileName (name : String) :
    (fileName name).toList = name.toList ++ '.' :: descriptorExtension.toList := by
  rw [fileName, String.toList_append, String.toList_append, List.append_assoc]
  rfl

theorem fileName_inj {name' : String} : fileName name = fileName name' ↔ name = name' := by
  refine ⟨fun same => ?_, fun same => congrArg fileName same⟩
  have same := congrArg String.toList same
  rw [toList_fileName, toList_fileName] at same
  exact String.toList_inj.1 (List.append_cancel_right same)

theorem plain_fileName (names : NamesFile name) : Path.Plain (fileName name) := by
  have long : ∀ other : String, other.toList.length < 5 → fileName name ≠ other := by
    rintro _ short rfl
    rw [toList_fileName, List.length_append] at short
    exact absurd short (by simp [descriptorExtension])
  refine ⟨long "" (by decide), long "." (by decide), long ".." (by decide), ?_, ?_⟩
  · rw [toList_fileName, List.mem_append, not_or]
    exact ⟨names.2.1, by decide⟩
  · rw [toList_fileName, List.mem_append, not_or]
    exact ⟨names.2.2, by decide⟩

theorem descriptorPath_eq (names : NamesFile name) (directory : Path) :
    descriptorPath directory name = directory.join [fileName name] := by
  have whole := Source.splitAt_eq_singleton (plain_fileName names).slash
  have single : Path.ofText (fileName name) = [fileName name] := by
    rw [Path.ofText, whole, List.map_singleton, String.ofList_toList]
  exact congrArg directory.join single

theorem extension?_fileName (some_ : name ≠ "") :
    Path.extension? (fileName name) = some descriptorExtension := by
  have last : Text.splitAt '.' descriptorExtension.toList = [descriptorExtension.toList] := by
    decide
  have front : name.toList ≠ [] := fun empty => some_ (String.toList_inj.1 empty)
  have parts : 0 < (Text.splitAt '.' name.toList).length :=
    List.length_pos_iff.2 (Source.splitAt_ne_nil name.toList)
  have several : (Text.splitAt '.' name.toList ++ [descriptorExtension.toList]).length ≠ 1 := by
    rw [List.length_append, List.length_singleton]
    omega
  have before : (name.toList ++ '.' :: descriptorExtension.toList).take
      ((name.toList ++ '.' :: descriptorExtension.toList).length
        - descriptorExtension.toList.length - 1) = name.toList := by
    refine List.take_left' ?_
    rw [List.length_append, List.length_cons]
    omega
  rw [Path.extension?, Text.splitLastDot, toList_fileName, Source.splitAt_append, last]
  rw [if_neg several, List.getLast?_concat, Option.getD_some, before]
  obtain ⟨c, cs, letters⟩ := List.exists_cons_of_ne_nil front
  rw [letters]
  exact congrArg some String.ofList_toList

/-- The directory is there, and each of the types can have a new file in it. -/
structure Clear (t : FileTree) (directory : Path) (place : List String) (ds : List Descriptor) :
    Prop where
  located : t.locate directory = .ok place
  isDirectory : t.isDirectory place = true
  names : ∀ d ∈ ds, NamesFile d.name
  distinct : (ds.map (·.name)).Nodup
  new : ∀ d ∈ ds, place ++ [fileName d.name] ∉ t.files.map (·.1)
  free : ∀ d ∈ ds, t.isDirectory (place ++ [fileName d.name]) = false

/-- The file of a type in a directory. -/
def file (place : List String) (d : Descriptor) : List String × String :=
  (place ++ [fileName d.name], d.toText)

/-- The tree with a file for each type, the last one first. -/
def shelve (t : FileTree) (place : List String) (ds : List Descriptor) : FileTree :=
  { t with files := (ds.map (file place)).reverse ++ t.files }

theorem shelve_directories (t : FileTree) (place : List String) (ds : List Descriptor) :
    (shelve t place ds).directories = t.directories := rfl

theorem map_file (place : List String) (ds : List Descriptor) :
    (ds.map (file place)).map (·.1)
      = (ds.map (·.name)).map fun name => place ++ [fileName name] := by
  rw [List.map_map, List.map_map]
  rfl

/-- The name of the type's file is not too long for a file system. -/
def Short (d : Descriptor) : Prop := (fileName d.name).utf8ByteSize ≤ 255

theorem short_iff {d : Descriptor} : Short d ↔ d.name.utf8ByteSize ≤ 250 := by
  have size : (fileName d.name).utf8ByteSize = d.name.utf8ByteSize + 5 := by
    rw [fileName, String.utf8ByteSize_append, String.utf8ByteSize_append]
    rfl
  rw [Short, size]
  omega

variable {t t' : FileTree} {directory : Path} {place : List String} {d : Descriptor}
  {ds : List Descriptor}

theorem Clear.put_eq (clear : Clear t directory place (d :: ds)) :
    t.put (place ++ [fileName d.name]) d.toText = shelve t place [d] :=
  FileTree.put_of_not_mem (clear.new d List.mem_cons_self)

theorem Clear.shelve (clear : Clear t directory place (d :: ds)) :
    Clear (shelve t place [d]) directory place ds where
  located := FileTree.locate_of_directories (shelve_directories t place _) clear.located
  isDirectory := clear.isDirectory
  names e member := clear.names e (List.mem_cons_of_mem d member)
  distinct := (List.nodup_cons.1 clear.distinct).2
  new e member := by
    have other : fileName e.name ≠ fileName d.name := by
      intro same
      have once := (List.nodup_cons.1 clear.distinct).1
      exact once (List.mem_map.2 ⟨e, member, fileName_inj.1 same⟩)
    intro taken
    rcases List.mem_cons.1 taken with same | taken
    · have same : place ++ [fileName e.name] = place ++ [fileName d.name] := same
      exact other (List.singleton_inj.1 (List.append_cancel_left same))
    · exact clear.new e (List.mem_cons_of_mem d member) taken
  free e member := clear.free e (List.mem_cons_of_mem d member)

theorem Clear.writeText_eq (clear : Clear t directory place (d :: ds)) :
    t.writeText (descriptorPath directory d.name) d.toText
      = if 255 < (fileName d.name).utf8ByteSize then .error .tooLong
        else .ok (Catalog.shelve t place [d]) := by
  have names := clear.names d List.mem_cons_self
  rw [descriptorPath_eq names, FileTree.writeText_join clear.located clear.isDirectory
    (plain_fileName names) (clear.free d List.mem_cons_self), clear.put_eq]

/-- Writing types ends well exactly when no name is too long, and leaves their files. -/
theorem Clear.writeTypes_iff (clear : Clear t directory place ds) {u : Unit} :
    (writeTypes directory ds : ExceptT FileFault (StateM FileTree) Unit).run.run t = (.ok u, t') ↔
      (∀ d ∈ ds, Short d) ∧ t' = Catalog.shelve t place ds := by
  induction ds generalizing t with
  | nil =>
    constructor
    · intro ran
      cases ran
      exact ⟨fun d member => absurd member List.not_mem_nil, rfl⟩
    · rintro ⟨_, rfl⟩
      rfl
  | cons d ds ih =>
    have written : (FileSystem.writeText (descriptorPath directory d.name) d.toText :
        StateM FileTree _).run t
        = if 255 < (fileName d.name).utf8ByteSize then (.error .tooLong, t)
          else (.ok (), Catalog.shelve t place [d]) := by
      rw [FileTree.run_writeText, clear.writeText_eq]
      by_cases long : 255 < (fileName d.name).utf8ByteSize
      · rw [if_pos long, if_pos long]
      · rw [if_neg long, if_neg long]
    have shelved : Catalog.shelve (Catalog.shelve t place [d]) place ds
        = Catalog.shelve t place (d :: ds) := by
      simp [Catalog.shelve]
    rw [writeTypes, ExceptT.run_bind, ExceptT.run_mk, StateT.run_bind, written,
      List.forall_mem_cons]
    split
    · rename_i long
      constructor
      · intro ran
        cases ran
      · rintro ⟨⟨short, _⟩, _⟩
        exact absurd short (Nat.not_le.2 long)
    · rename_i short
      refine (ih clear.shelve).trans ?_
      rw [shelved]
      have short : Short d := Nat.not_lt.1 short
      simp only [short, true_and]

/-- A directory without descriptors has room for types of different names. -/
theorem clear_of_listed {names : List String} (listed : t.list directory = .ok names)
    (bare : descriptorFiles names = []) (named : ∀ d ∈ ds, NamesFile d.name)
    (distinct : (ds.map (·.name)).Nodup) : ∃ place, Clear t directory place ds := by
  obtain ⟨place, located, isDirectory, rfl⟩ := FileTree.list_eq_ok_iff.1 listed
  have absent : ∀ d ∈ ds, place ++ [fileName d.name] ∉ t.files.map (·.1) ++ t.directories := by
    intro d member taken
    have listed : fileName d.name ∈ (t.files.map (·.1) ++ t.directories).filterMap
        (FileTree.childName? place) :=
      List.mem_filterMap.2 ⟨_, taken, FileTree.childName?_eq_some_iff.2 rfl⟩
    have read := mem_descriptorFiles.2 ⟨listed, extension?_fileName (named d member).1⟩
    rw [bare] at read
    exact List.not_mem_nil read
  refine ⟨place, located, isDirectory, named, distinct, ?_, ?_⟩
  · exact fun d member taken => absent d member (List.mem_append_left _ taken)
  · intro d member
    have root : place ++ [fileName d.name] ≠ FileTree.absoluteRoot := by
      intro same
      have last := congrArg List.getLast? same
      rw [List.getLast?_concat] at last
      have slash : fileName d.name = "/" := Option.some.inj last
      exact (plain_fileName (named d member)).slash (slash ▸ by decide)
    have missing : place ++ [fileName d.name] ∉ t.directories := fun taken =>
      absent d member (List.mem_append_right _ taken)
    simp [FileTree.isDirectory, root, missing]

/-- Writing all types to a directory of a tree. -/
def writeInto (directory : Path) (types : TypeTable) (t : FileTree) :
    Except FileFault Nat × FileTree :=
  (writeDirectory directory types : ExceptT FileFault (StateM FileTree) Nat).run.run t

/-- Writing all types ends well exactly when no name is too long. -/
theorem Clear.writeInto_iff {types : TypeTable} (clear : Clear t directory place types.types)
    {n : Nat} :
    writeInto directory types t = (.ok n, t') ↔
      (∀ d ∈ types.types, Short d) ∧ n = types.size ∧
        t' = Catalog.shelve t place types.types := by
  have created : (FileSystem.createDirectories directory : StateM FileTree _).run t
      = (.ok (), t) := by
    change (match t.createDirectories directory with
      | .ok t => ((.ok (), t) : Except FileFault Unit × FileTree)
      | .error f => (.error f, t)) = _
    rw [FileTree.createDirectories_eq clear.located clear.isDirectory]
  rw [writeInto, writeDirectory, ExceptT.run_bind, ExceptT.run_mk, StateT.run_bind, created]
  change ((do
    writeTypes directory types.types
    return types.size : ExceptT FileFault (StateM FileTree) Nat).run.run t) = _ ↔ _
  have wrote : ∀ u t', (writeTypes directory types.types :
      ExceptT FileFault (StateM FileTree) Unit).run.run t = (.ok u, t') ↔
        (∀ d ∈ types.types, Short d) ∧ t' = Catalog.shelve t place types.types :=
    fun u t' => clear.writeTypes_iff
  rw [ExceptT.run_bind, StateT.run_bind]
  generalize (writeTypes directory types.types : ExceptT FileFault (StateM FileTree) Unit).run.run t
    = end_ at wrote ⊢
  obtain ⟨f | u, t₁⟩ := end_
  · constructor
    · intro ran
      cases ran
    · rintro ⟨short, _, rfl⟩
      cases (wrote () _).2 ⟨short, rfl⟩
  · obtain ⟨short, rfl⟩ := (wrote u t₁).1 rfl
    constructor
    · intro ran
      cases ran
      exact ⟨short, rfl, rfl⟩
    · rintro ⟨_, rfl, rfl⟩
      rfl

/-- What is listed afterwards. -/
theorem Clear.list_shelve (clear : Clear t directory place ds) {names : List String}
    (listed : t.list directory = .ok names) :
    (Catalog.shelve t place ds).list directory
      = .ok ((ds.map fun d => fileName d.name).reverse ++ names) := by
  obtain ⟨place', located, _, rfl⟩ := FileTree.list_eq_ok_iff.1 listed
  have same : place' = place := Except.ok.inj (located.symm.trans clear.located)
  subst same
  refine FileTree.list_eq_ok_iff.2
    ⟨place', FileTree.locate_of_directories (shelve_directories t place' ds) located,
      clear.isDirectory, ?_⟩
  have hangs : FileTree.childName? place' ∘ (fun name => place' ++ [fileName name])
      = fun name => some (fileName name) :=
    funext fun name => FileTree.childName?_eq_some_iff.2 rfl
  have own : ((ds.map (file place')).map (·.1)).filterMap (FileTree.childName? place')
      = ds.map fun d => fileName d.name := by
    rw [map_file, List.filterMap_map, hangs, List.filterMap_eq_map', List.map_map]
    rfl
  simp only [Catalog.shelve, List.map_append, List.filterMap_append, List.map_reverse,
    List.filterMap_reverse, own, List.append_assoc]

/-- A type that has been written is read back. -/
theorem Clear.descriptor?_shelve (clear : Clear t directory place ds) (member : d ∈ ds)
    (short : Short d) (survives : Descriptor.ofText? d.toText = some d) :
    (Catalog.shelve t place ds).descriptor? directory (fileName d.name) = some d := by
  have located := FileTree.locate_join
    (FileTree.locate_of_directories (shelve_directories t place ds) clear.located)
    clear.isDirectory (plain_fileName (clear.names d member))
  rw [if_neg (Nat.not_lt.2 short)] at located
  have once : (((ds.map (file place)).reverse).map (·.1)).Nodup := by
    rw [List.map_reverse, List.nodup_reverse, map_file]
    refine clear.distinct.map fun name name' same => fileName_inj.1 ?_
    exact List.singleton_inj.1 (List.append_cancel_left same)
  have found := Check.find?_of_nodup once (List.mem_reverse.2 (List.mem_map_of_mem member))
  have content : (Catalog.shelve t place ds).file? (place ++ [fileName d.name])
      = some d.toText := by
    rw [FileTree.file?, Catalog.shelve, List.find?_append]
    exact congrArg (Option.map (·.2)) (congrArg (Option.or · _) found)
  rw [FileTree.descriptor?, FileTree.readText_of_file? located content]
  exact survives

/-- Of the directory only the files of the types are read. -/
theorem Clear.perm_shelf (clear : Clear t directory place ds) {names : List String}
    (listed : t.list directory = .ok names) (bare : descriptorFiles names = []) :
    ((Catalog.shelve t place ds).shelf directory).Perm (ds.map fun d => fileName d.name) := by
  have none_ : names.filter (fun n => Path.extension? n == some descriptorExtension) = [] := by
    refine List.eq_nil_iff_forall_not_mem.2 fun file member => ?_
    have read : file ∈ descriptorFiles names := List.mem_mergeSort.2 member
    rw [bare] at read
    exact List.not_mem_nil read
  have all : (ds.map fun d => fileName d.name).reverse.filter
      (fun n => Path.extension? n == some descriptorExtension)
        = (ds.map fun d => fileName d.name).reverse := by
    refine List.filter_eq_self.2 fun file member => ?_
    obtain ⟨d, there, rfl⟩ := List.mem_map.1 (List.mem_reverse.1 member)
    exact beq_of_eq (extension?_fileName (clear.names d there).1)
  rw [FileTree.shelf, clear.list_shelve listed, descriptorFiles]
  refine (List.mergeSort_perm _ _).trans ?_
  change ((_ ++ names).filter _).Perm _
  rw [List.filter_append, all, none_, List.append_nil]
  exact List.reverse_perm _

/-- What has been written can be read, each type once. -/
theorem Clear.readable_shelve (clear : Clear t directory place ds) {names : List String}
    (listed : t.list directory = .ok names) (bare : descriptorFiles names = [])
    (short : ∀ d ∈ ds, Short d) (survive : ∀ d ∈ ds, Descriptor.ofText? d.toText = some d) :
    (Catalog.shelve t place ds).Readable directory ∧
      ((Catalog.shelve t place ds).descriptors directory).Perm ds := by
  have perm := clear.perm_shelf listed bare
  have holds : ∀ d ∈ ds,
      (Catalog.shelve t place ds).descriptor? directory (fileName d.name) = some d :=
    fun d member => clear.descriptor?_shelve member (short d member) (survive d member)
  refine ⟨⟨⟨_, clear.list_shelve listed⟩, fun file member => ?_⟩, ?_⟩
  · obtain ⟨d, there, rfl⟩ := List.mem_map.1 (perm.mem_iff.1 member)
    exact ⟨d, holds d there⟩
  · have all : (ds.map fun d => fileName d.name).filterMap
        ((Catalog.shelve t place ds).descriptor? directory) = ds := by
      rw [List.filterMap_map]
      exact (List.filterMap_congr holds).trans List.filterMap_some
    exact (perm.filterMap _).trans (.of_eq all)

theorem find?_eq_some_iff (distinct : (ds.map (·.name)).Nodup) :
    ds.find? (·.name == name) = some d ↔ d ∈ ds ∧ d.name = name := by
  constructor
  · intro found
    exact ⟨List.mem_of_find?_eq_some found, by simpa using List.find?_some found⟩
  · rintro ⟨member, rfl⟩
    exact Check.find?_of_nodup distinct member

/-- It does not matter in which order types of different names are met. -/
theorem find?_eq_of_perm {ds' : List Descriptor} (perm : ds.Perm ds')
    (distinct : (ds'.map (·.name)).Nodup) (name : String) :
    ds.find? (·.name == name) = ds'.find? (·.name == name) := by
  have distinct' : (ds.map (·.name)).Nodup := (perm.map _).nodup_iff.2 distinct
  refine Option.ext fun d => ?_
  rw [find?_eq_some_iff distinct', find?_eq_some_iff distinct, perm.mem_iff]

end Catalog

/-! ### What was written is loaded -/

namespace Registry

variable {files : FileTree} {directory : Path}

/-- Loading from a directory of types with different names. -/
theorem readFrom_singleton {ds : List Descriptor} (readable : files.Readable directory)
    (perm : (files.descriptors directory).Perm ds) (distinct : (ds.map (·.name)).Nodup)
    (r : Registry) :
    r.readFrom [directory] files = ((.ok (ds.filter fun d => !r.table.contains d.name).length,
        r.loaded files [directory]), files) ∧
      (∀ name, (r.loaded files [directory]).table.lookup name
        = (r.table.lookup name).or (ds.find? (·.name == name))) ∧
      (r.loaded files [directory]).readFrom [directory] files
        = ((.ok 0, r.loaded files [directory]), files) := by
  have single : [directory].flatMap files.descriptors = files.descriptors directory := by
    rw [List.flatMap_singleton]
  have distinct' : ((files.descriptors directory).map (·.name)).Nodup :=
    (perm.map _).nodup_iff.2 distinct
  have readable' : ∀ e ∈ [directory], files.Readable e := by
    intro e member
    rwa [List.mem_singleton.1 member]
  obtain ⟨n, counted, ran⟩ := readFrom_eq readable' r
  have count : n = (ds.filter fun d => !r.table.contains d.name).length := by
    have size := TypeTable.size_foldl distinct' r.table
    rw [(perm.filter _).length_eq] at size
    rw [loaded, single] at counted
    exact Nat.add_left_cancel (counted.symm.trans size)
  refine ⟨count ▸ ran, fun name => ?_, readFrom_loaded readable' r⟩
  rw [loaded, single, TypeTable.lookup_foldl, Catalog.find?_eq_of_perm perm distinct]

end Registry

/-- Types that are written to a directory without descriptors are what is loaded from it. As many
are counted as are not registered, what is registered stays with its natives, and every other name
gets the type that was written; nothing is left to load a second time. From several directories
whose descriptors are all valid, a name that is not registered gets the type of the first file that
defines it. -/
theorem loaded_from_written (types : TypeTable) (distinct : (types.types.map (·.name)).Nodup)
    (named : ∀ d ∈ types.types, d.name ≠ "" ∧ '/' ∉ d.name.toList ∧ '\x00' ∉ d.name.toList)
    (survive : ∀ d ∈ types.types, Descriptor.ofText? d.toText = some d)
    {files : FileTree} {directory : Path} {names : List String}
    (listed : files.list directory = .ok names) (bare : Catalog.descriptorFiles names = [])
    (r : Registry) :
    ((∃ n files', Catalog.writeInto directory types files = (.ok n, files')) ↔
      ∀ d ∈ types.types, d.name.utf8ByteSize ≤ 250) ∧
    (∀ n files', Catalog.writeInto directory types files = (.ok n, files') →
      n = types.size ∧ ∃ r',
        r.readFrom [directory] files'
          = ((.ok (types.types.filter fun d => !r.table.contains d.name).length, r'), files') ∧
        r'.hosts = r.hosts ∧
        (∀ name, r'.table.lookup name = (r.table.lookup name).or (types.lookup name)) ∧
        r'.readFrom [directory] files' = ((.ok 0, r'), files')) ∧
    ∀ (files : FileTree) (directories : List Path), (∀ e ∈ directories, files.Readable e) →
      ∃ n r', r.readFrom directories files = ((.ok n, r'), files) ∧
        r'.table.size = r.table.size + n ∧ r'.hosts = r.hosts ∧
        (∀ name d, r'.table.lookup name = some d ↔
          r.table.lookup name = some d ∨
            r.table.lookup name = none ∧ files.FirstDefines directories name d) ∧
        r'.readFrom directories files = ((.ok 0, r'), files) := by
  obtain ⟨place, clear⟩ := Catalog.clear_of_listed listed bare named distinct
  refine ⟨?_, ?_, ?_⟩
  · constructor
    · rintro ⟨n, files', wrote⟩ d member
      exact Catalog.short_iff.1 ((clear.writeInto_iff.1 wrote).1 d member)
    · intro short
      exact ⟨_, _, clear.writeInto_iff.2
        ⟨fun d member => Catalog.short_iff.2 (short d member), rfl, rfl⟩⟩
  · intro n files' wrote
    obtain ⟨short, rfl, rfl⟩ := clear.writeInto_iff.1 wrote
    obtain ⟨readable, perm⟩ := clear.readable_shelve listed bare short survive
    obtain ⟨ran, looked, again⟩ := Registry.readFrom_singleton readable perm distinct r
    exact ⟨rfl, _, ran, rfl, looked, again⟩
  · intro files directories readable
    obtain ⟨n, counted, ran⟩ := Registry.readFrom_eq readable r
    refine ⟨n, _, ran, counted, rfl, fun name d => ?_, Registry.readFrom_loaded readable r⟩
    rw [Registry.loaded, TypeTable.lookup_foldl, Option.or_eq_some_iff,
      FileTree.find?_flatMap_descriptors_eq_some_iff]

namespace Sample

def outline : Descriptor := { name := "geo.Outline", kind := .interface }

def patch : Descriptor where
  name := "geo.Patch"
  kind := .concreteClass
  interfaces := ["geo.Outline"]

/-- A registry in which one of the names stands for another type. -/
def atlas : Registry where
  table := ⟨[{ outline with interfaces := ["geo.Shape"] }]⟩
  hosts := [⟨"geo.Outline", []⟩]

/-- A tree with one directory, and no file in it. -/
def empty : FileTree := { directories := [["shelf"]] }

/-- Two types are written and one of them is loaded, since the other is registered. -/
theorem patch_loaded : ∃ files' r',
    Catalog.writeInto ["shelf"] ⟨[outline, patch]⟩ empty = (.ok 2, files') ∧
      atlas.readFrom [["shelf"]] files' = ((.ok 1, r'), files') ∧
      r'.hosts = atlas.hosts ∧
      r'.table.lookup "geo.Outline" = atlas.table.lookup "geo.Outline" ∧
      r'.table.lookup "geo.Patch" = some patch ∧
      r'.readFrom [["shelf"]] files' = ((.ok 0, r'), files') := by
  have survive : ∀ d ∈ [outline, patch], Descriptor.ofText? d.toText = some d := by decide +kernel
  have listed : empty.list ["shelf"] = .ok [] := by decide +kernel
  obtain ⟨wrote, loads, _⟩ := loaded_from_written ⟨[outline, patch]⟩ (by decide)
    (by decide) survive listed (by decide +kernel) atlas
  obtain ⟨n, files', wrote⟩ := wrote.2 (by decide)
  obtain ⟨rfl, r', ran, hosts, looked, again⟩ := loads n files' wrote
  have outlineLooked := looked "geo.Outline"
  have patchLooked := looked "geo.Patch"
  exact ⟨files', r', wrote, ran, hosts, outlineLooked, patchLooked, again⟩

end Sample

end Classwright
