import Classwright.Proofs.Caching
import Classwright.Proofs.Initializing

/-!
# What a failed resolution leaves behind

Resolving a contract declares the contract, and the types that the hooks name for it, before there
is anything to be compiled. They stay declared when the resolution fails, and nothing else does:
from then on every resolution ends as it would if somebody had declared these types.
-/

namespace Classwright

open Generation

/-! ### Loading as a function of files and types -/

section

variable (code : Code.Class) (id depth : Nat) (table : TypeTable)

/-- How linking ends is decided by the code and the declared types. -/
theorem link_ends : ∃ (result : Except Failure Unit) (added : Array (List Value)),
    ∀ s : Store, s.tables id = table → link code id depth s
      = ((result.mapError .failed).map fun _ => ⟨s.statics.size, code, id, depth⟩,
        { s with statics := s.statics ++ added }) := by
  cases unknown : (code.superclass :: code.interfaces).find? fun t => !table.resolves t with
  | some t =>
    refine ⟨.error (.load code.name (.unresolved t)), #[], ?_⟩
    rintro s rfl
    rw [World.link_unfold, unknown, Array.append_empty]
    rfl
  | none =>
    obtain ⟨result, values, _, linked⟩ := link_secluded code
    refine ⟨result, #[values], ?_⟩
    rintro s rfl
    rw [linked s id depth fun t member => by simpa using List.find?_eq_none.1 unknown t member,
      Array.push_eq_append]

/-- So is how a stored class is loaded. -/
theorem unitLoader_ends (request : LoadRequest) :
    ∃ (result : Except Failure Code.Class) (added : Array (List Value)),
      ∀ (n : Nat) (s : Store), s.tables request.registry = table → unitLoader depth n request s
        = ((result.mapError .failed).map fun code =>
            ⟨s.statics.size, code, request.registry, depth⟩,
          { s with statics := s.statics ++ added }) := by
  unfold unitLoader
  cases readUnit request.files request.directory request.className with
  | error f =>
    refine ⟨.error (.load request.className f), #[], fun n s _ => ?_⟩
    rw [Array.append_empty]
    rfl
  | ok code =>
    obtain ⟨result, added, linked⟩ := link_ends code request.registry depth table
    refine ⟨result.map fun _ => code, added, fun n s same => ?_⟩
    refine (linked s same).trans ?_
    cases result <;> rfl

end

/-! ### Generators that are alike -/

/-- The compiler and the loader are those of this library. -/
structure Generator.Scripted (g : Generator) : Prop where
  compiler : g.compiler = scriptCompiler
  loader : ∃ depth, g.loader = unitLoader depth

/-- The file system refuses the same each time. -/
structure Disk.Steady (d : Disk) : Prop where
  making : ∀ n m, d.making n = d.making m
  writing : ∀ n m, d.writing n = d.writing m

/-- A scripted generator that works in a steady file system. -/
structure Generator.Steady (g : Generator) : Prop extends g.Scripted where
  disk : g.disk.Steady

/-- The generator with other counts and another cache. -/
def Generator.resume (g : Generator) (workplaces compilations loads : Nat) (cache : Cache) :
    Generator :=
  { g with workplaces, compilations, loads, cache }

/-- The same generator but for what it has counted and for cells without a class, with the same
types declared in its registry. -/
structure Alike (p q : Generator × Store) : Prop where
  steady : p.1.Steady
  setup : ∃ workplaces compilations loads cache,
    q.1 = p.1.resume workplaces compilations loads cache
  cached? : ∀ contract, q.1.cached? contract = p.1.cached? contract
  registered : q.2.registries.size = p.2.registries.size
  table : (q.2.registry p.1.registry).table = (p.2.registry p.1.registry).table

namespace Alike

variable {p q r : Generator × Store}

theorem refl (steady : p.1.Steady) : Alike p p :=
  ⟨steady, ⟨_, _, _, _, rfl⟩, fun _ => rfl, rfl, rfl⟩

theorem symm (h : Alike p q) : Alike q p := by
  obtain ⟨g, s⟩ := p
  obtain ⟨g', s'⟩ := q
  obtain ⟨⟨⟨compiler, loader⟩, disk⟩, ⟨_, _, _, _, rfl⟩, cached, registered, table⟩ := h
  exact ⟨⟨⟨compiler, loader⟩, disk⟩,
    ⟨g.workplaces, g.compilations, g.loads, g.cache, rfl⟩, fun contract => (cached contract).symm,
    registered.symm, table.symm⟩

theorem trans (h : Alike p q) (h' : Alike q r) : Alike p r := by
  obtain ⟨g, s⟩ := p
  obtain ⟨g', s'⟩ := q
  obtain ⟨steady, ⟨_, _, _, _, rfl⟩, cached, registered, table⟩ := h
  obtain ⟨_, ⟨w', n', m', k', setup⟩, cached', registered', table'⟩ := h'
  exact ⟨steady, ⟨w', n', m', k', setup⟩,
    fun contract => (cached' contract).trans (cached contract),
    registered'.trans registered, table'.trans table⟩

end Alike

namespace Generation

variable {α β γ : Type}

/-- From states that are alike, the outcomes are the same as far as `f` tells, and the states are
alike afterwards. -/
def Agrees (body : Generation α) (f : α → β) : Prop :=
  ∀ p q, Alike p q → (body p).1.map f = (body q).1.map f ∧ Alike (body p).2 (body q).2

/-- Parts that go on alike behind equal outcomes. -/
theorem bind_alike {body : Generation α} {next : α → Generation β} {f : β → γ}
    (hnext : ∀ a, Agrees (next a) f) {p q : Generator × Store} (same : (body p).1 = (body q).1)
    (after : Alike (body p).2 (body q).2) :
    ((body >>= next) p).1.map f = ((body >>= next) q).1.map f ∧
      Alike ((body >>= next) p).2 ((body >>= next) q).2 := by
  cases ran : body p with
  | mk result p' =>
    cases ran' : body q with
    | mk result' q' =>
      rw [ran, ran'] at same after
      cases same
      cases result with
      | error stop =>
        rw [bind_error ran, bind_error ran']
        exact ⟨rfl, after⟩
      | ok a =>
        rw [bind_value ran, bind_value ran']
        exact hnext a _ _ after

theorem Agrees.bind {body : Generation α} {next : α → Generation β} {f : β → γ}
    (h : Agrees body id) (hnext : ∀ a, Agrees (next a) f) : Agrees (body >>= next) f := by
  intro p q alike
  obtain ⟨same, after⟩ := h p q alike
  refine bind_alike hnext ?_ after
  revert same
  cases (body p).1 <;> cases (body q).1 <;> exact id

end Generation

/-! ### Declaring types -/

/-- With types declared, as far as their names are free. -/
def declaring (types : List Descriptor) (p : Generator × Store) : Generator × Store :=
  (p.1, p.2.updateRegistry p.1.registry fun r => types.foldl Registry.defineIfAbsent r)

namespace Store

variable (s : Store) (id : Nat)

theorem registry_update (change : Registry → Registry) : (s.updateRegistry id change).registry id
    = if id < s.registries.size then change (s.registry id) else {} := by
  unfold registry updateRegistry
  dsimp only
  rw [Array.getElem?_modify, if_pos rfl]
  by_cases inside : id < s.registries.size
  · rw [if_pos inside, Array.getElem?_eq_getElem inside]
    rfl
  · rw [if_neg inside, Array.getElem?_eq_none (Nat.le_of_not_lt inside)]
    rfl

theorem update_congr {change change' : Registry → Registry}
    (same : change (s.registry id) = change' (s.registry id)) :
    s.updateRegistry id change = s.updateRegistry id change' := by
  have registries : s.registries.modify id change = s.registries.modify id change' := by
    refine Array.ext_getElem? fun n => ?_
    rw [Array.getElem?_modify, Array.getElem?_modify]
    split
    · rename_i at_
      subst at_
      rw [registry] at same
      cases found : s.registries[id]? with
      | none => rfl
      | some r =>
        rw [found] at same
        exact congrArg some same
    · rfl
  rw [updateRegistry, registries, updateRegistry]

theorem update_update (change change' : Registry → Registry) :
    (s.updateRegistry id change).updateRegistry id change'
      = s.updateRegistry id fun r => change' (change r) := by
  have registries : (s.registries.modify id change).modify id change'
      = s.registries.modify id fun r => change' (change r) := by
    refine Array.ext_getElem? fun n => ?_
    rw [Array.getElem?_modify, Array.getElem?_modify, Array.getElem?_modify]
    split
    · rw [Option.map_map]
      rfl
    · rfl
  rw [updateRegistry, updateRegistry, updateRegistry, registries]

end Store

theorem table_foldl (types : List Descriptor) (r : Registry) :
    (types.foldl Registry.defineIfAbsent r).table
      = types.foldl TypeTable.defineIfAbsent r.table := by
  induction types generalizing r with
  | nil => rfl
  | cons d types ih => exact ih (r.defineIfAbsent d)

theorem Alike.declaring {p q : Generator × Store} (h : Alike p q) (types : List Descriptor) :
    Alike (declaring types p) (declaring types q) := by
  obtain ⟨g, s⟩ := p
  obtain ⟨g', s'⟩ := q
  obtain ⟨steady, ⟨w, n, m, k, rfl⟩, cached, registered, table⟩ := h
  refine ⟨steady, ⟨w, n, m, k, rfl⟩, cached, ?_, ?_⟩
  · simpa [Classwright.declaring, Store.updateRegistry] using registered
  · dsimp only [Classwright.declaring, Generator.resume] at registered table ⊢
    rw [Store.registry_update, Store.registry_update, registered]
    split
    · rw [table_foldl, table_foldl, table]
    · rfl

theorem declaring_nil (p : Generator × Store) : declaring [] p = p := by
  obtain ⟨g, s⟩ := p
  have registries : s.registries.modify g.registry (fun r => r) = s.registries := by
    refine Array.ext_getElem? fun n => ?_
    rw [Array.getElem?_modify]
    split
    · rw [Option.map_id']
    · rfl
  change (g, ({ s with registries := s.registries.modify g.registry fun r => r } : Store)) = (g, s)
  rw [registries]

namespace TypeTable

theorem foldl_known {types : List Descriptor} {t : TypeTable}
    (known : ∀ d ∈ types, t.contains d.name = true) : types.foldl defineIfAbsent t = t := by
  induction types with
  | nil => rfl
  | cons d types ih =>
    rw [List.forall_mem_cons] at known
    rw [List.foldl_cons, defineIfAbsent, if_pos known.1]
    exact ih known.2

/-- Of several types of one name the first is looked up. -/
theorem lookup_foldl (types : List Descriptor) (t : TypeTable) (name : String) :
    (types.foldl defineIfAbsent t).lookup name
      = (t.lookup name).or (types.find? (·.name == name)) := by
  induction types generalizing t with
  | nil => rw [List.foldl_nil, List.find?_nil, Option.or_none]
  | cons d types ih =>
    rw [List.foldl_cons, ih, lookup_defineIfAbsent, Option.or_assoc, List.find?_cons]
    cases d.name == name <;> rfl

theorem extends_foldl (types : List Descriptor) (t : TypeTable) :
    t.Extends (types.foldl defineIfAbsent t) := by
  intro name d found
  rw [lookup_foldl, found]
  rfl

theorem contains_foldl (types : List Descriptor) (t : TypeTable) :
    ∀ d ∈ types, (types.foldl defineIfAbsent t).contains d.name = true := by
  intro d member
  rw [contains, lookup_foldl, Option.isSome_or, Bool.or_eq_true]
  exact .inr (List.find?_isSome.2 ⟨d, member, beq_self_eq_true d.name⟩)

end TypeTable

section

variable {p : Generator × Store} (steady : p.1.Steady)

include steady

/-- Types that are declared already change nothing. -/
theorem declaring_known {types : List Descriptor} (known : ∀ d ∈ types,
    (p.2.registry p.1.registry).table.contains d.name = true) : Alike p (declaring types p) := by
  refine ⟨steady, ⟨_, _, _, _, rfl⟩, fun _ => rfl,
    by simp [declaring, Store.updateRegistry], ?_⟩
  change ((p.2.updateRegistry p.1.registry _).registry p.1.registry).table = _
  rw [Store.registry_update]
  split
  · rw [table_foldl, TypeTable.foldl_known known]
  · rename_i outside
    rw [Store.registry, Array.getElem?_eq_none (Nat.le_of_not_lt outside)]
    rfl

/-- Nor do types that are declared twice. -/
theorem declaring_twice (types : List Descriptor) :
    Alike (declaring types (declaring types p)) (declaring types p) := by
  have registered : (declaring types (declaring types p)).2.registries.size
      = (declaring types p).2.registries.size := by
    simp [declaring, Store.updateRegistry]
  refine ⟨steady, ⟨_, _, _, _, rfl⟩, fun _ => rfl, registered.symm, ?_⟩
  change ((p.2.updateRegistry p.1.registry _).registry p.1.registry).table
    = (((p.2.updateRegistry p.1.registry _).updateRegistry p.1.registry _).registry
        p.1.registry).table
  rw [Store.update_update, Store.registry_update, Store.registry_update]
  split
  · rw [table_foldl, table_foldl, table_foldl,
      TypeTable.foldl_known (TypeTable.contains_foldl types _)]
  · rfl

end

/-! ### Preparation -/

section

variable {contract : Descriptor} {p q : Generator × Store} {f : Failure} {r : Registry}

theorem prepare_refused (refused : (p.2.registry p.1.registry).defineMatching contract = .error f) :
    prepare contract p = (.error (.failed f), p) := by
  obtain ⟨g, s⟩ := p
  rw [prepare, get_bind]
  dsimp only at refused ⊢
  rw [refused]
  rfl

end

namespace Registry

variable {r r' r₁ : Registry} {d : Descriptor}

theorem defineMatching_ok_eq (made : r.defineMatching d = .ok r') : r' = r.defineIfAbsent d := by
  unfold defineMatching at made
  split at made
  · cases made
    rfl
  · rename_i known found
    split at made
    · cases made
      have declared : r.table.contains d.name = true := by rw [TypeTable.contains, found]; rfl
      rw [defineIfAbsent, TypeTable.defineIfAbsent, if_pos declared]
    · cases made

theorem defineMatching_known (known : r.table.lookup d.name = some d) :
    r.defineMatching d = .ok r := by
  rw [defineMatching, known]
  exact if_pos rfl

/-- Which declaration is refused is decided by the declared types. -/
theorem defineMatching_error_iff {f : Failure} (same : r₁.table = r.table) :
    r₁.defineMatching d = .error f ↔ r.defineMatching d = .error f := by
  unfold defineMatching
  rw [same]
  split
  · simp
  · split <;> simp

end Registry

/-- The contract, and what the hooks name for it. -/
def Generator.needs (g : Generator) (contract : Descriptor) : List Descriptor :=
  match g.source contract with
  | .error _ => [contract]
  | .ok source => contract :: source.nominated

/-- Preparation declares these types, unless the contract is refused. -/
theorem prepare_ok {contract : Descriptor} {p : Generator × Store} {r : Registry}
    (made : (p.2.registry p.1.registry).defineMatching contract = .ok r) :
    prepare contract p = ((p.1.source contract).mapError fun e => .failed (.synthesis e),
      declaring (p.1.needs contract) p) := by
  obtain ⟨g, s⟩ := p
  dsimp only at made
  rw [prepare, get_bind, Generator.needs]
  dsimp only
  rw [made]
  dsimp only
  have declared : s.updateRegistry g.registry (fun _ => r)
      = s.updateRegistry g.registry fun r => r.defineIfAbsent contract :=
    s.update_congr g.registry (Registry.defineMatching_ok_eq made)
  cases sourced : g.source contract with
  | error e =>
    change (Except.error _, g, s.updateRegistry g.registry fun _ => r) = _
    rw [declared]
    rfl
  | ok source =>
    change (Except.ok source, g, (s.updateRegistry g.registry fun _ => r).updateRegistry g.registry
      fun r => source.nominated.foldl Registry.defineIfAbsent r) = _
    rw [declared, Store.update_update]
    rfl

/-- A contract that could be declared can be declared again. -/
theorem defineMatching_declaring {contract : Descriptor} {p : Generator × Store} {r : Registry}
    (made : (p.2.registry p.1.registry).defineMatching contract = .ok r) :
    ∃ r', ((p.2.updateRegistry p.1.registry fun r =>
      (p.1.needs contract).foldl Registry.defineIfAbsent r).registry
        p.1.registry).defineMatching contract = .ok r' := by
  have first : ∃ others, p.1.needs contract = contract :: others := by
    unfold Generator.needs
    split
    · exact ⟨[], rfl⟩
    · exact ⟨_, rfl⟩
  obtain ⟨others, needs⟩ := first
  rw [Store.registry_update, needs]
  split
  · have declared := (defineMatching_ok made).2
    rw [Registry.defineMatching_ok_eq made] at declared
    refine ⟨_, Registry.defineMatching_known (extends_foldl others _ _ _ declared)⟩
  · exact ⟨_, rfl⟩

theorem prepare_agrees (contract : Descriptor) : Agrees (prepare contract) id := by
  intro p q alike
  obtain ⟨_, _, _, _, setup⟩ := alike.setup
  cases made : (p.2.registry p.1.registry).defineMatching contract with
  | error f =>
    have made' : (q.2.registry q.1.registry).defineMatching contract = .error f := by
      rw [setup]
      exact (Registry.defineMatching_error_iff alike.table).2 made
    rw [prepare_refused made, prepare_refused made']
    exact ⟨rfl, alike⟩
  | ok r =>
    cases made' : (q.2.registry q.1.registry).defineMatching contract with
    | error f =>
      rw [setup] at made'
      rw [(Registry.defineMatching_error_iff alike.table).1 made'] at made
      cases made
    | ok r' =>
      have needs : q.1.needs contract = p.1.needs contract := by
        rw [setup]
        rfl
      rw [prepare_ok made, prepare_ok made', needs]
      refine ⟨?_, alike.declaring _⟩
      rw [setup]
      rfl

/-! ### Compilation and loading -/

theorem layOut_resume {g : Generator} (disk : g.disk.Steady) (source : ClassSource)
    (workplaces compilations loads : Nat) (cache : Cache) :
    (g.resume workplaces compilations loads cache).layOut source = g.layOut source := by
  unfold Generator.layOut Generator.resume
  dsimp only
  rw [disk.making workplaces g.workplaces, disk.writing workplaces g.workplaces]

/-- What the compiler of this library answers is decided by the source and the declared types. -/
theorem compile_agrees (source : ClassSource) : Agrees (compile source) id := by
  intro p q alike
  obtain ⟨g, s⟩ := p
  obtain ⟨g', s'⟩ := q
  obtain ⟨⟨scripted, disk⟩, ⟨w, n, m, k, rfl⟩, cached, registered, table⟩ := alike
  dsimp only at scripted disk registered table
  rw [compile_eq, compile_eq, layOut_resume disk]
  cases g.layOut source with
  | error f =>
    exact ⟨rfl, ⟨⟨scripted.compiler, scripted.loader⟩, disk⟩, ⟨_, _, _, _, rfl⟩, cached,
      registered, table⟩
  | ok files =>
    refine ⟨?_, ⟨⟨scripted.compiler, scripted.loader⟩, disk⟩, ⟨_, _, _, _, rfl⟩, cached,
      registered, table⟩
    dsimp only [Generator.resume]
    rw [scripted.compiler, table]
    rfl

/-- What the loader of this library answers, too. -/
theorem load_ends_alike (contract : Descriptor) (className : String) (files : FileTree)
    {g : Generator} (scripted : g.Scripted) (table : TypeTable) :
    ∃ (result : Except Stop Code.Class) (added : Array (List Value)),
    ∀ (workplaces compilations loads : Nat) (cache : Cache) (s : Store),
      (s.registry g.registry).table = table →
      (load contract className files
        (g.resume workplaces compilations loads cache, s)).1.map (·.code) = result ∧
      (load contract className files (g.resume workplaces compilations loads cache, s)).2
        = (g.resume workplaces compilations (loads + 1) cache,
          { s with statics := s.statics ++ added }) := by
  obtain ⟨depth, loader⟩ := scripted.loader
  let request : LoadRequest := ⟨files, g.workplace, className, g.registry⟩
  obtain ⟨result, added, ended⟩ := unitLoader_ends depth table request
  let stands (code : Code.Class) : Bool :=
    LoadedClass.isSubtypeOf (fun _ => table) ⟨0, code, g.registry, depth⟩ contract.name
  refine ⟨(result.mapError .failed).bind fun code => if stands code then .ok code
    else .error (.failed (.load className (.notImplementing contract.name))), added, ?_⟩
  rintro workplaces compilations loads cache s rfl
  have asked : load contract className files (g.resume workplaces compilations loads cache, s)
      = asking contract className (g.loader loads request)
        (g.resume workplaces compilations (loads + 1) cache, s) := rfl
  have loaded := ended loads s rfl
  rw [asked, loader, asking]
  cases result with
  | error f =>
    rw [bind_error (onStore_error loaded _)]
    exact ⟨rfl, rfl⟩
  | ok code =>
    rw [bind_value (onStore_value loaded _), onStore_tables_bind]
    have below : LoadedClass.isSubtypeOf { s with statics := s.statics ++ added }.tables
        ⟨s.statics.size, code, g.registry, depth⟩ contract.name = stands code := rfl
    dsimp only [request]
    rw [below]
    change _ = (if stands code then .ok code else .error _ : Except Stop Code.Class) ∧ _
    cases stands code with
    | true => exact ⟨rfl, rfl⟩
    | false => exact ⟨rfl, rfl⟩

theorem load_agrees (contract : Descriptor) (className : String) (files : FileTree) :
    Agrees (load contract className files) (·.code) := by
  intro p q alike
  obtain ⟨g, s⟩ := p
  obtain ⟨g', s'⟩ := q
  obtain ⟨⟨scripted, disk⟩, ⟨w, n, m, k, rfl⟩, cached, registered, table⟩ := alike
  obtain ⟨result, added, ends⟩ :=
    load_ends_alike contract className files scripted (s.registry g.registry).table
  obtain ⟨outcome, after⟩ := ends g.workplaces g.compilations g.loads g.cache s rfl
  obtain ⟨outcome', after'⟩ := ends w n m k s' table
  refine ⟨outcome.trans outcome'.symm, ?_⟩
  have after : (load contract className files (g, s)).2 = _ := after
  rw [after', after]
  exact ⟨⟨⟨scripted.compiler, scripted.loader⟩, disk⟩, ⟨_, _, _, _, rfl⟩, cached, registered, table⟩

/-! ### Resolution -/

theorem generate_agrees (contract : Descriptor) : Agrees (generate contract) (·.code) :=
  (prepare_agrees contract).bind fun source =>
    (compile_agrees source).bind fun files => load_agrees contract _ files

section

variable {p q : Generator × Store} {contract : Descriptor}

/-- A contract without a class is resolved as it is generated. -/
theorem resolve_outcome (implementable : contract.isContract = true)
    (missing : p.1.cached? contract = none) : (resolve contract p).1 = (generate contract p).1 := by
  rw [resolve_missing implementable missing]
  rcases generate contract p with ⟨result | result, q⟩
  · rfl
  · rfl

/-- Generators that are alike resolve every contract to the same code, or fail alike. -/
theorem resolve_alike (h : Alike p q) (contract : Descriptor) :
    (resolve contract p).1.map (·.code) = (resolve contract q).1.map (·.code) := by
  cases implementable : contract.isContract with
  | false =>
    rw [resolve_refused implementable, resolve_refused implementable]
  | true =>
    have held := h.cached? contract
    cases looked : p.1.cached? contract with
    | some c =>
      rw [resolve_cached implementable looked, resolve_cached implementable (held.trans looked)]
    | none =>
      rw [resolve_outcome implementable looked, resolve_outcome implementable (held.trans looked)]
      exact (generate_agrees contract p q h).1

/-- What resolving a contract declares, as far as the names are free. -/
def declares (contract : Descriptor) (p : Generator × Store) : List Descriptor :=
  if contract.isContract then
    match (p.2.registry p.1.registry).defineMatching contract with
    | .error _ => []
    | .ok _ => p.1.needs contract
  else []

/-- Apart from counts, cells without a class, and static fields of classes that nobody has, the
states are the same. -/
def Discards (p q : Generator × Store) : Prop :=
  ∃ workplaces compilations loads cache added, p.1.cache.Sheds cache ∧
    q = (p.1.resume workplaces compilations loads cache,
      { p.2 with statics := p.2.statics ++ added })

theorem Discards.refl (p : Generator × Store) : Discards p p :=
  ⟨p.1.workplaces, p.1.compilations, p.1.loads, p.1.cache, #[], .refl _,
    by rw [Array.append_empty]; rfl⟩

/-- The same is so if more empty cells are taken away. -/
theorem Discards.recached {k : Cache} (h : Discards p q) (sheds : p.1.cache.Sheds k) :
    Discards p (Classwright.recached k q) := by
  obtain ⟨w, n, m, _, added, _, rfl⟩ := h
  exact ⟨w, n, m, k, added, sheds, rfl⟩

theorem Discards.alike (h : Discards p q) (steady : p.1.Steady) : Alike p q := by
  obtain ⟨w, n, m, k, added, sheds, rfl⟩ := h
  exact ⟨steady, ⟨w, n, m, k, rfl⟩, sheds.content?, rfl, rfl⟩

/-- Compilation and loading change nothing else. -/
theorem compile_load_discards (scripted : p.1.Scripted) (contract : Descriptor)
    (source : ClassSource) : Discards p
      ((compile source >>= fun files => load contract source.className files) p).2 := by
  obtain ⟨g, s⟩ := p
  obtain ⟨result, compilations, ended⟩ := compile_ends source g s
  cases result with
  | error stop =>
    rw [bind_error ended]
    exact ⟨g.workplaces + 1, compilations, g.loads, g.cache, #[], .refl _,
      by rw [Array.append_empty]; rfl⟩
  | ok files =>
    rw [bind_value ended]
    obtain ⟨_, added, ends⟩ :=
      load_ends_alike contract source.className files scripted (s.registry g.registry).table
    exact ⟨_, _, _, g.cache, added, .refl _,
      (ends (g.workplaces + 1) compilations g.loads g.cache s rfl).2⟩

/-- All that generation declares is what the contract needs. -/
theorem generate_leaves (scripted : p.1.Scripted) (implementable : contract.isContract = true) :
    Discards (declaring (declares contract p) p) (generate contract p).2 := by
  rw [declares, if_pos implementable]
  cases made : (p.2.registry p.1.registry).defineMatching contract with
  | error f =>
    rw [generate, bind_error (prepare_refused made), declaring_nil]
    exact .refl p
  | ok r =>
    have prepared := prepare_ok made
    dsimp only
    cases sourced : p.1.source contract with
    | error e =>
      rw [sourced] at prepared
      rw [generate, bind_error prepared]
      exact .refl _
    | ok source =>
      rw [sourced] at prepared
      rw [generate, bind_value prepared]
      exact compile_load_discards (p := declaring (p.1.needs contract) p) scripted contract source

/-- Generation where these types are declared already ends in the same way. -/
theorem generate_again (steady : p.1.Steady) (implementable : contract.isContract = true) :
    (generate contract (declaring (declares contract p) p)).1.map (·.code)
      = (generate contract p).1.map (·.code) := by
  have rest : ∀ source : ClassSource, Agrees (compile source >>= fun files =>
      load contract source.className files) (·.code) := fun source =>
    (compile_agrees source).bind fun files => load_agrees contract _ files
  rw [declares, if_pos implementable]
  cases made : (p.2.registry p.1.registry).defineMatching contract with
  | error f => rw [declaring_nil]
  | ok r =>
    dsimp only
    have twice := declaring_twice steady (p.1.needs contract)
    obtain ⟨r', made'⟩ := defineMatching_declaring made
    have prepared := prepare_ok made
    have prepared' := prepare_ok (p := declaring (p.1.needs contract) p) made'
    refine (bind_alike rest ?_ ?_).1
    · rw [prepared, prepared']
      rfl
    · rw [prepared, prepared']
      exact twice

end

end Classwright
