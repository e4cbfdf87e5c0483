import Mathlib.Data.List.Dedup
import Classwright.Proofs.Generating
import Classwright.Proofs.World

/-!
# The cache of a generator

A generator is asked for one thing after the other, and its hooks may answer differently each time.
It remembers the class of each contract that it has resolved, and nothing else. Every request keeps
that, so every run of requests does. A remembered contract is never generated again, so whatever
hooks, compiler and loader would say by then does not matter.
-/

namespace Classwright

open Generation

namespace Generator

/-- Has the generator remember the class of a contract. -/
def remember (contract : Descriptor) (c : LoadedClass) (g : Generator) : Generator :=
  { g with cache := g.cache.keep contract c }

theorem cached?_remember (g : Generator) (contract : Descriptor) (c : LoadedClass)
    (other : Descriptor) : (g.remember contract c).cached? other
      = if contract = other then some c else g.cached? other :=
  g.cache.content?_keep contract c other

theorem cached?_fresh {g : Generator} (fresh : g.cache = {}) (contract : Descriptor) :
    g.cached? contract = none := by
  rw [cached?, fresh]
  rfl

theorem isCached_eq (g : Generator) (contract : Descriptor) :
    g.isCached contract = (g.cached? contract).isSome := by
  rw [isCached, cached?, Cache.content?]
  cases g.cache.cell? contract <;> rfl

end Generator

/-- Generates the class of a contract and remembers it. -/
def generateAnew (contract : Descriptor) : Generation LoadedClass := do
  let c ← generate contract
  modifyGenerator (Generator.remember contract c)
  return c

/-! ### One resolution -/

section

variable {contract : Descriptor} {c : LoadedClass} {p : Generator × Store}

/-- Contracts that no class can implement are refused at once. -/
theorem resolve_refused (refused : contract.isContract = false) (p : Generator × Store) :
    resolve contract p
      = (.error (.failed (.synthesis (.notImplementable contract.name contract.kind))), p) := by
  unfold resolve
  rw [refused]
  rfl

/-- What is done for a contract that may be implemented. -/
theorem resolve_eq (implementable : contract.isContract = true) :
    resolve contract p = (match p.1.cached? contract with
      | some c => pure c
      | none => do
        let cell ← cellFor contract
        tryCatch (cell.getOrInit (generate contract)) fun stop => do
          cell.retract contract
          throw stop : Generation LoadedClass) p := by
  unfold resolve
  rw [implementable]
  rfl

theorem resolve_cached (implementable : contract.isContract = true)
    (found : p.1.cached? contract = some c) : resolve contract p = (.ok c, p) := by
  rw [resolve_eq implementable, found]
  rfl

/-- A contract without a class is given a cell, into which a class that is generated is put; if none
is, then the cell is taken away. -/
theorem resolve_missing (implementable : contract.isContract = true)
    (missing : p.1.cached? contract = none) :
    resolve contract p = match generate contract p with
      | (.ok c, q) => (.ok c, q.1.remember contract c, q.2)
      | (.error stop, q) => (.error stop, recached (p.1.cache.dismiss contract) q) := by
  have empty : (p.1.cache.entry contract).1.content = none := Cache.content_entry missing
  have blind := generate_blind contract (p.1.cache.entry contract).2 p
  have kept := (generate_blind contract).cache p
  have asked : resolve contract p = tryCatch
      ((p.1.cache.entry contract).1.getOrInit (generate contract)) (fun stop => do
        (p.1.cache.entry contract).1.retract contract
        throw stop) (recached (p.1.cache.entry contract).2 p) := by
    rw [resolve_eq implementable, missing]
    rfl
  rw [asked, Cell.getOrInit, empty]
  cases ran : generate contract p with
  | mk result q =>
    rw [ran] at blind kept
    cases result with
    | ok c =>
      dsimp only at kept ⊢
      refine tryCatch_value ((bind_value blind).trans ?_)
      rw [Generator.remember, kept]
      rfl
    | error stop => exact tryCatch_error (bind_error blind)

/-- How a resolution ends: with what is remembered, with a failure, or with a class that has just
been generated. -/
theorem resolve_cases (contract : Descriptor) (p : Generator × Store) :
    (∃ c, p.1.cached? contract = some c ∧ resolve contract p = (.ok c, p)) ∨
    (∃ stop q, Moves p q ∧ resolve contract p = (.error stop, q)) ∨
    ∃ c q, contract.isContract = true ∧ p.1.cached? contract = none ∧
      generate contract p = (.ok c, q) ∧ Moves p q ∧
      resolve contract p = (.ok c, q.1.remember contract c, q.2) := by
  cases implementable : contract.isContract with
  | false => exact .inr (.inl ⟨_, p, .refl p, resolve_refused implementable p⟩)
  | true =>
    cases looked : p.1.cached? contract with
    | some c => exact .inl ⟨c, rfl, resolve_cached implementable looked⟩
    | none =>
      rw [resolve_missing implementable looked]
      have moved := generate_moves contract p
      cases ran : generate contract p with
      | mk result q =>
        rw [ran] at moved
        cases result with
        | error stop => exact .inr (.inl ⟨stop, _, moved.recached (Cache.sheds_dismiss ..), rfl⟩)
        | ok c => exact .inr (.inr ⟨c, q, rfl, rfl, rfl, moved, rfl⟩)

/-- Making an instance changes the generator as resolving its contract does, and no type. -/
theorem newInstance_ends (contract : Descriptor) (p : Generator × Store) :
    ∃ s, (resolve contract p).2.2.KeepsTypes s ∧
      (newInstance contract p).2 = ((resolve contract p).2.1, s) := by
  cases ran : resolve contract p with
  | mk result q =>
    obtain ⟨g, s⟩ := q
    cases result with
    | error stop => exact ⟨s, .refl s, by rw [newInstance, bind_error ran]⟩
    | ok c =>
      have kept : s.KeepsTypes (c.instantiate s).2 :=
        keepsTypes_of_leaves (instantiate_leaves (stable_hosts _ _) c)
      refine ⟨(c.instantiate s).2, kept, ?_⟩
      rw [newInstance, bind_value ran]
      cases made : c.instantiate s with
      | mk result s' =>
        cases result with
        | error stop => rw [bind_error (onStore_error made g)]
        | ok o =>
          rw [bind_value (onStore_value made g), onStore_tables_bind]
          split
          · rfl
          · rfl

end

/-! ### Requests -/

/-- What a generator can be asked for. -/
inductive Request
  | resolve (contract : Descriptor)
  | newInstance (contract : Descriptor)
  | synthesize (contract : Descriptor)
  | isCached (contract : Descriptor)
  | cachedCount

/-- A request, with the hooks as they are when it is made. -/
structure Demand where
  hooks : Hooks
  request : Request

/-- The generator and the store, with other hooks. -/
def withHooks (hooks : Hooks) (p : Generator × Store) : Generator × Store :=
  ({ p.1 with hooks := hooks }, p.2)

/-- The contract with its class, if resolving it gives one. -/
def resolution (contract : Descriptor) (p : Generator × Store) : List (Descriptor × LoadedClass) :=
  match (resolve contract p).1 with
  | .ok c => [(contract, c)]
  | .error _ => []

namespace Request

/-- The generator and the store after a request. -/
def after : Request → Generator × Store → Generator × Store
  | .resolve contract, p => (Classwright.resolve contract p).2
  | .newInstance contract, p => (Classwright.newInstance contract p).2
  | .synthesize _, p | .isCached _, p | .cachedCount, p => p

/-- The contract that a request has resolved, with its class; a new instance resolves first. -/
def resolved : Request → Generator × Store → List (Descriptor × LoadedClass)
  | .resolve contract, p | .newInstance contract, p => resolution contract p
  | .synthesize _, _ | .isCached _, _ | .cachedCount, _ => []

end Request

/-- The generator and the store after requests in turn. -/
def afterAll : List Demand → Generator × Store → Generator × Store
  | [], p => p
  | d :: demands, p => afterAll demands (d.request.after (withHooks d.hooks p))

/-- What requests in turn have resolved. -/
def allResolved : List Demand → Generator × Store → List (Descriptor × LoadedClass)
  | [], _ => []
  | d :: demands, p =>
    d.request.resolved (withHooks d.hooks p)
      ++ allResolved demands (d.request.after (withHooks d.hooks p))

/-! ### What is remembered -/

/-- The cells hold what has been resolved, and none is empty. -/
structure Remembers (g : Generator) (resolved : List (Descriptor × LoadedClass)) : Prop where
  implementable : ∀ contract c, g.cached? contract = some c → contract.isContract = true
  settled : g.cache.Settled
  cached_iff : ∀ contract c, g.cached? contract = some c ↔ (contract, c) ∈ resolved

namespace Remembers

variable {p : Generator × Store} {resolved : List (Descriptor × LoadedClass)}

theorem of_cache {g g' : Generator} (h : Remembers g resolved) (same : g'.cache = g.cache) :
    Remembers g' resolved := by
  have cached : ∀ contract, g'.cached? contract = g.cached? contract := fun contract => by
    rw [Generator.cached?, Generator.cached?, same]
  constructor
  · intro contract c found
    exact h.implementable contract c ((cached contract).symm.trans found)
  · rw [same]
    exact h.settled
  · intro contract c
    rw [cached]
    exact h.cached_iff contract c

theorem resolve (h : Remembers p.1 resolved) (contract : Descriptor) :
    Remembers (Classwright.resolve contract p).2.1 (resolved ++ resolution contract p) := by
  obtain ⟨c, found, ran⟩ | ⟨stop, q, moved, ran⟩ | ⟨c, q, implementable, missing, _, moved, ran⟩ :=
    resolve_cases contract p
  · rw [resolution, ran]
    refine ⟨h.implementable, h.settled, fun other d => ?_⟩
    rw [h.cached_iff, List.mem_append, List.mem_singleton]
    constructor
    · exact .inl
    · rintro (old | same)
      · exact old
      · cases same
        exact (h.cached_iff _ _).mp found
  · rw [resolution, ran, List.append_nil]
    exact h.of_cache (moved.cache.eq h.settled)
  · rw [resolution, ran]
    have held : Remembers q.1 resolved := h.of_cache (moved.cache.eq h.settled)
    constructor
    · intro other d found
      rw [Generator.cached?_remember] at found
      split at found
      · rename_i same
        rw [← same]
        exact implementable
      · exact held.implementable other d found
    · exact Cache.settled_keep held.settled contract c
    · intro other d
      rw [Generator.cached?_remember, List.mem_append, List.mem_singleton, ← held.cached_iff]
      split
      · rename_i same
        subst same
        rw [moved.cached?, missing, Option.some.injEq, Prod.mk.injEq]
        constructor
        · rintro rfl
          exact .inr ⟨rfl, rfl⟩
        · rintro (clash | ⟨_, rfl⟩)
          · cases clash
          · rfl
      · rename_i apart
        constructor
        · exact .inl
        · rintro (found | same)
          · exact found
          · cases same
            exact absurd rfl apart

/-- One request keeps the invariant. -/
theorem after (h : Remembers p.1 resolved) (request : Request) :
    Remembers (request.after p).1 (resolved ++ request.resolved p) := by
  cases request with
  | resolve contract => exact h.resolve contract
  | newInstance contract =>
    obtain ⟨s, _, ended⟩ := newInstance_ends contract p
    change Remembers (newInstance contract p).2.1 (resolved ++ resolution contract p)
    rw [ended]
    exact h.resolve contract
  | synthesize contract =>
    change Remembers p.1 (resolved ++ [])
    rwa [List.append_nil]
  | isCached contract =>
    change Remembers p.1 (resolved ++ [])
    rwa [List.append_nil]
  | cachedCount =>
    change Remembers p.1 (resolved ++ [])
    rwa [List.append_nil]

/-- So do requests in turn. -/
theorem afterAll (h : Remembers p.1 resolved) (demands : List Demand) :
    Remembers (afterAll demands p).1 (resolved ++ allResolved demands p) := by
  induction demands generalizing p resolved with
  | nil =>
    change Remembers p.1 (resolved ++ [])
    rwa [List.append_nil]
  | cons d demands ih =>
    have hooked : Remembers (withHooks d.hooks p).1 resolved := h.of_cache rfl
    have rest := ih (hooked.after d.request)
    rwa [List.append_assoc] at rest

theorem cachedCount (h : Remembers p.1 resolved) :
    p.1.cachedCount = (resolved.map Prod.fst).dedup.length := by
  refine Cache.filled_eq fun contract => ?_
  rw [List.mem_map]
  constructor
  · rintro ⟨⟨key, c⟩, member, rfl⟩
    exact ⟨c, (h.cached_iff key c).mpr member⟩
  · rintro ⟨c, found⟩
    exact ⟨(contract, c), (h.cached_iff contract c).mp found, rfl⟩

theorem isCached_iff (h : Remembers p.1 resolved) (contract : Descriptor) :
    p.1.isCached contract = true ↔ ∃ c, (contract, c) ∈ resolved := by
  rw [Generator.isCached_eq, Option.isSome_iff_exists]
  exact exists_congr fun c => h.cached_iff contract c

end Remembers

/-! ### What the registry says about it -/

/-- Each remembered contract is declared as it is, with its class below it, and stays so. -/
structure Grounded (p : Generator × Store) : Prop where
  keeps : p.1.loader.Keeps
  registered : p.1.registry < p.2.registries.size
  stands : ∀ contract c, p.1.cached? contract = some c → Stands p contract c

namespace Grounded

variable {p q : Generator × Store}

theorem moves (h : Grounded p) (moved : Moves p q) : Grounded q where
  keeps := by
    rw [moved.loader]
    exact h.keeps
  registered := by
    rw [moved.registry]
    exact Nat.lt_of_lt_of_le h.registered (moved.types h.keeps).size
  stands := by
    intro contract c found
    rw [moved.cached?] at found
    exact (h.stands contract c found).keep moved.registry (moved.types h.keeps)

theorem elsewhere {g : Generator} {s s' : Store} (h : Grounded (g, s)) (kept : s.KeepsTypes s') :
    Grounded (g, s') where
  keeps := h.keeps
  registered := Nat.lt_of_lt_of_le h.registered kept.size
  stands := fun contract c found => (h.stands contract c found).keep rfl kept

theorem remember (h : Grounded p) {contract : Descriptor} {c : LoadedClass}
    (stands : Stands p contract c) : Grounded (p.1.remember contract c, p.2) where
  keeps := h.keeps
  registered := h.registered
  stands := by
    intro other d found
    rw [Generator.cached?_remember] at found
    split at found
    · rename_i same
      subst same
      cases found
      exact ⟨stands.declared, stands.below⟩
    · exact ⟨(h.stands other d found).declared, (h.stands other d found).below⟩

theorem resolve (h : Grounded p) (contract : Descriptor) :
    Grounded (Classwright.resolve contract p).2 := by
  obtain ⟨c, _, ran⟩ | ⟨stop, q, moved, ran⟩ | ⟨c, q, _, _, made, moved, ran⟩ :=
    resolve_cases contract p
  · rw [ran]
    exact h
  · rw [ran]
    exact h.moves moved
  · rw [ran]
    exact (h.moves moved).remember (generate_stands h.keeps h.registered made)

theorem after (h : Grounded p) (request : Request) : Grounded (request.after p) := by
  cases request with
  | resolve contract => exact h.resolve contract
  | newInstance contract =>
    obtain ⟨s, kept, ended⟩ := newInstance_ends contract p
    change Grounded (newInstance contract p).2
    rw [ended]
    exact (h.resolve contract).elsewhere kept
  | synthesize contract => exact h
  | isCached contract => exact h
  | cachedCount => exact h

theorem afterAll (h : Grounded p) (demands : List Demand) : Grounded (afterAll demands p) := by
  induction demands generalizing p with
  | nil => exact h
  | cons d demands ih =>
    have hooked : Grounded (withHooks d.hooks p) :=
      ⟨h.keeps, h.registered, fun contract c found =>
        (h.stands contract c found).keep rfl (.refl _)⟩
    exact ih (hooked.after d.request)

/-- Two contracts of one name are not both remembered. -/
theorem cached_unique (h : Grounded p) {contract other : Descriptor} {c d : LoadedClass}
    (found : p.1.cached? contract = some c) (found' : p.1.cached? other = some d)
    (same : contract.name = other.name) : contract = other := by
  have declared := (h.stands contract c found).declared
  have declared' := (h.stands other d found').declared
  rw [same, declared'] at declared
  exact (Option.some.inj declared).symm

end Grounded

/-! ### Runs of requests -/

theorem resolve_kept {contract : Descriptor} {p : Generator × Store} (settled : p.1.cache.Settled)
    (nothing : resolution contract p = []) : (resolve contract p).2.1.cache = p.1.cache := by
  obtain ⟨c, _, ran⟩ | ⟨stop, q, moved, ran⟩ | ⟨c, q, _, _, _, _, ran⟩ := resolve_cases contract p
  · rw [ran]
  · rw [ran]
    exact moved.cache.eq settled
  · rw [resolution, ran] at nothing
    cases nothing

/-- A request that resolves nothing leaves the cache as it is. -/
theorem Request.cache_kept {request : Request} {p : Generator × Store}
    (settled : p.1.cache.Settled) (nothing : request.resolved p = []) :
    (request.after p).1.cache = p.1.cache := by
  cases request with
  | resolve contract => exact resolve_kept settled nothing
  | newInstance contract =>
    obtain ⟨s, _, ended⟩ := newInstance_ends contract p
    change (Classwright.newInstance contract p).2.1.cache = p.1.cache
    rw [ended]
    exact resolve_kept settled nothing
  | synthesize contract => rfl
  | isCached contract => rfl
  | cachedCount => rfl

/-- A contract without a class is generated anew where no cell is empty. -/
theorem resolve_anew {contract : Descriptor} {p : Generator × Store} (settled : p.1.cache.Settled)
    (implementable : contract.isContract = true) (missing : p.1.cached? contract = none) :
    resolve contract p = generateAnew contract p := by
  rw [resolve_missing implementable missing, (Cache.sheds_dismiss ..).eq settled]
  have kept := (generate_blind contract).cache p
  cases ran : generate contract p with
  | mk result q =>
    rw [ran] at kept
    cases result with
    | ok c =>
      rw [generateAnew, bind_value ran]
      rfl
    | error stop =>
      dsimp only at kept ⊢
      rw [generateAnew, bind_error ran, ← kept]
      rfl

/-- After any requests to a fresh generator, whatever the hooks, the compiler, the loader and the
file system have answered: the contracts that are cached are those that have been resolved, and no
cell is left empty; each of them has its class for good, without anyone being asked again; any other
is generated anew; what fails leaves the cache alone; and unless the loader declares other types in
place of declared ones, each cached class stands below its contract, which shares its name with no
other cached one. -/
theorem generation_cache {g : Generator} (fresh : g.cache = {}) (s : Store)
    (demands : List Demand) :
    let p := afterAll demands (g, s)
    let resolved := allResolved demands (g, s)
    (∀ contract, p.1.isCached contract = true ↔ ∃ c, (contract, c) ∈ resolved) ∧
    p.1.cachedCount = (resolved.map Prod.fst).dedup.length ∧
    (∀ e ∈ p.1.cache.entries, ∃ c, e.2.content = some c ∧ (e.1, c) ∈ resolved) ∧
    (∀ contract c, (contract, c) ∈ resolved → ∀ hooks compiler loader disk,
      let q := ({ p.1 with
        hooks := hooks, compiler := compiler, loader := loader, disk := disk }, p.2)
      resolve contract q = (.ok c, q)) ∧
    (∀ contract, contract.isContract = true → (∀ c, (contract, c) ∉ resolved) → ∀ hooks,
      resolve contract (withHooks hooks p) = generateAnew contract (withHooks hooks p)) ∧
    (∀ hooks (request : Request), request.resolved (withHooks hooks p) = [] →
      (request.after (withHooks hooks p)).1.cache = p.1.cache) ∧
    (∀ contract : Descriptor, contract.kind = .primitive ∨ contract.kind = .array → ∀ q,
      let refused := SynthesisError.notImplementable contract.name contract.kind
      resolve contract q = (.error (.failed (.synthesis refused)), q) ∧
      newInstance contract q = (.error (.failed (.synthesis refused)), q) ∧
      q.1.source contract = .error refused) ∧
    (g.loader.Keeps → g.registry < s.registries.size →
      (∀ contract c, p.1.cached? contract = some c →
        c.isSubtypeOf p.2.tables contract.name = true) ∧
      ∀ contract other c d, p.1.cached? contract = some c → p.1.cached? other = some d →
        contract.name = other.name → contract = other) := by
  intro p resolved
  have nothing := Generator.cached?_fresh fresh
  have start : Remembers g [] := by
    constructor
    · intro contract c found
      rw [nothing] at found
      cases found
    · rw [fresh]
      exact nofun
    · intro contract c
      rw [nothing]
      simp
  have remembers : Remembers p.1 resolved :=
    Remembers.afterAll (p := (g, s)) start demands
  refine ⟨remembers.isCached_iff, remembers.cachedCount, ?_, ?_, ?_, ?_, ?_, ?_⟩
  · intro e member
    obtain ⟨c, filled⟩ := Option.isSome_iff_exists.1 (remembers.settled e member)
    exact ⟨c, filled, (remembers.cached_iff e.1 c).mp
      (Cache.content?_eq_some_iff.2 ⟨e.2, member, filled⟩)⟩
  · intro contract c member hooks compiler loader disk
    have found := (remembers.cached_iff contract c).mpr member
    exact resolve_cached (remembers.implementable contract c found) found
  · intro contract implementable new hooks
    refine resolve_anew (p := withHooks hooks p) remembers.settled implementable ?_
    cases found : (withHooks hooks p).1.cached? contract with
    | none => rfl
    | some c => exact absurd ((remembers.cached_iff contract c).mp found) (new c)
  · intro hooks request nothing
    exact Request.cache_kept remembers.settled nothing
  · intro contract kind q refused
    have unfit : contract.isContract = false := by
      rcases kind with kind | kind <;> rw [Descriptor.isContract, kind] <;> rfl
    have ended := resolve_refused unfit q
    refine ⟨ended, bind_error ended, ?_⟩
    rw [Generator.source, synthesize, unfit]
    rfl
  · intro keeps registered
    have grounded : Grounded (g, s) := by
      refine ⟨keeps, registered, fun contract c found => ?_⟩
      rw [nothing] at found
      cases found
    have held := grounded.afterAll demands
    exact ⟨fun contract c found => (held.stands contract c found).below,
      fun contract other c d found found' same => held.cached_unique found found' same⟩

/-- The loader of stored classes declares nothing. -/
theorem unitLoader_keeps (maxCallDepth : Nat) : (unitLoader maxCallDepth).Keeps := by
  intro n request s
  apply keepsTypes_of_leaves
  unfold unitLoader
  cases readUnit request.files request.directory request.className with
  | error f => exact Run.Leaves.fail _
  | ok code => exact link_leaves (stable_hosts _ _) code _ _

namespace Sample

def salutation : Descriptor where
  name := "Salutation"
  kind := .interface
  methods := [{ name := "greet", returnType := .named "String" }]

/-- A disk that is full at first. -/
def fullDisk : Disk where
  writing n := if n = 0 then some (.other "No space left on device (os error 28)") else none

/-- A compiler that has no time at first. -/
def hesitant : Compiler := fun n _ => pure (if n = 0 then .failed ["busy"] else .succeeded)

/-- A loader that knows a single class. -/
def stocked : Loader := fun _ request =>
  link (codeOf ⟨[salutation]⟩
    "class Hello implements Salutation \x7b public String greet() \x7b return \"hello\"; \x7d \x7d")
    request.registry 64

def starting : Generator where
  hooks := {}
  registry := 0
  workplace := ["work"]
  compiler := hesitant
  loader := stocked
  disk := fullDisk

def visits : List Demand :=
  [⟨{}, .resolve salutation⟩, ⟨{}, .resolve salutation⟩, ⟨{}, .resolve salutation⟩,
    ⟨{}, .newInstance salutation⟩]

def visited : Generator × Store := afterAll visits (starting, { registries := #[{}] })

theorem visits_run :
    (∃ r ∈ allResolved visits (starting, { registries := #[{}] }), r.1 = salutation) ∧
    ((allResolved visits (starting, { registries := #[{}] })).map Prod.fst).dedup.length = 1 ∧
    visited.1.workplaces = 3 ∧ visited.1.compilations = 2 ∧ visited.1.loads = 1 := by
  decide +kernel

/-- The first two attempts fail; from the third on there is one class, made by one more. -/
theorem salutation_cached : starting.cache = {} ∧ starting.loader.Keeps ∧
    visited.1.isCached salutation = true ∧ visited.1.cachedCount = 1 ∧
    visited.1.workplaces = 3 ∧ visited.1.compilations = 2 ∧ visited.1.loads = 1 ∧
    ∃ c, visited.1.cached? salutation = some c ∧
      c.isSubtypeOf visited.2.tables "Salutation" = true ∧
      ∀ hooks compiler loader disk,
        let q := ({ visited.1 with
          hooks := hooks, compiler := compiler, loader := loader, disk := disk }, visited.2)
        resolve salutation q = (.ok c, q) := by
  have keeps : starting.loader.Keeps := fun n request s =>
    keepsTypes_of_leaves (link_leaves (stable_hosts _ _) _ _ _)
  obtain ⟨⟨⟨key, c⟩, member, rfl⟩, count, workplaces, compilations, loads⟩ := visits_run
  obtain ⟨cached_iff, cachedCount, _, again, _, _, _, grounded⟩ :=
    generation_cache (g := starting) rfl { registries := #[{}] } visits
  have cached : visited.1.isCached salutation = true := (cached_iff salutation).mpr ⟨c, member⟩
  obtain ⟨d, found⟩ := Option.isSome_iff_exists.1 ((Generator.isCached_eq ..).symm.trans cached)
  obtain rfl : d = c := by
    have same := (resolve_cached rfl found).symm.trans
      (again salutation c member visited.1.hooks visited.1.compiler visited.1.loader visited.1.disk)
    cases same
    rfl
  exact ⟨rfl, keeps, cached, cachedCount.trans count, workplaces, compilations, loads,
    d, found, (grounded keeps Nat.zero_lt_one).1 salutation d found, again salutation d member⟩

end Sample

end Classwright
