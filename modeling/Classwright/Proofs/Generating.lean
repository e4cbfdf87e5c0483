import Classwright.Generation.Generator
import Classwright.Proofs.Cells
import Classwright.Proofs.Stability
import Classwright.Proofs.Subtyping

/-!
# What generation changes

Generation declares types, asks the compiler and the loader, and counts how often. It declares a
type only under a free name, so what is declared stays declared; a class that it ends with stands
below a contract that is declared as it is.

A loader is given the registry, too. Where the registry matters it is asked not to declare other
types in place of declared ones.
-/

namespace Classwright

open Generation

/-! ### Registries that only grow -/

namespace TypeTable

/-- What the one table declares, the other declares just so. -/
def Extends (t t' : TypeTable) : Prop := ∀ name d, t.lookup name = some d → t'.lookup name = some d

variable {t t' t'' : TypeTable}

theorem Extends.refl (t : TypeTable) : t.Extends t := fun _ _ found => found

theorem Extends.trans (h : t.Extends t') (h' : t'.Extends t'') : t.Extends t'' :=
  fun name d found => h' name d (h name d found)

/-- A name that is declared keeps its type, and only one name is declared besides. -/
theorem lookup_defineIfAbsent (t : TypeTable) (d : Descriptor) (name : String) :
    (t.defineIfAbsent d).lookup name
      = (t.lookup name).or (if d.name == name then some d else none) := by
  cases known : t.contains d.name with
  | true =>
    rw [defineIfAbsent, if_pos known]
    split
    · rename_i same
      rw [← eq_of_beq same]
      obtain ⟨e, found⟩ := Option.isSome_iff_exists.1 known
      rw [found]
      rfl
    · rw [Option.or_none]
  | false =>
    rw [defineIfAbsent, known, if_neg Bool.false_ne_true, lookup, List.find?_append,
      List.find?_singleton]
    rfl

theorem extends_defineIfAbsent (t : TypeTable) (d : Descriptor) :
    t.Extends (t.defineIfAbsent d) := by
  intro name e found
  rw [lookup_defineIfAbsent, found]
  rfl

theorem lookup_defineIfAbsent_self {d : Descriptor} (unknown : t.lookup d.name = none) :
    (t.defineIfAbsent d).lookup d.name = some d := by
  rw [lookup_defineIfAbsent, unknown, if_pos (beq_self_eq_true d.name)]
  rfl

theorem contains_defineIfAbsent_of_ne {d : Descriptor} {name : String} (other : d.name ≠ name) :
    (t.defineIfAbsent d).contains name = t.contains name := by
  rw [contains, contains, lookup_defineIfAbsent, if_neg (by simpa using other), Option.or_none]

theorem Leads.extend {next : Descriptor → List String} {a b : String} (h : t.Extends t')
    (leads : Leads t next a b) : Leads t' next a b := by
  induction leads with
  | refl name => exact .refl name
  | step found member _ ih => exact .step (h _ _ found) member ih

theorem isSubtype_extend {sub sup : String} (h : t.Extends t')
    (below : t.isSubtype sub sup = true) : t'.isSubtype sub sup = true := by
  rw [isSubtype_eq_true_iff] at below ⊢
  exact below.imp_right fun leads => leads.extend h

end TypeTable

/-- No registry is gone, or has lost or changed a type. -/
structure Store.KeepsTypes (s s' : Store) : Prop where
  size : s.registries.size ≤ s'.registries.size
  types : ∀ id, (s.registry id).table.Extends (s'.registry id).table

namespace Store.KeepsTypes

variable {s s' s'' : Store}

theorem refl (s : Store) : s.KeepsTypes s := ⟨Nat.le_refl _, fun _ => .refl _⟩

theorem trans (h : s.KeepsTypes s') (h' : s'.KeepsTypes s'') : s.KeepsTypes s'' :=
  ⟨Nat.le_trans h.size h'.size, fun id => (h.types id).trans (h'.types id)⟩

theorem of_registries (same : s'.registries = s.registries) : s.KeepsTypes s' := by
  constructor
  · exact Nat.le_of_eq (by rw [same])
  · intro id
    unfold Store.registry
    rw [same]
    exact .refl _

theorem isSubtypeOf (h : s.KeepsTypes s') {c : LoadedClass} {name : String}
    (below : c.isSubtypeOf s.tables name = true) : c.isSubtypeOf s'.tables name = true := by
  rw [LoadedClass.isSubtypeOf, Bool.or_eq_true] at below ⊢
  refine below.imp_right fun above => ?_
  rw [List.any_eq_true] at above ⊢
  obtain ⟨parent, member, below⟩ := above
  exact ⟨parent, member, TypeTable.isSubtype_extend (h.types c.registry) below⟩

/-- A change of one registry that keeps its types. -/
theorem update {id : Nat} {change : Registry → Registry}
    (h : ∀ r, r = s.registry id → r.table.Extends (change r).table) :
    s.KeepsTypes (s.updateRegistry id change) := by
  refine ⟨Nat.le_of_eq (Array.size_modify ..).symm, fun other => ?_⟩
  unfold Store.registry Store.updateRegistry
  dsimp only
  rw [Array.getElem?_modify]
  split
  · rename_i same
    subst same
    cases found : s.registries[id]? with
    | none => exact .refl _
    | some r => exact h r (by rw [Store.registry, found]; rfl)
  · exact .refl _

end Store.KeepsTypes

theorem keepsTypes_of_leaves {α : Type} {body : Run α} {s : Store}
    (leaves : Run.Leaves (fun t => t.registries = s.registries ∧ t.handlers = s.handlers) body) :
    s.KeepsTypes (body s).2 := Store.KeepsTypes.of_registries (leaves s ⟨rfl, rfl⟩).1.1

/-! ### What generation changes -/

/-- The loader declares no other types in place of declared ones. -/
def Loader.Keeps (loader : Loader) : Prop :=
  ∀ n request (s : Store), s.KeepsTypes (loader n request s).2

/-- Generation counts in the generator and keeps everything else in it, but for cells without a
class; types stay declared. -/
structure Moves (p q : Generator × Store) : Prop where
  setup : q.1 = { p.1 with
    workplaces := q.1.workplaces, compilations := q.1.compilations, loads := q.1.loads,
    cache := q.1.cache }
  cache : p.1.cache.Sheds q.1.cache
  types : p.1.loader.Keeps → p.2.KeepsTypes q.2

namespace Moves

variable {p q r : Generator × Store}

theorem refl (p : Generator × Store) : Moves p p := ⟨rfl, .refl _, fun _ => .refl _⟩

theorem loader (h : Moves p q) : q.1.loader = p.1.loader := by rw [h.setup]

theorem cached? (h : Moves p q) (contract : Descriptor) :
    q.1.cached? contract = p.1.cached? contract := h.cache.content? contract

theorem registry (h : Moves p q) : q.1.registry = p.1.registry := by rw [h.setup]

theorem recached {k : Cache} (h : Moves p q) (sheds : p.1.cache.Sheds k) :
    Moves p ({ q.1 with cache := k }, q.2) where
  setup := by
    dsimp only
    rw [h.setup]
  cache := sheds
  types := h.types

theorem trans (h : Moves p q) (h' : Moves q r) : Moves p r where
  setup := by
    rw [h'.setup, h.setup]
  cache := h.cache.trans h'.cache
  types := fun keeps => (h.types keeps).trans (h'.types (by rw [h.loader]; exact keeps))

end Moves

/-- Generation that moves on from every state. -/
def Generation.Moves {α : Type} (body : Generation α) : Prop := ∀ p, Classwright.Moves p (body p).2

namespace Generation

variable {α β : Type} {body : Generation α} {next : α → Generation β} {p q : Generator × Store}

theorem bind_value {a : α} (h : body p = (.ok a, q)) : (body >>= next) p = next a q := by
  change ExceptT.bindCont next (body p).1 (body p).2 = _
  rw [h]
  rfl

theorem bind_error {stop : Stop} (h : body p = (.error stop, q)) :
    (body >>= next) p = (.error stop, q) := by
  change ExceptT.bindCont next (body p).1 (body p).2 = _
  rw [h]
  rfl

theorem tryCatch_value {handle : Stop → Generation α} {a : α} (h : body p = (.ok a, q)) :
    tryCatch body handle p = (.ok a, q) := by
  change ExceptT.tryCatch body handle p = _
  unfold ExceptT.tryCatch ExceptT.mk bind Monad.toBind StateT.instMonad StateT.bind
  dsimp only
  rw [h]
  rfl

theorem tryCatch_error {handle : Stop → Generation α} {stop : Stop}
    (h : body p = (.error stop, q)) : tryCatch body handle p = handle stop q := by
  change ExceptT.tryCatch body handle p = _
  unfold ExceptT.tryCatch ExceptT.mk bind Monad.toBind StateT.instMonad StateT.bind
  dsimp only
  rw [h]
  rfl

theorem get_bind (next : Generator × Store → Generation β) (p : Generator × Store) :
    ((get : Generation (Generator × Store)) >>= next) p = next p p := rfl

theorem modifyGenerator_bind (change : Generator → Generator) (next : Unit → Generation β)
    (p : Generator × Store) :
    (modifyGenerator change >>= next) p = next () (change p.1, p.2) := rfl

theorem onStore_tables_bind (next : Tables → Generation β) (g : Generator) (s : Store) :
    (onStore Run.tables >>= next) (g, s) = next s.tables (g, s) := rfl

theorem onStore_value {run : Run α} {a : α} {s s' : Store} (h : run s = (.ok a, s'))
    (g : Generator) : onStore run (g, s) = (.ok a, g, s') := by
  unfold onStore
  dsimp only
  rw [h]

theorem onStore_error {run : Run α} {stop : Stop} {s s' : Store} (h : run s = (.error stop, s'))
    (g : Generator) : onStore run (g, s) = (.error stop, g, s') := by
  unfold onStore
  dsimp only
  rw [h]

theorem Moves.bind (h : Generation.Moves body) (hnext : ∀ a, Generation.Moves (next a)) :
    Generation.Moves (body >>= next) := by
  intro p
  have moved := h p
  cases ran : body p with
  | mk result q =>
    rw [ran] at moved
    cases result with
    | error stop =>
      rw [bind_error ran]
      exact moved
    | ok a =>
      rw [bind_value ran]
      exact moved.trans (hnext a q)

/-- Generation that ends with a value has its parts end one behind the other. -/
theorem bind_ok {b : β} {r : Generator × Store} (h : (body >>= next) p = (.ok b, r)) :
    ∃ a q, body p = (.ok a, q) ∧ next a q = (.ok b, r) := by
  cases ran : body p with
  | mk result q =>
    cases result with
    | error stop =>
      rw [bind_error ran] at h
      cases h
    | ok a =>
      rw [bind_value ran] at h
      exact ⟨a, q, rfl, h⟩

end Generation

section

variable {contract : Descriptor}

theorem defineMatching_ok {r r' : Registry} (made : r.defineMatching contract = .ok r') :
    r.table.Extends r'.table ∧ r'.table.lookup contract.name = some contract := by
  unfold Registry.defineMatching at made
  split at made
  · rename_i unknown
    cases made
    exact ⟨TypeTable.extends_defineIfAbsent _ _, TypeTable.lookup_defineIfAbsent_self unknown⟩
  · rename_i known found
    split at made
    · rename_i same
      cases made
      exact ⟨.refl _, same ▸ found⟩
    · cases made

theorem extends_foldl (types : List Descriptor) (r : Registry) :
    r.table.Extends (types.foldl Registry.defineIfAbsent r).table := by
  induction types generalizing r with
  | nil => exact .refl _
  | cons d types ih => exact 
    (TypeTable.extends_defineIfAbsent r.table d).trans (ih (r.defineIfAbsent d))

/-- How preparation ends: refused, with a failed synthesis, or with the source. -/
theorem prepare_cases (contract : Descriptor) (p : Generator × Store) :
    (∃ f, prepare contract p = (.error (.failed f), p)) ∨
    ∃ registry, (p.2.registry p.1.registry).defineMatching contract = .ok registry ∧
      ((∃ e, prepare contract p
        = (.error (.failed (.synthesis e)), p.1,
          p.2.updateRegistry p.1.registry fun _ => registry)) ∨
      ∃ source, prepare contract p = (.ok source, p.1,
        (p.2.updateRegistry p.1.registry fun _ => registry).updateRegistry p.1.registry
          fun r => source.nominated.foldl Registry.defineIfAbsent r)) := by
  obtain ⟨g, s⟩ := p
  rw [prepare, get_bind]
  dsimp only
  cases made : (s.registry g.registry).defineMatching contract with
  | error f => exact .inl ⟨f, rfl⟩
  | ok registry =>
    refine .inr ⟨registry, rfl, ?_⟩
    dsimp only
    cases g.source contract with
    | error e => exact .inl ⟨e, rfl⟩
    | ok source => exact .inr ⟨source, rfl⟩

theorem prepare_moves (contract : Descriptor) : Generation.Moves (prepare contract) := by
  intro p
  rcases prepare_cases contract p with ⟨f, ran⟩ | ⟨registry, made, ⟨e, ran⟩ | ⟨source, ran⟩⟩
  · rw [ran]
    exact .refl p
  · rw [ran]
    refine ⟨rfl, .refl _, fun _ => .update fun r same => ?_⟩
    rw [same]
    exact (defineMatching_ok made).1
  · rw [ran]
    refine ⟨rfl, .refl _, fun _ => ?_⟩
    refine .trans (.update fun r same => ?_) (.update fun r _ => extends_foldl _ r)
    rw [same]
    exact (defineMatching_ok made).1

/-- A contract that a source has been made for is what its name is declared as. -/
theorem prepare_declares {p q : Generator × Store} {source : ClassSource}
    (exists_ : p.1.registry < p.2.registries.size) (ran : prepare contract p = (.ok source, q)) :
    (q.2.registry q.1.registry).table.lookup contract.name = some contract := by
  rcases prepare_cases contract p with ⟨f, ended⟩ | ⟨registry, made, ⟨e, ended⟩ | ⟨source, ended⟩⟩
  · rw [ended] at ran
    cases ran
  · rw [ended] at ran
    cases ran
  · rw [ended] at ran
    cases ran
    have declared := (defineMatching_ok made).2
    refine (Store.KeepsTypes.update fun r _ => extends_foldl _ r).types p.1.registry _ _ ?_
    unfold Store.registry Store.updateRegistry
    dsimp only
    rw [Array.getElem?_modify, if_pos rfl, Array.getElem?_eq_getElem exists_]
    exact declared

/-- What the compiler has answered and left. -/
def compiled (source : ClassSource) : CompileOutcome × FileTree → Except Stop FileTree
  | (.broken f, _) => .error (.failed (.file f))
  | (.failed diagnostics, _) => .error (.failed (.compilation source.className diagnostics))
  | (.succeeded, files) => .ok files

/-- Compilation fails before the compiler is asked, or ends as the compiler has answered. -/
theorem compile_eq (source : ClassSource) (g : Generator) (s : Store) :
    compile source (g, s) = match g.layOut source with
      | .error f => (.error (.failed (.file f)), { g with workplaces := g.workplaces + 1 }, s)
      | .ok files => (compiled source (g.compiler g.compilations
          ⟨(s.registry g.registry).table, g.entries, g.workplace.join [source.fileName]⟩ files),
        { g with workplaces := g.workplaces + 1, compilations := g.compilations + 1 }, s) := by
  rw [compile, get_bind]
  cases laidOut : g.layOut source with
  | error f =>
    dsimp only
    rw [modifyGenerator_bind]
    dsimp only
    rw [laidOut]
    rfl
  | ok files =>
    dsimp only
    rw [modifyGenerator_bind]
    dsimp only
    rw [laidOut]
    dsimp only
    generalize g.compiler g.compilations _ _ = answer
    obtain ⟨outcome, files⟩ := answer
    cases outcome <;> rfl

/-- Compilation counts and touches nothing else. -/
theorem compile_ends (source : ClassSource) (g : Generator) (s : Store) :
    ∃ result compilations, compile source (g, s) = (result,
      { g with workplaces := g.workplaces + 1, compilations := compilations }, s) := by
  rw [compile_eq]
  cases g.layOut source with
  | error f => exact ⟨_, _, rfl⟩
  | ok files => exact ⟨_, _, rfl⟩

theorem compile_moves (source : ClassSource) : Generation.Moves (compile source) := by
  intro p
  obtain ⟨result, compilations, ran⟩ := compile_ends source p.1 p.2
  rw [ran]
  exact ⟨rfl, .refl _, fun _ => .refl _⟩

/-- What the loader gives is asked to stand below the contract. -/
def asking (contract : Descriptor) (className : String) (loading : Run LoadedClass) :
    Generation LoadedClass := do
  let c ← onStore loading
  let tables ← onStore Run.tables
  if c.isSubtypeOf tables contract.name then return c
  else Generation.fail (.load className (.notImplementing contract.name))

theorem load_eq (contract : Descriptor) (className : String) (files : FileTree) (g : Generator)
    (s : Store) : load contract className files (g, s) = asking contract className
      (g.loader g.loads ⟨files, g.workplace, className, g.registry⟩)
        ({ g with loads := g.loads + 1 }, s) := rfl

/-- How loading ends: as the loader fails, or with its class if that stands below the contract. -/
theorem load_cases (contract : Descriptor) (className : String) (files : FileTree) (g : Generator)
    (s : Store) :
    ∃ s', s' = (g.loader g.loads ⟨files, g.workplace, className, g.registry⟩ s).2 ∧
      ((∃ stop, load contract className files (g, s)
        = (.error stop, { g with loads := g.loads + 1 }, s')) ∨
      ∃ c, c.isSubtypeOf s'.tables contract.name = true ∧ load contract className files (g, s)
        = (.ok c, { g with loads := g.loads + 1 }, s')) := by
  rw [load_eq, asking]
  cases loaded : g.loader g.loads ⟨files, g.workplace, className, g.registry⟩ s with
  | mk result s' =>
    refine ⟨s', rfl, ?_⟩
    cases result with
    | error stop => exact .inl ⟨stop, bind_error (onStore_error loaded _)⟩
    | ok c =>
      rw [bind_value (onStore_value loaded _)]
      rw [onStore_tables_bind]
      split
      · rename_i below
        exact .inr ⟨c, below, rfl⟩
      · exact .inl ⟨_, rfl⟩

theorem load_moves (contract : Descriptor) (className : String) (files : FileTree) :
    Generation.Moves (load contract className files) := by
  intro p
  obtain ⟨s', left, ⟨stop, ran⟩ | ⟨c, _, ran⟩⟩ :=
    load_cases contract className files p.1 p.2
  · rw [ran]
    exact ⟨rfl, .refl _, fun keeps => left ▸ keeps ..⟩
  · rw [ran]
    exact ⟨rfl, .refl _, fun keeps => left ▸ keeps ..⟩

theorem generate_moves (contract : Descriptor) : Generation.Moves (generate contract) :=
  (prepare_moves contract).bind fun source =>
    (compile_moves source).bind fun files => load_moves contract _ files

end

/-! ### Generation and the cache -/

/-- The generator and the store, with another cache. -/
def recached (k : Cache) (p : Generator × Store) : Generator × Store :=
  ({ p.1 with cache := k }, p.2)

/-- Generation that does not look at the cache and leaves it as it is. -/
def Generation.Blind {α : Type} (body : Generation α) : Prop :=
  ∀ k p, body (recached k p) = ((body p).1, recached k (body p).2)

theorem Generation.Blind.bind {α β : Type} {body : Generation α} {next : α → Generation β}
    (h : Generation.Blind body) (hnext : ∀ a, Generation.Blind (next a)) :
    Generation.Blind (body >>= next) := by
  intro k p
  have blind := h k p
  cases ran : body p with
  | mk result q =>
    rw [ran] at blind
    cases result with
    | error stop => rw [bind_error ran, bind_error blind]
    | ok a => rw [bind_value ran, bind_value blind, hnext a k q]

theorem Generation.Blind.cache {α : Type} {body : Generation α} (h : Generation.Blind body)
    (p : Generator × Store) : (body p).2.1.cache = p.1.cache :=
  congrArg (fun ended => ended.2.1.cache) (h p.1.cache p)

theorem prepare_blind (contract : Descriptor) : Generation.Blind (prepare contract) := by
  intro k p
  obtain ⟨g, s⟩ := p
  rw [prepare, get_bind, get_bind]
  dsimp only [recached]
  cases (s.registry g.registry).defineMatching contract with
  | error f => rfl
  | ok registry =>
    have same : ({ g with cache := k } : Generator).source contract = g.source contract := rfl
    dsimp only
    rw [same]
    cases g.source contract with
    | error e => rfl
    | ok source => rfl

theorem compile_blind (source : ClassSource) : Generation.Blind (compile source) := by
  intro k p
  obtain ⟨g, s⟩ := p
  rw [recached, compile_eq, compile_eq]
  change (match g.layOut source with
    | .error f => _
    | .ok files => _) = _
  cases g.layOut source with
  | error f => rfl
  | ok files => rfl

theorem load_blind (contract : Descriptor) (className : String) (files : FileTree) :
    Generation.Blind (load contract className files) := by
  intro k p
  obtain ⟨g, s⟩ := p
  have onStore_ : ∀ {α : Type} (body : Run α), Generation.Blind (onStore body) :=
    fun _ _ _ => rfl
  have blind : ∀ loading, Generation.Blind (asking contract className loading) := fun loading =>
    (onStore_ loading).bind fun c => (onStore_ Run.tables).bind fun tables => by
      split
      · exact fun _ _ => rfl
      · exact fun _ _ => rfl
  exact blind _ k ({ g with loads := g.loads + 1 }, s)

/-- Generation neither asks what is in the cache nor changes it. -/
theorem generate_blind (contract : Descriptor) : Generation.Blind (generate contract) :=
  (prepare_blind contract).bind fun source =>
    (compile_blind source).bind fun files => load_blind contract _ files

/-- The contract is what its name is declared as, and the class stands below it. -/
structure Stands (p : Generator × Store) (contract : Descriptor) (c : LoadedClass) : Prop where
  declared : (p.2.registry p.1.registry).table.lookup contract.name = some contract
  below : c.isSubtypeOf p.2.tables contract.name = true

theorem Stands.keep {p q : Generator × Store} {contract : Descriptor} {c : LoadedClass}
    (h : Stands p contract c) (same : q.1.registry = p.1.registry) (kept : p.2.KeepsTypes q.2) :
    Stands q contract c where
  declared := by
    rw [same]
    exact kept.types _ _ _ h.declared
  below := kept.isSubtypeOf h.below

theorem generate_stands {contract : Descriptor} {p q : Generator × Store} {c : LoadedClass}
    (keeps : p.1.loader.Keeps) (registered : p.1.registry < p.2.registries.size)
    (ran : generate contract p = (.ok c, q)) : Stands q contract c := by
  obtain ⟨source, p₁, prepared, ran⟩ := bind_ok ran
  obtain ⟨files, p₂, compiled, ran⟩ := bind_ok ran
  have step₁ : Moves p p₁ := by
    have moved := prepare_moves contract p
    rwa [prepared] at moved
  have step₂ : Moves p₁ p₂ := by
    have moved := compile_moves source p₁
    rwa [compiled] at moved
  have step₃ : Moves p₂ q := by
    have moved := load_moves contract source.className files p₂
    rwa [ran] at moved
  have declared := prepare_declares registered prepared
  have rest : Moves p₁ q := step₂.trans step₃
  constructor
  · rw [rest.registry]
    exact (rest.types (by rw [step₁.loader]; exact keeps)).types _ _ _ declared
  · obtain ⟨s', left, ⟨stop, ended⟩ | ⟨d, below, ended⟩⟩ :=
      load_cases contract source.className files p₂.1 p₂.2
    · rw [ended] at ran
      cases ran
    · rw [ended] at ran
      cases ran
      exact below

end Classwright
