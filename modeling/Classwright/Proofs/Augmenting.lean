import Classwright.Proofs.Answering

/-!
# Making proxies, step by step

Resolving a contract and making a proxy goes by steps that any host may take: types are declared, a
class is linked, an object is made, and then the fields of that object are set, which is nobody
else's yet. So whatever has been pinned of older objects stays as it is.
-/

namespace Classwright

open Check Generation
open Relation (ReflTransGen)

/-! ### Steps that set fields of new objects only -/

namespace World

/-- A step of a host that sets fields of no object that `old` has. -/
inductive Fills (old : World) : World × Store → World × Store → Prop
  | step {before after : World × Store} : Step before after → Fills old before after
  | set {W : World} {s : Store} (h : FieldHandle) {o : Object} {v : Value} : W.HasObject o →
      (∀ p, old.HasObject p → p.id - 1 ≠ o.id - 1) → W.Knows v →
      Fills old (W, s) (W, (h.set o v s).2)

/-- Any number of such steps. -/
def Filling (old : World) : World × Store → World × Store → Prop := ReflTransGen (Fills old)

/-- What is pinned belongs to objects of the world. -/
def Pinned (W : World) (P : Pins) : Prop :=
  ∀ n slot v, P.field n slot = some v → ∃ p, W.HasObject p ∧ p.id - 1 = n

section

variable {old W : World} {P : Pins} {s : Store} {before after : World × Store}

theorem Fills.sealed (fills : Fills old before after) (pinned : old.Pinned P)
    (guards : before.1.Guards P) (hs : before.1.Sealed P before.2) :
    after.1.Guards P ∧ after.1.Sealed P after.2 := by
  cases fills with
  | step step => exact step.sealed guards hs
  | @set W s h o v ho new hv =>
    have free : ∀ slot, P.field (o.id - 1) slot = none := by
      intro slot
      rw [Option.eq_none_iff_forall_ne_some]
      intro w there
      obtain ⟨p, hp, same⟩ := pinned _ slot w there
      exact new p hp same
    exact ⟨guards, (sealed_set guards h ho free hv s hs).1⟩

theorem Fills.partOf (fills : Fills old before after) (hs : before.1.Sealed P before.2) :
    before.1.PartOf after.1 := by
  cases fills with
  | step step => exact step.partOf hs
  | set h ho new hv => exact .refl

theorem Filling.sealed (filling : Filling old before after) (pinned : old.Pinned P)
    (guards : before.1.Guards P) (hs : before.1.Sealed P before.2) :
    after.1.Guards P ∧ after.1.Sealed P after.2 := by
  induction filling with
  | refl => exact ⟨guards, hs⟩
  | tail _ fills ih => exact fills.sealed pinned ih.1 ih.2

theorem Filling.partOf (filling : Filling old before after) (pinned : old.Pinned P)
    (guards : before.1.Guards P) (hs : before.1.Sealed P before.2) :
    before.1.PartOf after.1 := by
  induction filling with
  | refl => exact .refl
  | tail earlier fills ih =>
    exact ih.trans (fills.partOf (Filling.sealed earlier pinned guards hs).2)

theorem Later.filling (later : Later before after) : Filling old before after := by
  induction later with
  | refl => exact .refl
  | tail _ step ih => exact ih.tail (.step step)

theorem pinned_nothing : W.Pinned .nothing := nofun

end

/-! ### Resolving -/

section

variable {W : World} {s : Store}

/-- Declaring types leaves all native code as it is. -/
theorem TruthfulRegistries.declaring {g : Generator} (natives : W.TruthfulRegistries s)
    (types : List Descriptor) : W.TruthfulRegistries (declaring types (g, s)).2 := by
  have hosts : ∀ r : Registry, (types.foldl Registry.defineIfAbsent r).hosts = r.hosts := by
    intro r
    induction types generalizing r with
    | nil => rfl
    | cons d types ih => exact ih (r.defineIfAbsent d)
  have same : ∀ id, ((Classwright.declaring types (g, s)).2.registry id).hosts
      = (s.registry id).hosts := by
    intro id
    unfold Classwright.declaring Store.updateRegistry Store.registry
    dsimp only
    rw [Array.getElem?_modify]
    split
    · rename_i at_
      subst at_
      cases s.registries[g.registry]? with
      | none => rfl
      | some r => exact hosts r
    · rfl
  intro id type method arity code found
  unfold Registry.native? at found
  rw [same id] at found
  exact natives id type method arity code found

theorem prepare_later (natives : W.TruthfulRegistries s) (contract : Descriptor) (g : Generator) :
    Later (W, s) (W, (prepare contract (g, s)).2.2) := by
  cases made : (s.registry g.registry).defineMatching contract with
  | error f =>
    rw [prepare_refused (p := (g, s)) made]
    exact .refl
  | ok r =>
    rw [prepare_ok (p := (g, s)) made]
    exact .single (.register (natives.declaring _))

/-- Whether or not a class can be linked, the world goes on with it. -/
theorem link_later (W : World) (s : Store) (code : Code.Class) (id depth : Nat) :
    ∃ W', Later (W, s) (W', (link code id depth s).2) ∧
      ∀ c, (link code id depth s).1 = .ok c → W'.classes c.id = some c := by
  cases unknown : (code.superclass :: code.interfaces).find? fun t => !(s.tables id).resolves t with
  | some t =>
    refine ⟨W, ?_, ?_⟩ <;> rw [link_unfold, unknown]
    · exact .refl
    · exact nofun
  | none =>
    have resolved : ∀ t ∈ code.superclass :: code.interfaces, (s.tables id).resolves t = true := by
      intro t member
      simpa using List.find?_eq_none.1 unknown t member
    have step : Step (W, s) (W.withClass ⟨s.statics.size, code, id, depth⟩, _) :=
      .link (fun _ _ _ _ => false) unlimited resolved
    rw [Calls.cutShort_never] at step
    refine ⟨_, .single step, fun c linked => ?_⟩
    rw [link_value (Prod.ext linked rfl)]
    exact W.classes_withClass _

theorem load_later (W : World) (s : Store) {g : Generator} (scripted : g.Scripted)
    (contract : Descriptor) (className : String) (files : FileTree) :
    ∃ W', Later (W, s) (W', (load contract className files (g, s)).2.2) ∧
      ∀ c, (load contract className files (g, s)).1 = .ok c → W'.classes c.id = some c := by
  obtain ⟨depth, loader⟩ := scripted.loader
  let request : LoadRequest := ⟨files, g.workplace, className, g.registry⟩
  have loaded : ∃ W', Later (W, s) (W', (g.loader g.loads request s).2) ∧
      ∀ c, (g.loader g.loads request s).1 = .ok c → W'.classes c.id = some c := by
    rw [loader]
    unfold unitLoader
    cases readUnit request.files request.directory request.className with
    | error f => exact ⟨W, .refl, nofun⟩
    | ok code => exact link_later W s code g.registry depth
  obtain ⟨W', later, known⟩ := loaded
  refine ⟨W', ?_, fun c ran => ?_⟩
  · obtain ⟨s', rfl, ⟨stop, ran⟩ | ⟨c, _, ran⟩⟩ := load_cases contract className files g s
    · rw [ran]
      exact later
    · rw [ran]
      exact later
  · have ended := load_value (Prod.ext ran rfl)
    exact known c (congrArg Prod.fst ended.1)

theorem generate_later (natives : W.TruthfulRegistries s) {g : Generator} (scripted : g.Scripted)
    (contract : Descriptor) :
    ∃ W', Later (W, s) (W', (generate contract (g, s)).2.2) ∧
      ∀ c, (generate contract (g, s)).1 = .ok c → W'.classes c.id = some c := by
  have prepared := prepare_later natives contract g
  cases ran : prepare contract (g, s) with
  | mk result q =>
    rw [ran] at prepared
    cases result with
    | error stop =>
      rw [generate, bind_error ran]
      exact ⟨W, prepared, by rintro _ ⟨⟩⟩
    | ok source =>
      obtain ⟨_, rfl⟩ := prepare_value ran
      rw [generate, bind_value ran]
      obtain ⟨answer, compilations, compiled_⟩ := compile_ends source
        (declaring (g.needs contract) (g, s)).1 (declaring (g.needs contract) (g, s)).2
      cases answer with
      | error stop =>
        rw [bind_error compiled_]
        exact ⟨W, prepared, by rintro _ ⟨⟩⟩
      | ok files =>
        rw [bind_value compiled_]
        obtain ⟨W', later, known⟩ := load_later W (declaring (g.needs contract) (g, s)).2
          (g := { g with workplaces := g.workplaces + 1, compilations := compilations })
          ⟨scripted.compiler, scripted.loader⟩ contract source.className files
        exact ⟨W', prepared.trans later, known⟩

theorem instantiate_later {c : LoadedClass} (hc : W.classes c.id = some c) (s : Store) :
    ∃ W', Later (W, s) (W', (c.instantiate s).2) ∧ ∀ o, (c.instantiate s).1 = .ok o →
      W'.HasObject o ∧ o.id = s.objects.size + 1 := by
  have store : (c.instantiate s).2 = (construct (.within unlimited) c s).2 := rfl
  cases found : c.code.constructors.find? (·.params.isEmpty) with
  | none =>
    refine ⟨W, ?_, fun o made => ?_⟩
    · rw [store]
      unfold construct
      rw [found]
      exact .refl
    · rw [instantiate_none found] at made
      cases made
  | some k =>
    by_cases hidden : k.visibility = .hidden
    · refine ⟨W, ?_, fun o made => ?_⟩
      · rw [store]
        unfold construct
        rw [found]
        dsimp only
        rw [if_pos hidden]
        exact .refl
      · rw [instantiate_hidden found hidden] at made
        cases made
    · have step := Step.instantiate (s := s) (fun _ _ _ _ => false) unlimited hc found hidden
      rw [Calls.cutShort_never, ← store] at step
      refine ⟨_, .single step, fun o made => ?_⟩
      obtain ⟨rfl, _⟩ := step_of_instantiate hc (Prod.ext made rfl)
      exact ⟨W.hasObject_withObject _, rfl⟩

/-- The world knows the classes that the generator has resolved contracts to. -/
def KnowsCached (W : World) (g : Generator) : Prop :=
  ∀ contract c, g.cached? contract = some c → W.classes c.id = some c

theorem KnowsCached.grow {W' : World} (part : W.PartOf W') {g : Generator}
    (known : W.KnowsCached g) : W'.KnowsCached g :=
  fun contract c found => part.classes _ _ (known contract c found)

theorem resolve_later (guards : W.Guards .nothing) (hs : W.Sealed .nothing s) {g : Generator}
    (scripted : g.Scripted) (cached : W.KnowsCached g) (contract : Descriptor) :
    ∃ W', Later (W, s) (W', (resolve contract (g, s)).2.2) ∧
      W'.KnowsCached (resolve contract (g, s)).2.1 ∧
      ∀ c, (resolve contract (g, s)).1 = .ok c → W'.classes c.id = some c := by
  cases implementable : contract.isContract with
  | false =>
    rw [resolve_refused implementable]
    exact ⟨W, .refl, cached, nofun⟩
  | true =>
    cases looked : g.cached? contract with
    | some c =>
      rw [resolve_cached (p := (g, s)) implementable looked]
      refine ⟨W, .refl, cached, ?_⟩
      rintro _ ⟨⟩
      exact cached contract c looked
    | none =>
      rw [resolve_missing (p := (g, s)) implementable looked]
      obtain ⟨W', later, known⟩ := generate_later hs.natives scripted contract
      have moved := generate_moves contract (g, s)
      have cached' := cached.grow (later.partOf guards hs)
      cases ran : generate contract (g, s) with
      | mk result q =>
        rw [ran] at later known moved
        cases result with
        | error stop =>
          refine ⟨W', later, fun other d found => cached' other d ?_, by rintro _ ⟨⟩⟩
          exact ((Cache.sheds_dismiss ..).content? other).symm.trans found
        | ok c =>
          refine ⟨W', later, fun other d found => ?_, known⟩
          rw [Generator.cached?_remember, moved.cached?] at found
          split at found
          · cases found
            exact known c rfl
          · exact cached' other d found

theorem newInstance_later (guards : W.Guards .nothing) (hs : W.Sealed .nothing s) {g : Generator}
    (scripted : g.Scripted) (cached : W.KnowsCached g) (contract : Descriptor) :
    ∃ W', Later (W, s) (W', (newInstance contract (g, s)).2.2) ∧
      W'.KnowsCached (newInstance contract (g, s)).2.1 ∧
      ∀ o, (newInstance contract (g, s)).1 = .ok o →
        W'.HasObject o ∧ ∀ p, W.HasObject p → p.id - 1 ≠ o.id - 1 := by
  obtain ⟨W₁, resolving, cached₁, known⟩ := resolve_later guards hs scripted cached contract
  obtain ⟨guards₁, hs₁⟩ := resolving.sealed guards hs
  cases ran : resolve contract (g, s) with
  | mk result q =>
    obtain ⟨g', t⟩ := q
    rw [ran] at resolving cached₁ known hs₁
    cases result with
    | error stop =>
      rw [newInstance, bind_error ran]
      exact ⟨W₁, resolving, cached₁, by rintro _ ⟨⟩⟩
    | ok c =>
      rw [newInstance, bind_value ran]
      obtain ⟨W₂, making, new⟩ := instantiate_later (known c rfl) t
      have cached₂ := cached₁.grow (making.partOf guards₁ hs₁)
      cases made : c.instantiate t with
      | mk result u =>
        rw [made] at making new
        cases result with
        | error stop =>
          rw [bind_error (onStore_error made g')]
          exact ⟨W₂, resolving.trans making, cached₂, by rintro _ ⟨⟩⟩
        | ok o =>
          rw [bind_value (onStore_value made g'), onStore_tables_bind]
          obtain ⟨ho, number⟩ := new o rfl
          have unused : ∀ p, W.HasObject p → p.id - 1 ≠ o.id - 1 := by
            intro p hp same
            have stored := (hs₁.object ((resolving.partOf guards hs).objects p hp)).1
            rw [same, number, Nat.add_sub_cancel, Array.getElem?_eq_none (Nat.le_refl _)] at stored
            cases stored
          split
          · refine ⟨W₂, resolving.trans making, cached₂, ?_⟩
            rintro _ ⟨⟩
            exact ⟨ho, unused⟩
          · exact ⟨W₂, resolving.trans making, cached₂, by rintro _ ⟨⟩⟩

/-! ### Filling fields -/

theorem patchField_fills {old : World} {o : Object} (ho : W.HasObject o)
    (new : ∀ p, old.HasObject p → p.id - 1 ≠ o.id - 1) (name : String) {v : Value}
    (hv : W.Knows v) (s : Store) :
    Filling old (W, s) (W, (patchField o name v s).2) := by
  unfold patchField
  cases o.cls.declaredField name with
  | error f => exact .refl
  | ok handle => exact .single (.set (handle.grant.2) ho new hv)

theorem patchAll_fills {old : World} {o : Object} (ho : W.HasObject o)
    (new : ∀ p, old.HasObject p → p.id - 1 ≠ o.id - 1) {fields : List (String × Value)}
    (known : ∀ f ∈ fields, W.Knows f.2) (s : Store) :
    Filling old (W, s) (W, (patchAll o fields s).2) := by
  induction fields generalizing s with
  | nil => exact .refl
  | cons f fields ih =>
    obtain ⟨name, v⟩ := f
    have first := patchField_fills ho new name (known _ List.mem_cons_self) s
    change Filling old (W, s) (W, ((patchField o name v >>= fun _ => patchAll o fields) s).2)
    cases ran : patchField o name v s with
    | mk result t =>
      rw [ran] at first
      cases result with
      | error stop =>
        rw [Run.bind_stop ran]
        exact first
      | ok _ =>
        rw [Run.bind_value ran]
        exact first.trans (ih (fun g member => known g (List.mem_cons_of_mem _ member)) t)

/-- Making a proxy goes by such steps, whether or not it succeeds. -/
theorem augment_fills (guards : W.Guards .nothing) (hs : W.Sealed .nothing s) {g : Generator}
    (scripted : g.Scripted) (cached : W.KnowsCached g) (contract : Descriptor) (handler : Nat) :
    ∃ W', Filling W (W, s) (W', (augment contract handler (g, s)).2.2) ∧
      W'.KnowsCached (augment contract handler (g, s)).2.1 ∧
      ∀ p, (augment contract handler (g, s)).1 = .ok p → W'.HasObject p := by
  cases isInterface : contract.isInterface with
  | false =>
    unfold augment
    rw [isInterface]
    exact ⟨W, .refl, cached, nofun⟩
  | true =>
    have parts : augment contract handler (g, s) = (newInstance contract >>= fun o =>
        onStore (patchAll o (proxyFields contract handler)) >>= fun _ => pure o) (g, s) := by
      unfold augment
      rw [isInterface]
      rfl
    obtain ⟨W', making, cached', known⟩ := newInstance_later guards hs scripted cached contract
    rw [parts]
    cases ran : newInstance contract (g, s) with
    | mk result q =>
      obtain ⟨g', t⟩ := q
      rw [ran] at making cached' known
      cases result with
      | error stop =>
        rw [bind_error ran]
        exact ⟨W', making.filling, cached', nofun⟩
      | ok o =>
        obtain ⟨ho, new⟩ := known o rfl
        have values : ∀ f ∈ proxyFields contract handler, W'.Knows f.2 := by
          rw [← Delegation.contents_patches]
          intro f member
          obtain ⟨p, there, rfl⟩ := List.mem_map.1 member
          rcases List.mem_cons.1 there with rfl | there
          · trivial
          · rcases List.mem_cons.1 there with rfl | there
            · trivial
            · obtain ⟨m, _, rfl⟩ := List.mem_map.1 there
              trivial
        have filling := patchAll_fills ho new values t
        rw [bind_value ran]
        cases filled : patchAll o (proxyFields contract handler) t with
        | mk result u =>
          rw [filled] at filling
          cases result with
          | error stop =>
            rw [bind_error (onStore_error filled g')]
            exact ⟨W', making.filling.trans filling, cached', nofun⟩
          | ok _ =>
            rw [bind_value (onStore_value filled g')]
            refine ⟨W', making.filling.trans filling, cached', ?_⟩
            rintro _ ⟨⟩
            exact ho

end

end World

end Classwright
