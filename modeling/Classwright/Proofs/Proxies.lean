import Classwright.Proofs.Augmenting

/-!
# What a proxy holds, it keeps

A history is what a host does with any number of builders of proxies: it makes proxies, has classes
generated, invokes methods of anything, sets fields of all objects but the proxies. The methods of a
proxy store nothing, and nobody else stores its fields; so each proxy holds at every point of the
history what it was made with.
-/

namespace Classwright

open Check
open Relation (ReflTransGen)

/-- An object with what it was made for: to pass the calls of a contract on to a handler. -/
structure Proxy where
  contract : Descriptor
  handler : Nat
  object : Object

namespace Proxy

/-- The proxies after one more was asked for. -/
def bound (contract : Descriptor) (handler : Nat) (result : Except Stop Object)
    (made : List Proxy) : List Proxy :=
  match result with
  | .ok o => ⟨contract, handler, o⟩ :: made
  | .error _ => made

/-- The class of the proxy delegates, and its fields hold what it was made with. -/
def Intact (p : Proxy) (s : Store) : Prop :=
  Delegation.Generated p.contract p.object.cls.maxCallDepth p.object.cls ∧
    s.fields p.object = Delegation.holdings p.contract p.handler

end Proxy

/-! ### Objects that nobody stores to -/

/-- All fields of the object, with these values. -/
def Pins.allOf (o : Object) (values : List Value) : Pins where
  field n slot := if n = o.id - 1 then values[slot]? else none
  static _ _ := none

namespace Delegation

variable {contract : Descriptor}

theorem accesses_vars (arity : Nat) :
    ∀ a ∈ Code.Expr.allAccesses ((List.range arity).map .var), ∃ slot, a = .read .local_ slot := by
  induction List.range arity with
  | nil => exact nofun
  | cons slot slots ih =>
    intro a member
    rcases List.mem_cons.1 member with rfl | member
    · exact ⟨slot, rfl⟩
    · exact ih a member

/-- The methods of a delegating class store no field. -/
theorem stores_nothing (slot : Nat) : ¬ (code contract).StoresField slot := by
  rintro ⟨method, member, scope, stored⟩
  obtain ⟨m, _, rfl⟩ := List.mem_map.1 member
  have ofCall : Code.Stmt.allAccesses scope (methodCode contract m).body
      = (callCode (methodSlot contract m) m.arity).accesses := by
    change Code.Stmt.allAccesses scope
      [answerCode m.returnType (callCode (methodSlot contract m) m.arity)] = _
    cases m.returnType with
    | void => exact List.append_nil _
    | _ =>
      unfold answerCode
      dsimp only
      split <;> exact List.append_nil _
  rw [ofCall, callCode, Code.Expr.accesses, Code.Expr.allAccesses, Code.Expr.allAccesses] at stored
  simp only [Code.Expr.accesses, List.mem_append, List.mem_singleton, reduceCtorEq, or_false,
    false_or] at stored
  obtain ⟨_, same⟩ := accesses_vars _ _ stored
  cases same

end Delegation

namespace World

variable {W W' : World} {s s' : Store} {o : Object}

theorem Guards.pinAll (guards : W.Guards .nothing) (hs : W.Sealed .nothing s) (ho : W.HasObject o)
    (stores : ∀ slot, ¬ o.cls.code.StoresField slot) (values : List Value) :
    W.Guards (.allOf o values) where
  positive := guards.positive
  numbered := guards.numbered
  instances := guards.instances
  classes := fun _ _ _ _ _ => rfl
  objects := by
    rintro p hp slot stored
    refine if_neg fun same => ?_
    exact stores slot (hs.cls_eq guards.instances ho hp same ▸ stored)

theorem Sealed.pinAll (hs : W.Sealed .nothing s) (ho : W.HasObject o) :
    W.Sealed (.allOf o (s.fields o)) s where
  natives := hs.natives
  handlers := hs.handlers
  fields := hs.fields
  statics := hs.statics
  static := nofun
  field := by
    intro n slot v pinned
    obtain ⟨rfl, there⟩ := Option.ite_none_right_eq_some.1 pinned
    exact ⟨_, (hs.object ho).1, there⟩

theorem pinned_allOf (ho : W.HasObject o) (values : List Value) : W.Pinned (.allOf o values) := by
  intro n slot v pinned
  obtain ⟨rfl, _⟩ := Option.ite_none_right_eq_some.1 pinned
  exact ⟨o, ho, rfl⟩

/-- Where all fields of an object are pinned, it holds what it held. -/
theorem Sealed.fields_eq {values : List Value} (hs : W.Sealed (.allOf o values) s)
    (ho : W.HasObject o) (length : values.length = o.cls.code.fields.length) :
    s.fields o = values := by
  refine List.ext_getElem? fun slot => ?_
  cases there : values[slot]? with
  | none =>
    have outside := List.getElem?_eq_none_iff.1 there
    rw [length, ← (hs.object ho).2.length] at outside
    exact List.getElem?_eq_none outside
  | some v =>
    obtain ⟨stored, found, held⟩ := hs.field (o.id - 1) slot v ((if_pos rfl).trans there)
    rw [(hs.object ho).1, Option.some.injEq] at found
    subst found
    exact held

/-- Steps that set fields of newer objects only leave an object as it is whose class stores no
field. -/
theorem Filling.fields_eq {old : World} (filling : Filling old (W, s) (W', s'))
    (guards : W.Guards .nothing) (hs : W.Sealed .nothing s) (older : old.HasObject o)
    (ho : W.HasObject o) (stores : ∀ slot, ¬ o.cls.code.StoresField slot) :
    s'.fields o = s.fields o := by
  have pinned := filling.sealed (pinned_allOf older _) (guards.pinAll hs ho stores _) (hs.pinAll ho)
  have part := filling.partOf pinned_nothing guards hs
  exact pinned.2.fields_eq (part.objects o ho) (hs.object ho).2.length

/-! ### Histories -/

/-- The stores that a host comes to with builders of proxies, which are new to begin with; the
builders as they are then, and the proxies that have been made. -/
inductive Proxied : World → (Nat → Generator) → Store → List Proxy → Prop
  | start {W : World} {s : Store} {builders : Nat → Generator} : W.Arises s →
      (∀ i, ∃ depth, (builders i).Delegates depth) → (∀ i, (builders i).cache = {}) →
      Proxied W builders s []
  | step {W W' : World} {s s' : Store} {builders : Nat → Generator} {made : List Proxy} :
      Proxied W builders s made → Step (W, s) (W', s') → Proxied W' builders s' made
  | set {W : World} {s : Store} {builders : Nat → Generator} {made : List Proxy}
      {h : FieldHandle} {o : Object} {v : Value} : Proxied W builders s made →
      W.HasObject o → W.Knows v → (∀ p ∈ made, o.id ≠ p.object.id) →
      Proxied W builders (h.set o v s).2 made
  | resolve {W W' : World} {s s' : Store} {builders : Nat → Generator} {made : List Proxy}
      {i : Nat} {contract : Descriptor} {result : Except Stop LoadedClass} {g : Generator} :
      Proxied W builders s made →
      Classwright.resolve contract (builders i, s) = (result, g, s') →
      Later (W, s) (W', s') → W'.KnowsCached g →
      Proxied W' (Function.update builders i g) s' made
  | augment {W W' : World} {s s' : Store} {builders : Nat → Generator} {made : List Proxy}
      {i : Nat} {contract : Descriptor} {handler : Nat} {result : Except Stop Object}
      {g : Generator} : Proxied W builders s made →
      Classwright.augment contract handler (builders i, s) = (result, g, s') →
      Filling W (W, s) (W', s') → W'.KnowsCached g → (∀ o, result = .ok o → W'.HasObject o) →
      Proxied W' (Function.update builders i g) s' (Proxy.bound contract handler result made)

/-- What is so at every point of a history. -/
structure Keeps (W : World) (builders : Nat → Generator) (s : Store) (made : List Proxy) :
    Prop where
  guards : W.Guards .nothing
  store : W.Sealed .nothing s
  serves : ∀ i, ∃ depth, (builders i).Serves depth
  cached : ∀ i, W.KnowsCached (builders i)
  known : ∀ p ∈ made, W.HasObject p.object
  intact : ∀ p ∈ made, Delegation.Legal p.contract → p.Intact s

variable {builders : Nat → Generator} {made : List Proxy}

/-- Proxies stay as they are however a world goes on without setting their fields. -/
theorem Keeps.filling (keeps : Keeps W builders s made) (filling : Filling W (W, s) (W', s')) :
    W'.Guards .nothing ∧ W'.Sealed .nothing s' ∧ (∀ i, W'.KnowsCached (builders i)) ∧
      (∀ p ∈ made, W'.HasObject p.object) ∧
      ∀ p ∈ made, Delegation.Legal p.contract → p.Intact s' := by
  have after := filling.sealed pinned_nothing keeps.guards keeps.store
  have part := filling.partOf pinned_nothing keeps.guards keeps.store
  refine ⟨after.1, after.2, fun i => (keeps.cached i).grow part,
    fun p member => part.objects _ (keeps.known p member), fun p member legal => ?_⟩
  obtain ⟨generated, holds⟩ := keeps.intact p member legal
  have known := keeps.known p member
  have stores : ∀ slot, ¬ p.object.cls.code.StoresField slot := by
    rw [generated.code]
    exact Delegation.stores_nothing
  refine ⟨generated, ?_⟩
  rw [filling.fields_eq keeps.guards keeps.store known known stores, holds]

theorem Proxied.keeps (history : Proxied W builders s made) : Keeps W builders s made := by
  induction history with
  | start arises delegates unused =>
    refine ⟨arises.sealed.1, arises.sealed.2, fun i => ?_, fun i => ?_, nofun, nofun⟩
    · refine (delegates i).imp fun depth delegates => ⟨delegates, fun contract c found => ?_⟩
      rw [Generator.cached?_fresh (unused i)] at found
      cases found
    · intro contract c found
      rw [Generator.cached?_fresh (unused i)] at found
      cases found
  | step _ step ih =>
    obtain ⟨guards, store, cached, known, intact⟩ := ih.filling (.single (.step step))
    exact ⟨guards, store, ih.serves, cached, known, intact⟩
  | @set W s builders made h o v _ ho hv other ih =>
    refine ⟨ih.guards, (sealed_set ih.guards h ho (fun _ => rfl) hv s ih.store).1, ih.serves,
      ih.cached, ih.known, fun p member legal => ?_⟩
    obtain ⟨generated, holds⟩ := ih.intact p member legal
    have known := ih.known p member
    have free : ∀ slot, (Pins.allOf p.object (s.fields p.object)).field (o.id - 1) slot = none := by
      refine fun slot => if_neg fun same => other p member ?_
      have positive := ih.guards.positive o ho
      have positive' := ih.guards.positive _ known
      omega
    have stores : ∀ slot, ¬ p.object.cls.code.StoresField slot := by
      rw [generated.code]
      exact Delegation.stores_nothing
    have after := (sealed_set (ih.guards.pinAll ih.store known stores _) h ho free hv s
      (ih.store.pinAll known)).1
    exact ⟨generated, (after.fields_eq known (ih.store.object known).2.length).trans holds⟩
  | @resolve W W' s s' builders made i contract result g _ ran later own ih =>
    obtain ⟨guards, store, cached, known, intact⟩ := ih.filling later.filling
    refine ⟨guards, store, ?_, ?_, known, intact⟩
    · refine (Function.forall_update_iff builders fun _ g => ∃ depth, g.Serves depth).2
        ⟨(ih.serves i).imp fun depth serves => ?_, fun j _ => ih.serves j⟩
      have kept := (resolve_serves serves contract (p := (builders i, s))).1
      rwa [ran] at kept
    · exact (Function.forall_update_iff builders fun _ g => W'.KnowsCached g).2
        ⟨own, fun j _ => cached j⟩
  | @augment W W' s s' builders made i contract handler result g _ ran filling own new ih =>
    obtain ⟨guards, store, cached, known, intact⟩ := ih.filling filling
    refine ⟨guards, store, ?_, ?_, ?_, ?_⟩
    · refine (Function.forall_update_iff builders fun _ g => ∃ depth, g.Serves depth).2
        ⟨(ih.serves i).imp fun depth serves => ?_, fun j _ => ih.serves j⟩
      have kept := augment_serves serves contract handler (p := (builders i, s))
      rwa [ran] at kept
    · exact (Function.forall_update_iff builders fun _ g => W'.KnowsCached g).2
        ⟨own, fun j _ => cached j⟩
    · cases result with
      | error stop => exact known
      | ok o => exact List.forall_mem_cons.2 ⟨new o rfl, known⟩
    · cases result with
      | error stop => exact intact
      | ok o =>
        refine List.forall_mem_cons.2 ⟨fun legal => ?_, intact⟩
        obtain ⟨depth, serves⟩ := ih.serves i
        obtain ⟨generated, holds⟩ := augment_holds serves legal ran
        exact ⟨⟨generated.code, generated.distinct, rfl⟩, holds⟩

/-- Whatever a builder is asked for, the history goes on with what it does. -/
theorem Proxied.augmented (history : Proxied W builders s made) (i : Nat) (contract : Descriptor)
    (handler : Nat) {result : Except Stop Object} {g : Generator}
    (ran : Classwright.augment contract handler (builders i, s) = (result, g, s')) :
    ∃ W', Proxied W' (Function.update builders i g) s'
      (Proxy.bound contract handler result made) := by
  obtain ⟨guards, store, serves, cached, _, _⟩ := history.keeps
  obtain ⟨depth, serves⟩ := serves i
  obtain ⟨W', filling, own, new⟩ :=
    augment_fills guards store serves.scripted (cached i) contract handler
  rw [ran] at filling own new
  exact ⟨W', .augment history ran filling own new⟩

end World

end Classwright
