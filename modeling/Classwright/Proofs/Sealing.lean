import Classwright.Proofs.Guarding
import Mathlib.Logic.Relation

/-!
# Fields that keep their values

Pins are fields with the values that they have to keep. A store is sealed if every pin has its value
in it; it stays so as long as no class stores a pinned field outside construction. `World.Step` is
what a host does apart from setting fields: it registers types and handlers, links classes, makes
objects and invokes methods, and each run may be cut short at any of its calls.
-/

namespace Classwright

open Check
open Code (Stmt)

/-- Values that fields keep, by the place of the object or class and the slot. -/
structure Pins where
  field : Nat → Nat → Option Value
  static : Nat → Nat → Option Value

/-- Nothing is pinned. -/
def Pins.nothing : Pins := ⟨fun _ _ => none, fun _ _ => none⟩

namespace Code

/-- A method of the class stores this slot of its object. -/
def Class.StoresField (code : Class) (slot : Nat) : Prop :=
  ∃ m ∈ code.methods, ∃ scope, .write .field slot ∈ Stmt.allAccesses scope m.body

/-- The class stores this static slot once it is linked. -/
def Class.StoresStatic (code : Class) (slot : Nat) : Prop :=
  (∃ m ∈ code.methods, ∃ scope, .write .static slot ∈ Stmt.allAccesses scope m.body) ∨
  (∃ k ∈ code.constructors, ∃ scope, .write .static slot ∈ Stmt.allAccesses scope k.body) ∨
  ∃ f ∈ code.fields, ∃ e, f.init = some e ∧ .write .static slot ∈ e.accesses

end Code

namespace World

/-- Native code that speaks of existing objects only, now and later, makes none and sets no
fields. -/
def TruthfulNative (W : World) (code : NativeCode) : Prop :=
  ∀ W', W.PartOf W' → ∀ o args, W'.HasObject o → W'.KnowsAll args →
    W'.Honest HostRequest.CallsOrReads (fun _ => True) (code o args)

def TruthfulHandler (W : World) (code : HandlerCode) : Prop :=
  ∀ W', W.PartOf W' → W'.HonestHandler HostRequest.CallsOrReads code

/-- The native code of the registries is truthful. -/
def TruthfulRegistries (W : World) (s : Store) : Prop :=
  ∀ id type method arity code,
    (s.registry id).native? type method arity = some code → W.TruthfulNative code

/-- All objects and classes of the world have their values, all host code is truthful, and every pin
has its value. -/
structure Sealed (W : World) (P : Pins) (s : Store) : Prop where
  natives : W.TruthfulRegistries s
  handlers : ∀ code ∈ s.handlers, W.TruthfulHandler code
  fields : ∀ o, W.HasObject o →
    ∃ values, s.objects[o.id - 1]? = some ⟨o.cls.id, values⟩ ∧ W.Filled o.cls.code.fields values
  statics : ∀ n c, W.classes n = some c →
    ∃ values, s.statics[n]? = some values ∧ W.Filled c.code.statics values
  field : ∀ n slot v, P.field n slot = some v →
    ∃ stored, s.objects[n]? = some stored ∧ stored.fields[slot]? = some v
  static : ∀ n slot v, P.static n slot = some v →
    ∃ values, s.statics[n]? = some values ∧ values[slot]? = some v

/-- No pinned field is stored by a class outside construction. Objects are of classes of the world
and count from one. -/
structure Guards (W : World) (P : Pins) : Prop where
  positive : ∀ o, W.HasObject o → 0 < o.id
  numbered : ∀ n c, W.classes n = some c → c.id = n
  instances : ∀ o, W.HasObject o → W.classes o.cls.id = some o.cls
  objects : ∀ o, W.HasObject o → ∀ slot, o.cls.code.StoresField slot →
    P.field (o.id - 1) slot = none
  classes : ∀ n c, W.classes n = some c → ∀ slot, c.code.StoresStatic slot → P.static n slot = none

variable {W : World} {P : Pins} {s : Store}

/-! ### Sealed stores -/

theorem Sealed.congr {s' : Store} (h : W.Sealed P s) (registries : s'.registries = s.registries)
    (handlers : s'.handlers = s.handlers) (objects : s'.objects = s.objects)
    (statics : s'.statics = s.statics) : W.Sealed P s' where
  natives := by
    unfold TruthfulRegistries Store.registry
    rw [registries]
    exact h.natives
  handlers := handlers ▸ h.handlers
  fields := objects ▸ h.fields
  statics := statics ▸ h.statics
  field := objects ▸ h.field
  static := statics ▸ h.static

theorem Sealed.object (h : W.Sealed P s) {o : Object} (ho : W.HasObject o) :
    s.objects[o.id - 1]? = some ⟨o.cls.id, s.fields o⟩ ∧
      W.Filled o.cls.code.fields (s.fields o) := by
  obtain ⟨values, stored, filled⟩ := h.fields o ho
  rw [Store.fields_stored stored]
  exact ⟨stored, filled⟩

/-- Objects of one place are of one class. -/
theorem Sealed.cls_eq (h : W.Sealed P s)
    (instances : ∀ o, W.HasObject o → W.classes o.cls.id = some o.cls) {o p : Object}
    (ho : W.HasObject o) (hp : W.HasObject p) (same : p.id - 1 = o.id - 1) : p.cls = o.cls := by
  have stored := (h.object hp).1
  rw [same, (h.object ho).1, Option.some.injEq, Instance.mk.injEq] at stored
  exact Option.some.inj ((instances p hp).symm.trans (stored.1 ▸ instances o ho))

theorem Sealed.class (h : W.Sealed P s) {c : LoadedClass} (hc : W.classes c.id = some c) :
    s.statics[c.id]? = some (s.staticsOf c) ∧ W.Filled c.code.statics (s.staticsOf c) := by
  obtain ⟨values, stored, filled⟩ := h.statics c.id c hc
  rw [Store.staticsOf, stored]
  exact ⟨rfl, filled⟩

/-- What a sealed store says goes through to the invariants that runs carry. -/
theorem sealed_carries : W.Carries (W.Sealed P) where
  congr := Sealed.congr
  natives := fun hs id type method arity code found o args ho hargs =>
    hs.natives id type method arity code found W .refl o args ho hargs
  handlers := fun hs code member => hs.handlers code member W .refl
  fields := fun hs _ ho => (hs.object ho).2.known
  statics := fun hs _ hc => (hs.class hc).2.known

/-- A slot without a pin may be stored. -/
theorem mayStoreField (instances : ∀ o, W.HasObject o → W.classes o.cls.id = some o.cls)
    {o : Object} (ho : W.HasObject o) {slot : Nat} (free : P.field (o.id - 1) slot = none) :
    W.MayStoreField (W.Sealed P) o slot := by
  intro s v hs known
  obtain ⟨stored, filled⟩ := hs.object ho
  refine ⟨hs.natives, hs.handlers, fun p hp => ?_, hs.statics, fun n pin w pinned => ?_,
    hs.static⟩
  · by_cases same : p.id - 1 = o.id - 1
    · rw [same, hs.cls_eq instances ho hp same]
      exact ⟨_, Store.setFields_own stored _, filled.set known slot⟩
    · rw [Store.setFields_other same]
      exact hs.fields p hp
  · obtain ⟨old, held, there⟩ := hs.field n pin w pinned
    by_cases same : n = o.id - 1
    · subst same
      rw [stored, Option.some.injEq] at held
      subst held
      have different : slot ≠ pin := by
        rintro rfl
        rw [free] at pinned
        cases pinned
      refine ⟨_, Store.setFields_own stored _, ?_⟩
      rw [List.getElem?_set_ne different]
      exact there
    · rw [Store.setFields_other same]
      exact ⟨old, held, there⟩

theorem mayStoreStatic {c : LoadedClass} (hc : W.classes c.id = some c) {slot : Nat}
    (free : P.static c.id slot = none) : W.MayStoreStatic (W.Sealed P) c slot := by
  intro s v hs known
  obtain ⟨stored, filled⟩ := hs.class hc
  have inside : c.id < s.statics.size := (Array.getElem?_eq_some_iff.1 stored).1
  have own : (s.setStatics c ((s.staticsOf c).set slot v)).statics[c.id]?
      = some ((s.staticsOf c).set slot v) := by
    rw [Store.setStatics, Array.getElem?_setIfInBounds, if_pos rfl, if_pos inside]
  have other : ∀ n, n ≠ c.id →
      (s.setStatics c ((s.staticsOf c).set slot v)).statics[n]? = s.statics[n]? := by
    intro n different
    rw [Store.setStatics, Array.getElem?_setIfInBounds, if_neg (Ne.symm different)]
  refine ⟨hs.natives, hs.handlers, hs.fields, fun n d hn => ?_, hs.field, fun n pin w pinned => ?_⟩
  · by_cases same : n = c.id
    · subst same
      rw [hc, Option.some.injEq] at hn
      exact ⟨_, own, hn ▸ filled.set known slot⟩
    · rw [other n same]
      exact hs.statics n d hn
  · obtain ⟨values, held, there⟩ := hs.static n pin w pinned
    by_cases same : n = c.id
    · subst same
      rw [stored, Option.some.injEq] at held
      have different : slot ≠ pin := by
        rintro rfl
        rw [free] at pinned
        cases pinned
      refine ⟨_, own, ?_⟩
      rw [List.getElem?_set_ne different, held]
      exact there
    · rw [other n same]
      exact ⟨values, held, there⟩

/-- Guarded classes keep to what a sealed store permits. -/
theorem Guards.obeys (guards : W.Guards P) : W.Obeys (W.Sealed P) where
  instances := guards.instances
  methods := by
    intro o ho m hm scope a touched
    have hc := guards.instances o ho
    unfold Permits
    split
    · rename_i slot
      rintro _ ⟨⟩
      exact mayStoreField guards.instances ho (guards.objects o ho slot ⟨m, hm, scope, touched⟩)
    · rename_i slot
      exact mayStoreStatic hc (guards.classes _ _ hc slot (.inl ⟨m, hm, scope, touched⟩))
    · trivial

/-- Code of an object without pins may store what its class stores once it is linked. -/
theorem permits_unpinned (guards : W.Guards P) {o : Object} (ho : W.HasObject o)
    (unpinned : ∀ slot, P.field (o.id - 1) slot = none) {a : Access}
    (stores : ∀ slot, a = .write .static slot → o.cls.code.StoresStatic slot) :
    W.Permits (W.Sealed P) ⟨some o, o.cls⟩ a := by
  have hc := guards.instances o ho
  unfold Permits
  split
  · rename_i slot
    rintro _ ⟨⟩
    exact mayStoreField guards.instances ho (unpinned slot)
  · rename_i slot
    exact mayStoreStatic hc (guards.classes _ _ hc slot (stores slot rfl))
  · trivial

/-! ### New classes and objects -/

theorem Sealed.unused_class (hs : W.Sealed P s) : W.classes s.statics.size = none := by
  rw [Option.eq_none_iff_forall_ne_some]
  intro c known
  obtain ⟨values, stored, _⟩ := hs.statics _ c known
  rw [Array.getElem?_eq_none (Nat.le_refl _)] at stored
  cases stored

theorem classes_withClass (W : World) (c : LoadedClass) : (W.withClass c).classes c.id = some c :=
  if_pos rfl

theorem hasObject_withObject (W : World) (o : Object) : (W.withObject o).HasObject o := .inl rfl

/-- What is new has no pins. -/
theorem Sealed.unpinned_object (hs : W.Sealed P s) (slot : Nat) :
    P.field s.objects.size slot = none := by
  rw [Option.eq_none_iff_forall_ne_some]
  intro v pinned
  obtain ⟨_, stored, _⟩ := hs.field _ slot v pinned
  rw [Array.getElem?_eq_none (Nat.le_refl _)] at stored
  cases stored

theorem Sealed.unpinned_class (hs : W.Sealed P s) (slot : Nat) :
    P.static s.statics.size slot = none := by
  rw [Option.eq_none_iff_forall_ne_some]
  intro v pinned
  obtain ⟨values, stored, _⟩ := hs.static _ slot v pinned
  rw [Array.getElem?_eq_none (Nat.le_refl _)] at stored
  cases stored

theorem Guards.withClass (guards : W.Guards P) (hs : W.Sealed P s) {c : LoadedClass}
    (number : c.id = s.statics.size) : (W.withClass c).Guards P where
  positive := guards.positive
  numbered := by
    intro n d known
    by_cases same : n = c.id
    · cases (if_pos same).symm.trans known
      exact same.symm
    · exact guards.numbered n d ((if_neg same).symm.trans known)
  instances := by
    intro o ho
    have part : W.PartOf (W.withClass c) := partOf_withClass (number ▸ hs.unused_class)
    exact part.classes _ _ (guards.instances o ho)
  objects := guards.objects
  classes := by
    intro n d known slot stores
    by_cases same : n = c.id
    · rw [same, number]
      exact hs.unpinned_class slot
    · exact guards.classes n d ((if_neg same).symm.trans known) slot stores

theorem Guards.withObject (guards : W.Guards P) (hs : W.Sealed P s) {o : Object}
    (number : o.id = s.objects.size + 1) (hc : W.classes o.cls.id = some o.cls) :
    (W.withObject o).Guards P where
  positive := by
    rintro p (rfl | hp)
    · exact number ▸ Nat.succ_pos _
    · exact guards.positive p hp
  numbered := guards.numbered
  instances := by
    rintro p (rfl | hp)
    · exact hc
    · exact guards.instances p hp
  objects := by
    rintro p (rfl | hp) slot stores
    · rw [number, Nat.add_sub_cancel]
      exact hs.unpinned_object slot
    · exact guards.objects p hp slot stores
  classes := guards.classes

theorem Sealed.pushStatics (hs : W.Sealed P s) {c : LoadedClass} (number : c.id = s.statics.size) :
    (W.withClass c).Sealed P { s with
      statics := s.statics.push (c.code.statics.map fun f => Value.default f.type) } := by
  have part : W.PartOf (W.withClass c) := partOf_withClass (number ▸ hs.unused_class)
  refine ⟨fun id type method arity code found W' more => ?_, fun code member W' more => ?_,
    fun p hp => ?_, fun n d known => ?_, hs.field, fun n slot v pinned => ?_⟩
  · exact hs.natives id type method arity code found W' (part.trans more)
  · exact hs.handlers code member W' (part.trans more)
  · obtain ⟨values, stored, filled⟩ := hs.fields p hp
    exact ⟨values, stored, filled.grow part⟩
  · dsimp only
    rw [Array.getElem?_push, ← number]
    by_cases last : n = c.id
    · cases (if_pos last).symm.trans known
      rw [if_pos last]
      exact ⟨_, rfl, filled_default _⟩
    · rw [if_neg last]
      obtain ⟨values, stored, filled⟩ := hs.statics n d ((if_neg last).symm.trans known)
      exact ⟨values, stored, filled.grow part⟩
  · obtain ⟨values, stored, there⟩ := hs.static n slot v pinned
    have inside := (Array.getElem?_eq_some_iff.1 stored).1
    refine ⟨values, ?_, there⟩
    rw [Array.getElem?_push, if_neg (Nat.ne_of_lt inside)]
    exact stored

theorem Sealed.pushFields (hs : W.Sealed P s) {o : Object} (number : o.id = s.objects.size + 1) :
    (W.withObject o).Sealed P { s with
      objects := s.objects.push
        ⟨o.cls.id, o.cls.code.fields.map fun f => Value.default f.type⟩ } := by
  have part := W.partOf_withObject o
  have before : ∀ {n : Nat} {stored old : Instance}, s.objects[n]? = some stored →
      (s.objects.push old)[n]? = some stored := by
    intro n stored old found
    rw [Array.getElem?_push, if_neg (Nat.ne_of_lt (Array.getElem?_eq_some_iff.1 found).1)]
    exact found
  refine ⟨fun id type method arity code found W' more => ?_, fun code member W' more => ?_,
    ?_, fun n d known => ?_, fun n slot v pinned => ?_, hs.static⟩
  · exact hs.natives id type method arity code found W' (part.trans more)
  · exact hs.handlers code member W' (part.trans more)
  · rintro p (rfl | hp)
    · refine ⟨_, ?_, filled_default _⟩
      rw [number, Nat.add_sub_cancel, Array.getElem?_push, if_pos rfl]
    · obtain ⟨values, stored, filled⟩ := hs.fields p hp
      exact ⟨values, before stored, filled.grow part⟩
  · obtain ⟨values, stored, filled⟩ := hs.statics n d known
    exact ⟨values, stored, filled.grow part⟩
  · obtain ⟨stored, found, there⟩ := hs.field n slot v pinned
    exact ⟨stored, before found, there⟩

/-! ### Linking and instantiation -/

theorem construct_eq (calls : Calls) {c : LoadedClass} {k : Code.Constructor}
    (found : c.code.constructors.find? (·.params.isEmpty) = some k)
    (isOpen : k.visibility ≠ .hidden) : construct calls c s = (do
        initFields calls ⟨s.objects.size + 1, c⟩ 0 c.code.fields
        let _ ← Run.nested c.maxCallDepth
          (runBody calls ⟨some ⟨s.objects.size + 1, c⟩, c⟩ k.locals [] k.body)
        return ⟨s.objects.size + 1, c⟩ : Run Object) { s with
      objects := s.objects.push ⟨c.id, c.code.fields.map fun f => Value.default f.type⟩ } := by
  unfold construct
  rw [found]
  dsimp only
  rw [if_neg isOpen]
  rfl

/-- Linking keeps all pins, also if an initial value fails. -/
theorem Sealed.link (guards : W.Guards P) (hs : W.Sealed P s)
    (cut : Value → String → List Value → Store → Bool) (rounds : Nat) {code : Code.Class}
    {id depth : Nat}
    (resolved : ∀ t ∈ code.superclass :: code.interfaces, (s.tables id).resolves t = true) :
    (W.withClass ⟨s.statics.size, code, id, depth⟩).Sealed P
      (linkWith (.cutShort cut rounds) code id depth s).2 := by
  have guards' := guards.withClass hs (c := ⟨s.statics.size, code, id, depth⟩) rfl
  have pushed := hs.pushStatics (c := ⟨s.statics.size, code, id, depth⟩) rfl
  have called := cutShort_carries sealed_carries guards'.obeys cut rounds
  have may : ∀ slot, (W.withClass ⟨s.statics.size, code, id, depth⟩).MayStoreStatic _
      ⟨s.statics.size, code, id, depth⟩ slot :=
    fun slot => mayStoreStatic (W.classes_withClass _) (hs.unpinned_class slot)
  have ran := initStatics_carries sealed_carries called (W.classes_withClass _) may 0
    code.statics
  rw [linkWith_eq _ resolved]
  exact (ran.bind (R := fun _ => True) (fun _ _ => .pure trivial) _ pushed).1

/-- Construction keeps all pins: what it stores belongs to the new object, or is no pin. -/
theorem Sealed.construct (guards : W.Guards P) (hs : W.Sealed P s)
    (cut : Value → String → List Value → Store → Bool) (rounds : Nat) {c : LoadedClass}
    (hc : W.classes c.id = some c) {k : Code.Constructor}
    (found : c.code.constructors.find? (·.params.isEmpty) = some k)
    (isOpen : k.visibility ≠ .hidden) :
    (W.withObject ⟨s.objects.size + 1, c⟩).Sealed P (construct (.cutShort cut rounds) c s).2 := by
  have guards' := guards.withObject hs (o := ⟨s.objects.size + 1, c⟩) rfl hc
  have pushed := hs.pushFields (o := ⟨s.objects.size + 1, c⟩) rfl
  have called := cutShort_carries sealed_carries guards'.obeys cut rounds
  have ho : (W.withObject ⟨s.objects.size + 1, c⟩).HasObject ⟨s.objects.size + 1, c⟩ :=
    W.hasObject_withObject _
  have seated := seats_object ho hc
  have permits := fun {a} => permits_unpinned guards' ho hs.unpinned_object (a := a)
  have member := List.mem_of_find?_eq_some found
  have fields := initFields_carries sealed_carries called seated
    (fun slot => mayStoreField guards'.instances ho (hs.unpinned_object slot)) 0
    fun f hf e given a touched =>
      permits fun slot same => .inr (.inr ⟨f, hf, e, given, same ▸ touched⟩)
  have permitted : ∀ a ∈ Stmt.allAccesses [] k.body, _ := fun a touched =>
    permits fun slot same => .inr (.inl ⟨k, member, [], same ▸ touched⟩)
  have noArgs : (W.withObject ⟨s.objects.size + 1, c⟩).KnowsAll [] := trivial
  have body := runBody_carries sealed_carries called seated permitted k.locals noArgs
  rw [construct_eq _ found isOpen]
  refine (fields.bind (R := fun _ => True) (fun _ _ => ?_) _ pushed).1
  exact (nested_carries sealed_carries _ body).bind fun _ _ => .pure trivial

/-! ### What a host does without setting fields -/

/-- A step of a host that sets no field. Every run may have been cut short. Classes that cannot be
linked and objects that are not made leave nothing behind. -/
inductive Step : World × Store → World × Store → Prop
  | register {W : World} {s : Store} {registries : Array Registry} :
      W.TruthfulRegistries { s with registries := registries } →
      Step (W, s) (W, { s with registries := registries })
  | handler {W : World} {s : Store} {code : HandlerCode} : W.TruthfulHandler code →
      Step (W, s) (W, (s.addHandler code).2)
  | link {W : World} {s : Store} (cut : Value → String → List Value → Store → Bool) (rounds : Nat)
      {code : Code.Class} {id depth : Nat} :
      (∀ t ∈ code.superclass :: code.interfaces, (s.tables id).resolves t = true) →
      Step (W, s) (W.withClass ⟨s.statics.size, code, id, depth⟩,
        (linkWith (.cutShort cut rounds) code id depth s).2)
  | instantiate {W : World} {s : Store} (cut : Value → String → List Value → Store → Bool)
      (rounds : Nat) {c : LoadedClass} {k : Code.Constructor} : W.classes c.id = some c →
      c.code.constructors.find? (·.params.isEmpty) = some k → k.visibility ≠ .hidden →
      Step (W, s) (W.withObject ⟨s.objects.size + 1, c⟩, (construct (.cutShort cut rounds) c s).2)
  | invoke {W : World} {s : Store} (cut : Value → String → List Value → Store → Bool)
      (rounds : Nat) (receiver : Value) (name : String) (args : List Value) :
      W.Knows receiver → W.KnowsAll args →
      Step (W, s) (W, (invokeValue (.cutShort cut rounds) receiver name args s).2)

/-- Any number of such steps. -/
def Later : World × Store → World × Store → Prop := Relation.ReflTransGen Step

/-- One step keeps all pins. -/
theorem Step.sealed {before after : World × Store} (step : Step before after)
    (guards : before.1.Guards P) (hs : before.1.Sealed P before.2) :
    after.1.Guards P ∧ after.1.Sealed P after.2 := by
  cases step with
  | register natives =>
    exact ⟨guards, natives, hs.handlers, hs.fields, hs.statics, hs.field, hs.static⟩
  | handler truthful =>
    refine ⟨guards, hs.natives, fun code member => ?_, hs.fields, hs.statics, hs.field, hs.static⟩
    rcases Array.mem_push.1 member with member | rfl
    · exact hs.handlers code member
    · exact truthful
  | link cut rounds resolved =>
    exact ⟨guards.withClass hs rfl, Sealed.link guards hs cut rounds resolved⟩
  | instantiate cut rounds hc found isOpen =>
    exact ⟨guards.withObject hs rfl hc, Sealed.construct guards hs cut rounds hc found isOpen⟩
  | invoke cut rounds receiver name args known hargs =>
    have called := cutShort_carries sealed_carries guards.obeys cut rounds
    exact ⟨guards,
      (invokeValue_carries sealed_carries guards.obeys called _ _ _ known hargs _ hs).1⟩

theorem Step.partOf {before after : World × Store} (step : Step before after)
    (hs : before.1.Sealed P before.2) : before.1.PartOf after.1 := by
  cases step with
  | register natives => exact .refl
  | handler truthful => exact .refl
  | link cut rounds resolved => exact partOf_withClass hs.unused_class
  | instantiate cut rounds hc found isOpen => exact partOf_withObject _
  | invoke cut rounds receiver name args known hargs => exact .refl

/-- All pins are kept however long the host goes on. -/
theorem Later.sealed {before after : World × Store} (later : Later before after)
    (guards : before.1.Guards P) (hs : before.1.Sealed P before.2) :
    after.1.Guards P ∧ after.1.Sealed P after.2 := by
  induction later with
  | refl => exact ⟨guards, hs⟩
  | tail _ step ih => exact step.sealed ih.1 ih.2

/-- What there is goes on to be there. -/
theorem Later.partOf {before after : World × Store} (later : Later before after)
    (guards : before.1.Guards P) (hs : before.1.Sealed P before.2) :
    before.1.PartOf after.1 := by
  induction later with
  | refl => exact .refl
  | tail earlier step ih => exact ih.trans (step.partOf (Later.sealed earlier guards hs).2)

end World

end Classwright
