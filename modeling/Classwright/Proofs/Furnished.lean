import Classwright.Proofs.Ensuring
import Classwright.Proofs.Numbering
import Classwright.Proofs.Running

/-!
# Stores with a place for every slot

A store is furnished for a world when every object and every class of the world has values in it,
one for each of its fields. Host code is harmless if it speaks of existing objects only and makes up
no failures about slots. Runs keep a store furnished as long as they read and write slots that their
classes have; `World.Tolerates` are the ways in which such a run may stop.
-/

namespace Classwright

open Check

/-- The failure without what has been wrapped around it. -/
def Failure.root : Failure → Failure
  | staticInitializer _ _ cause | construction _ cause | patch _ _ cause => cause.root
  | f => f

namespace Code

/-- A body or an initial value of the class calls a method of this name. -/
def Class.Calls (code : Class) (name : String) : Prop :=
  (∃ m ∈ code.methods, .call name ∈ Stmt.allAccesses (paramScope m.params) m.body) ∨
  (∃ k ∈ code.constructors, .call name ∈ Stmt.allAccesses (paramScope k.params) k.body) ∨
  ∃ f ∈ code.fields ++ code.statics, ∃ e, f.init = some e ∧ .call name ∈ e.accesses

end Code

namespace World

/-- Some class calls a method that has the name of the current object. No source text can. -/
def CallsThis (W : World) : Prop := ∃ n c, W.classes n = some c ∧ c.code.Calls "this"

/-- The failure is not about a missing slot, nor about a missing object of a body; what it carries
exists. -/
structure Blameless (W : World) (f : Failure) : Prop where
  known : W.KnowsFailure f
  slot : ∀ className kind slot, f.root ≠ .illegalArgument (.missingSlot className kind slot)
  this : f.root = .nullReference "this" → W.CallsThis

/-- How runs may stop. -/
def Tolerates (W : World) : Stop → Prop
  | .failed f => W.Blameless f
  | .exhausted => True

def Expects (W : World) : Except Failure Value → Prop
  | .ok v => W.Knows v
  | .error f => W.Blameless f

/-- Host code that speaks of existing objects only, makes no new ones and makes up no failures about
slots, as long as it is told of no others. -/
inductive Harmless (W : World) : Foreign → Prop
  | answer {v : Value} : W.Knows v → Harmless W (.answer v)
  | fail {f : Failure} : W.Blameless f → Harmless W (.fail f)
  | ask {request : HostRequest} {next : Except Failure Value → Foreign} :
      W.KnowsRequest request → (∀ c, request ≠ .instantiate c) →
      (∀ r, W.Expects r → Harmless W (next r)) → Harmless W (.ask request next)
  | update {cell : Nat} {change : Nat → Nat} {next : Nat → Foreign} :
      (∀ n, Harmless W (next n)) → Harmless W (.update cell change next)

/-- Everything of the one world is in the other. -/
structure PartOf (W W' : World) : Prop where
  classes : ∀ n c, W.classes n = some c → W'.classes n = some c
  objects : ∀ o, W.HasObject o → W'.HasObject o

theorem PartOf.refl {W : World} : W.PartOf W := ⟨fun _ _ known => known, fun _ known => known⟩

theorem PartOf.trans {W W' W'' : World} (h : W.PartOf W') (h' : W'.PartOf W'') : W.PartOf W'' :=
  ⟨fun n c known => h'.classes n c (h.classes n c known),
    fun o known => h'.objects o (h.objects o known)⟩

def HarmlessNative (W : World) (code : NativeCode) : Prop :=
  ∀ W', W.PartOf W' → ∀ o args, W'.HasObject o → W'.KnowsAll args → W'.Harmless (code o args)

def HarmlessHandler (W : World) (code : HandlerCode) : Prop :=
  ∀ W', W.PartOf W' → ∀ interface m args, W'.KnowsAll args → W'.Harmless (code interface m args)

/-- One value for each field, which speaks of existing objects. -/
structure Filled (W : World) (fields : List Code.Field) (values : List Value) : Prop where
  length : values.length = fields.length
  known : W.KnowsAll values

/-- All objects and classes of the world have their values, and all host code is harmless. -/
structure Furnished (W : World) (s : Store) : Prop where
  natives : ∀ id type method arity code,
    (s.registry id).native? type method arity = some code → W.HarmlessNative code
  handlers : ∀ code ∈ s.handlers, W.HarmlessHandler code
  instances : ∀ o, W.HasObject o → W.classes o.cls.id = some o.cls
  fields : ∀ o, W.HasObject o →
    ∃ values, s.objects[o.id - 1]? = some ⟨o.cls.id, values⟩ ∧ W.Filled o.cls.code.fields values
  statics : ∀ n c, W.classes n = some c →
    ∃ values, s.statics[n]? = some values ∧ W.Filled c.code.statics values

variable {W : World}

theorem Filled.get {fields : List Code.Field} {values : List Value} (h : W.Filled fields values)
    {slot : Nat} (inside : slot < fields.length) : ∃ v, values[slot]? = some v ∧ W.Knows v := by
  have inside : slot < values.length := by rwa [h.length]
  have known := knowsAll_iff.1 h.known
  exact ⟨values[slot], List.getElem?_eq_getElem inside, known _ (List.getElem_mem inside)⟩

theorem Filled.set {fields : List Code.Field} {values : List Value} (h : W.Filled fields values)
    {v : Value} (known : W.Knows v) (slot : Nat) : W.Filled fields (values.set slot v) where
  length := by rw [List.length_set, h.length]
  known := by
    rw [knowsAll_iff]
    intro w member
    rcases List.mem_or_eq_of_mem_set member with member | rfl
    · exact knowsAll_iff.1 h.known w member
    · exact known

/-- Only registries, handlers, fields and static fields matter. -/
theorem Furnished.congr {s s' : Store} (h : W.Furnished s)
    (registries : s'.registries = s.registries) (handlers : s'.handlers = s.handlers)
    (objects : s'.objects = s.objects) (statics : s'.statics = s.statics) : W.Furnished s' where
  natives := by
    unfold Store.registry
    rw [registries]
    exact h.natives
  handlers := handlers ▸ h.handlers
  instances := h.instances
  fields := objects ▸ h.fields
  statics := statics ▸ h.statics

theorem Furnished.object {s : Store} (h : W.Furnished s) {o : Object} (ho : W.HasObject o) :
    W.Filled o.cls.code.fields (s.fields o) := by
  obtain ⟨values, stored, filled⟩ := h.fields o ho
  rw [Store.fields_stored stored]
  exact filled

theorem Furnished.class {s : Store} (h : W.Furnished s) {c : LoadedClass}
    (hc : W.classes c.id = some c) : W.Filled c.code.statics (s.staticsOf c) := by
  obtain ⟨values, stored, filled⟩ := h.statics c.id c hc
  rw [Store.staticsOf, stored]
  exact filled

/-- Objects of one place are of one class. -/
theorem Furnished.cls_eq {s : Store} (h : W.Furnished s) {o p : Object} (ho : W.HasObject o)
    (hp : W.HasObject p) (same : p.id - 1 = o.id - 1) : p.cls = o.cls := by
  obtain ⟨_, stored, _⟩ := h.fields o ho
  obtain ⟨_, stored', _⟩ := h.fields p hp
  rw [same, stored, Option.some.injEq, Instance.mk.injEq] at stored'
  exact Option.some.inj ((h.instances p hp).symm.trans (stored'.1 ▸ h.instances o ho))

theorem Furnished.setFields {s : Store} (h : W.Furnished s) {o : Object} (ho : W.HasObject o)
    {values : List Value} (filled : W.Filled o.cls.code.fields values) :
    W.Furnished (s.setFields o values) where
  natives := h.natives
  handlers := h.handlers
  instances := h.instances
  statics := h.statics
  fields := by
    intro p hp
    obtain ⟨_, stored, _⟩ := h.fields o ho
    by_cases same : p.id - 1 = o.id - 1
    · rw [same, h.cls_eq ho hp same]
      exact ⟨values, Store.setFields_own stored values, filled⟩
    · rw [Store.setFields_other same]
      exact h.fields p hp

theorem Furnished.setStatics {s : Store} (h : W.Furnished s) {c : LoadedClass}
    (hc : W.classes c.id = some c) {values : List Value} (filled : W.Filled c.code.statics values) :
    W.Furnished (s.setStatics c values) where
  natives := h.natives
  handlers := h.handlers
  instances := h.instances
  fields := h.fields
  statics := by
    intro n d hd
    obtain ⟨old, stored, kept⟩ := h.statics n d hd
    rw [Store.setStatics, Array.getElem?_setIfInBounds]
    split
    · rename_i same
      subst same
      rw [hc] at hd
      cases hd
      rw [if_pos (Array.getElem?_eq_some_iff.1 stored).1]
      exact ⟨values, rfl, filled⟩
    · exact ⟨old, stored, kept⟩

end World

/-- The run keeps the store furnished and meets no missing slot. -/
abbrev Run.Safe {α : Type} (W : World) (body : Run α) (P : α → Prop) : Prop :=
  Run.Ensures W.Furnished W.Tolerates body P

namespace Run.Safe

variable {W : World}

theorem coerce (t : TypeRef) {v : Value} (known : W.Knows v) :
    Run.Safe W (Run.coerce t v) W.Knows := by
  refine .bind (P := fun _ => True) (.get fun s _ => .pure trivial) fun tables _ => ?_
  cases made : v.coerceTo tables t with
  | none => exact .fail ⟨trivial, nofun, nofun⟩
  | some w => exact .pure (World.knows_of_coerceTo known made)

theorem readField {o : Object} (ho : W.HasObject o) {slot : Nat}
    (inside : slot < o.cls.code.fields.length) : Run.Safe W (Run.readField o slot) W.Knows := by
  refine .get fun s hs => ?_
  obtain ⟨v, stored, known⟩ := (hs.object ho).get inside
  rw [stored]
  exact .pure known

theorem writeField {o : Object} (ho : W.HasObject o) {slot : Nat}
    (inside : slot < o.cls.code.fields.length) {v : Value} (known : W.Knows v) :
    Run.Safe W (Run.writeField o slot v) fun _ => True := by
  intro s hs
  have filled := hs.object ho
  have step : Run.writeField o slot v s = (.ok (), s.setFields o ((s.fields o).set slot v)) := by
    change (if slot < (s.fields o).length then _ else _ : Run Unit) s = _
    rw [if_pos (by rwa [filled.length])]
    rfl
  rw [step]
  exact ⟨hs.setFields ho (filled.set known slot), trivial⟩

theorem readStatic {c : LoadedClass} (hc : W.classes c.id = some c) {slot : Nat}
    (inside : slot < c.code.statics.length) : Run.Safe W (Run.readStatic c slot) W.Knows := by
  refine .get fun s hs => ?_
  obtain ⟨v, stored, known⟩ := (hs.class hc).get inside
  rw [stored]
  exact .pure known

theorem writeStatic {c : LoadedClass} (hc : W.classes c.id = some c) {slot : Nat}
    (inside : slot < c.code.statics.length) {v : Value} (known : W.Knows v) :
    Run.Safe W (Run.writeStatic c slot v) fun _ => True := by
  intro s hs
  have filled := hs.class hc
  have step : Run.writeStatic c slot v s
      = (.ok (), s.setStatics c ((s.staticsOf c).set slot v)) := by
    change (if slot < (s.staticsOf c).length then _ else _ : Run Unit) s = _
    rw [if_pos (by rwa [filled.length])]
    rfl
  rw [step]
  exact ⟨hs.setStatics hc (filled.set known slot), trivial⟩

end Run.Safe

end Classwright
