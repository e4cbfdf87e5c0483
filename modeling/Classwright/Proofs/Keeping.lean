import Classwright.Proofs.Ensuring
import Classwright.Proofs.World
import Mathlib.Data.List.Forall2

/-!
# Runs that keep a store typed

A store conforms to a world when every field of an object and every static field of a class holds a
value of its type. `Run.Keeps` and `Body.Keeps` say of a computation that it leaves such a store
however it ends, and what is known of its value if it has one. The rules below follow the structure
of the computations; everything that runs is put together from them.
-/

namespace Classwright

open Check

namespace World

/-- The values are of the types, and speak of existing objects. -/
def Fit (W : World) (types : List TypeRef) (values : List Value) : Prop :=
  List.Forall₂ (fun t v => v.isInstanceOf W.tables t = true ∧ W.Knows v) types values

def fieldTypes (fields : List Code.Field) : List TypeRef := fields.map (·.type)

/-- Every object is of a class of the world, every field and static field holds a value of its type,
and all handlers are honest. -/
structure Conforms (W : World) (s : Store) : Prop where
  registries : s.registries = W.registries
  handlers : ∀ code ∈ s.handlers, W.HonestHandler anything code
  fields : ∀ stored ∈ s.objects, ∃ c, W.classes stored.cls = some c ∧
    W.Fit (fieldTypes c.code.fields) stored.fields
  statics : ∀ n c values, W.classes n = some c → s.statics[n]? = some values →
    W.Fit (fieldTypes c.code.statics) values

variable {W : World}

theorem tables_of_registries {s : Store} (same : s.registries = W.registries) :
    s.tables = W.tables := by
  unfold World.tables Store.tables Store.registry World.store
  rw [same]

theorem inheritedNative?_of_registries {s : Store} (same : s.registries = W.registries)
    (c : LoadedClass) (name : String) (arity : Nat) :
    s.inheritedNative? c name arity = W.store.inheritedNative? c name arity := by
  unfold Store.inheritedNative?
  rw [tables_of_registries same]
  unfold Store.registry World.store
  rw [same]
  rfl

theorem Conforms.tables {s : Store} (h : W.Conforms s) : s.tables = W.tables :=
  tables_of_registries h.registries

theorem Conforms.registry {s : Store} (h : W.Conforms s) (id : Nat) :
    s.registry id = W.store.registry id := by
  unfold Store.registry World.store
  rw [h.registries]

/-- Only registries, handlers, fields and static fields matter. -/
theorem Conforms.congr {s s' : Store} (h : W.Conforms s) (registries : s'.registries = s.registries)
    (handlers : s'.handlers = s.handlers) (objects : s'.objects = s.objects)
    (statics : s'.statics = s.statics) : W.Conforms s' where
  registries := registries.trans h.registries
  handlers := handlers ▸ h.handlers
  fields := objects ▸ h.fields
  statics := statics ▸ h.statics

theorem Fit.get {types : List TypeRef} {values : List Value} (h : W.Fit types values) {i : Nat}
    {v : Value} (at_ : values[i]? = some v) :
    ∃ t, types[i]? = some t ∧ v.isInstanceOf W.tables t = true ∧ W.Knows v := by
  induction h generalizing i with
  | nil => simp at at_
  | cons head _ ih =>
    cases i with
    | zero =>
      simp only [List.getElem?_cons_zero, Option.some.injEq] at at_
      exact ⟨_, rfl, at_ ▸ head⟩
    | succ i => exact ih at_

theorem Fit.set {types : List TypeRef} {values : List Value} (h : W.Fit types values) {i : Nat}
    {v : Value} (ofType : ∀ t, types[i]? = some t → v.isInstanceOf W.tables t = true)
    (known : W.Knows v) : W.Fit types (values.set i v) := by
  induction h generalizing i with
  | nil => exact .nil
  | cons head rest ih =>
    cases i with
    | zero => exact .cons ⟨ofType _ rfl, known⟩ rest
    | succ i => exact .cons head (ih ofType)

/-- What can be read from a field of an object is of the field's type. -/
theorem Conforms.read_field {s : Store} (h : W.Conforms s) {o : Object}
    (hc : W.classes o.cls.id = some o.cls) {slot : Nat} {v : Value}
    (read : (s.fields o)[slot]? = some v) :
    ∃ t, (fieldTypes o.cls.code.fields)[slot]? = some t ∧ v.isInstanceOf W.tables t = true
      ∧ W.Knows v := by
  unfold Store.fields at read
  split at read
  · rename_i stored found
    split at read
    · rename_i own
      obtain ⟨c, known, fit⟩ := h.fields stored (Array.mem_of_getElem? found)
      rw [own, hc, Option.some.injEq] at known
      exact (known ▸ fit).get read
    · cases read
  · cases read

theorem Conforms.write_field {s : Store} (h : W.Conforms s) {o : Object}
    (hc : W.classes o.cls.id = some o.cls) {slot : Nat} {v : Value} (known : W.Knows v)
    (typed : ∀ t, (fieldTypes o.cls.code.fields)[slot]? = some t →
      v.isInstanceOf W.tables t = true) :
    W.Conforms (s.setFields o ((s.fields o).set slot v)) where
  registries := h.registries
  handlers := h.handlers
  statics := h.statics
  fields := by
    intro stored member
    obtain ⟨n, found⟩ := Array.getElem?_of_mem member
    rw [Store.setFields, Array.getElem?_modify] at found
    split at found
    · rename_i same
      subst same
      obtain ⟨old, there, rfl⟩ := Option.map_eq_some_iff.1 found
      obtain ⟨c, cls, fit⟩ := h.fields old (Array.mem_of_getElem? there)
      by_cases own : old.cls = o.cls.id
      · have same : o.cls = c := Option.some.inj (hc.symm.trans (own ▸ cls))
        subst same
        rw [if_pos own, Store.fields, there]
        dsimp only
        rw [if_pos own]
        exact ⟨_, cls, fit.set typed known⟩
      · rw [if_neg own]
        exact ⟨c, cls, fit⟩
    · exact h.fields stored (Array.mem_of_getElem? found)

theorem Conforms.read_static {s : Store} (h : W.Conforms s) {c : LoadedClass}
    (hc : W.classes c.id = some c) {slot : Nat} {v : Value}
    (read : (s.staticsOf c)[slot]? = some v) :
    ∃ t, (fieldTypes c.code.statics)[slot]? = some t ∧ v.isInstanceOf W.tables t = true
      ∧ W.Knows v := by
  cases stored : s.statics[c.id]? with
  | none => simp [Store.staticsOf, stored] at read
  | some values =>
    rw [Store.staticsOf, stored] at read
    exact (h.statics _ _ _ hc stored).get read

theorem Conforms.write_static {s : Store} (h : W.Conforms s) {c : LoadedClass}
    (hc : W.classes c.id = some c) {slot : Nat} {v : Value} (known : W.Knows v)
    (typed : ∀ t, (fieldTypes c.code.statics)[slot]? = some t → v.isInstanceOf W.tables t = true) :
    W.Conforms (s.setStatics c ((s.staticsOf c).set slot v)) where
  registries := h.registries
  handlers := h.handlers
  fields := h.fields
  statics := by
    intro n d values hd stored
    rw [Store.setStatics, Array.getElem?_setIfInBounds] at stored
    split at stored
    · rename_i same
      split at stored
      · rename_i inside
        cases stored
        have here : s.statics[c.id]? = some s.statics[c.id] := Array.getElem?_eq_getElem inside
        subst same
        rw [hc, Option.some.injEq] at hd
        subst hd
        rw [Store.staticsOf, here]
        exact (h.statics _ _ _ hc here).set typed known
      · cases stored
    · exact h.statics _ _ _ hd stored

end World

/-- Whatever the run does, the store conforms afterwards; its value is as `Post` says. -/
def Run.Keeps {α : Type} (W : World) (body : Run α) (Post : α → Prop) : Prop :=
  ∀ s, W.Conforms s → W.Conforms (body s).2 ∧
    match (body s).1 with
    | .ok a => Post a
    | .error stop => W.KnowsStop stop

namespace Run.Keeps

variable {W : World} {α β : Type} {P Q : α → Prop}

theorem pure {a : α} (h : P a) : Run.Keeps W (pure a) P := fun _ hs => ⟨hs, h⟩

theorem fail {f : Failure} (h : W.KnowsFailure f) : Run.Keeps W (Run.fail f : Run α) P :=
  fun _ hs => ⟨hs, h⟩

theorem exhausted : Run.Keeps W (Run.exhausted : Run α) P := fun _ hs => ⟨hs, trivial⟩

theorem mono {body : Run α} (h : Run.Keeps W body P) (weaker : ∀ a, P a → Q a) :
    Run.Keeps W body Q := Run.Ensures.mono (I := W.Conforms) (S := W.KnowsStop) h weaker

theorem bind {R : β → Prop} {body : Run α} {next : α → Run β} (h : Run.Keeps W body P)
    (hnext : ∀ a, P a → Run.Keeps W (next a) R) : Run.Keeps W (body >>= next) R :=
  Run.Ensures.bind (I := W.Conforms) (S := W.KnowsStop) h hnext

theorem map {R : β → Prop} {body : Run α} {f : α → β} (h : Run.Keeps W body fun a => R (f a)) :
    Run.Keeps W (f <$> body) R := by
  rw [map_eq_pure_bind]
  exact h.bind fun _ ha => pure ha

theorem ofExcept {result : Except Failure α} (ok : ∀ a, result = .ok a → P a)
    (error : ∀ f, result = .error f → W.KnowsFailure f) : Run.Keeps W (Run.ofExcept result) P := by
  cases result with
  | ok a => exact pure (ok a rfl)
  | error f => exact fail (error f rfl)

/-- A run that starts by looking at the store. -/
theorem get {next : Store → Run β} {R : β → Prop}
    (h : ∀ s, W.Conforms s → Run.Keeps W (next s) R) : Run.Keeps W (MonadState.get >>= next) R :=
  fun s hs => h s hs s hs

theorem tables {next : Tables → Run β} {R : β → Prop} (h : Run.Keeps W (next W.tables) R) :
    Run.Keeps W (Run.tables >>= next) R := fun s hs => by
  have := h s hs
  rw [← hs.tables] at this
  exact this

theorem modify {change : Store → Store} (h : ∀ s, W.Conforms s → W.Conforms (change s)) :
    Run.Keeps W (modify change : Run Unit) (fun _ => True) := fun s hs => ⟨h s hs, trivial⟩

theorem mapFailure (change : Failure → Failure) {body : Run α} (h : Run.Keeps W body P)
    (hchange : ∀ f, W.KnowsFailure f → W.KnowsFailure (change f)) :
    Run.Keeps W (body.mapFailure change) P :=
  Run.Ensures.mapFailure (I := W.Conforms) (S := W.KnowsStop) change h hchange

theorem outcome {body : Run α} (h : Run.Keeps W body P) :
    Run.Keeps W body.outcome fun
      | .ok a => P a
      | .error f => W.KnowsFailure f :=
  Run.Ensures.outcome (I := W.Conforms) (S := W.KnowsStop) h trivial

theorem nested {body : Run α} {limit : Nat} (h : Run.Keeps W body P) :
    Run.Keeps W (Run.nested limit body) P :=
  Run.Ensures.nested (I := W.Conforms) (S := W.KnowsStop) h
    (fun _ _ hs => hs.congr rfl rfl rfl rfl) trivial

/-- A coercion gives a value of the type. -/
theorem coerce {t : TypeRef} {v : Value} (known : W.Knows v) :
    Run.Keeps W (Run.coerce t v)
      (fun w => W.Knows w ∧ (StaticType.of t).Holds W.tables w ∧ t ≠ .void) := by
  refine tables ?_
  cases made : v.coerceTo W.tables t with
  | some w =>
    refine pure ⟨World.knows_of_coerceTo known made, StaticType.holds_of_coerceTo made, ?_⟩
    rintro rfl
    simp [Value.coerceTo, Value.isInstanceOf] at made
  | none => exact fail (by trivial)

theorem readField {o : Object} (hc : W.classes o.cls.id = some o.cls) {slot : Nat} :
    Run.Keeps W (Run.readField o slot) (fun v => W.Knows v ∧
      ∃ t, (World.fieldTypes o.cls.code.fields)[slot]? = some t
        ∧ v.isInstanceOf W.tables t = true) := by
  refine get fun s hs => ?_
  cases read : (s.fields o)[slot]? with
  | none => exact fail (by trivial)
  | some v =>
    obtain ⟨t, at_, instance_, known⟩ := hs.read_field hc read
    exact pure ⟨known, t, at_, instance_⟩

theorem writeField {o : Object} (hc : W.classes o.cls.id = some o.cls) {slot : Nat} {v : Value}
    (known : W.Knows v)
    (typed : ∀ t, (World.fieldTypes o.cls.code.fields)[slot]? = some t →
      v.isInstanceOf W.tables t = true) :
    Run.Keeps W (Run.writeField o slot v) (fun _ => True) := fun s hs => by
  have eq : Run.writeField o slot v s = if slot < (s.fields o).length
      then (.ok (), s.setFields o ((s.fields o).set slot v))
      else (.error (.failed (.illegalArgument (.missingSlot o.cls.code.name .field slot))), s) := by
    change (if slot < (s.fields o).length then _ else _ : Run Unit) s = _
    split <;> rfl
  rw [eq]
  split
  · exact ⟨hs.write_field hc known typed, trivial⟩
  · exact ⟨hs, trivial⟩

theorem readStatic {c : LoadedClass} (hc : W.classes c.id = some c) {slot : Nat} :
    Run.Keeps W (Run.readStatic c slot) (fun v => W.Knows v ∧
      ∃ t, (World.fieldTypes c.code.statics)[slot]? = some t
        ∧ v.isInstanceOf W.tables t = true) := by
  refine get fun s hs => ?_
  cases read : (s.staticsOf c)[slot]? with
  | none => exact fail (by trivial)
  | some v =>
    obtain ⟨t, at_, instance_, known⟩ := hs.read_static hc read
    exact pure ⟨known, t, at_, instance_⟩

theorem writeStatic {c : LoadedClass} (hc : W.classes c.id = some c) {slot : Nat} {v : Value}
    (known : W.Knows v)
    (typed : ∀ t, (World.fieldTypes c.code.statics)[slot]? = some t →
      v.isInstanceOf W.tables t = true) :
    Run.Keeps W (Run.writeStatic c slot v) (fun _ => True) := fun s hs => by
  have eq : Run.writeStatic c slot v s = if slot < (s.staticsOf c).length
      then (.ok (), s.setStatics c ((s.staticsOf c).set slot v))
      else (.error (.failed (.illegalArgument (.missingSlot c.code.name .static slot))), s) := by
    change (if slot < (s.staticsOf c).length then _ else _ : Run Unit) s = _
    split <;> rfl
  rw [eq]
  split
  · exact ⟨hs.write_static hc known typed, trivial⟩
  · exact ⟨hs, trivial⟩

end Run.Keeps

end Classwright
