import Classwright.Proofs.Finality
import Classwright.Proofs.Returning
import Classwright.Proofs.Sealing
import Classwright.Proofs.SlotSafety

/-!
# Final fields are immutable

`World.Arises` are the stores that a host comes to, setting fields included. From the end of its
construction on the final fields of an object keep their values, and from the end of linking on
those of a class, whatever a host does from there without setting fields, with classes of any origin.
`World.Later` has the stores in the middle of runs, too: a run may be cut short at any call.
-/

namespace Classwright

open Check

namespace World

/-- The stores that a host can come to, each with the world of what there is then. -/
inductive Arises : World → Store → Prop
  | start {W : World} {s : Store} : (∀ n, W.classes n = none) → (∀ o, ¬ W.HasObject o) →
      W.TruthfulRegistries s → (∀ code ∈ s.handlers, W.TruthfulHandler code) → Arises W s
  | step {W W' : World} {s s' : Store} : Arises W s → Step (W, s) (W', s') → Arises W' s'
  | set {W : World} {s : Store} {h : FieldHandle} {o : Object} {v : Value} : Arises W s →
      W.HasObject o → W.Knows v → Arises W (h.set o v s).2

/-- Setting a field of an object keeps a store sealed in which the object has no pins. -/
theorem sealed_set {W : World} {P : Pins} (guards : W.Guards P) (h : FieldHandle) {o : Object}
    (ho : W.HasObject o) (unpinned : ∀ slot, P.field (o.id - 1) slot = none) {v : Value}
    (hv : W.Knows v) : Run.Carries W (W.Sealed P) (h.set o v) fun _ => True := by
  refine .bind (Run.Carries.check h o true) fun _ _ => Run.Carries.tables fun tables => ?_
  cases made : v.coerceTo tables h.info.type with
  | none => exact .fail trivial
  | some w =>
    have may := mayStoreField guards.instances ho (unpinned h.slot)
    exact Run.Carries.writeField may (knows_of_coerceTo hv made)

theorem Arises.sealed {W : World} {s : Store} (arises : W.Arises s) :
    W.Guards .nothing ∧ W.Sealed .nothing s := by
  induction arises with
  | start noClasses noObjects natives handlers =>
    refine ⟨⟨?_, ?_, ?_, fun _ _ _ _ => rfl, fun _ _ _ _ _ => rfl⟩, natives, handlers, ?_, ?_,
      nofun, nofun⟩
    · exact fun o ho => (noObjects o ho).elim
    · exact fun n c known => nomatch (noClasses n).symm.trans known
    · exact fun o ho => (noObjects o ho).elim
    · exact fun o ho => (noObjects o ho).elim
    · exact fun n c known => nomatch (noClasses n).symm.trans known
  | step _ step ih => exact step.sealed ih.1 ih.2
  | set _ ho hv ih => exact ⟨ih.1, (sealed_set ih.1 _ ho (fun _ => rfl) hv _ ih.2).1⟩

end World

/-! ### Pins of final fields -/

namespace Pins

/-- The final fields of the object, with these values. -/
def ofObject (o : Object) (values : List Value) : Pins where
  field n slot := if n = o.id - 1 ∧ o.cls.code.isFinal .field slot = true then values[slot]? else none
  static _ _ := none

/-- The final static fields of the class, with these values. -/
def ofClass (c : LoadedClass) (values : List Value) : Pins where
  field _ _ := none
  static n slot := if n = c.id ∧ c.code.isFinal .static slot = true then values[slot]? else none

end Pins

/-- A final field has a slot of its own. -/
theorem Code.Class.lt_of_isFinal {code : Code.Class} {kind : SlotKind} {slot : Nat}
    (final : code.isFinal kind slot = true) : slot < (code.fieldsOf kind).length := by
  unfold isFinal at final
  by_contra outside
  rw [List.getElem?_eq_none (Nat.le_of_not_lt outside)] at final
  cases final

namespace World

variable {W : World} {s : Store}

/-- Compiled classes store no final field of their objects outside construction. -/
theorem Guards.pinObject (guards : W.Guards .nothing) (hs : W.Sealed .nothing s) {o : Object}
    (ho : W.HasObject o) (kept : o.cls.code.FinalsKept) (values : List Value) :
    W.Guards (.ofObject o values) where
  positive := guards.positive
  numbered := guards.numbered
  instances := guards.instances
  classes := fun _ _ _ _ _ => rfl
  objects := by
    rintro p hp slot ⟨m, member, scope, stored⟩
    refine if_neg ?_
    rintro ⟨same, final⟩
    rw [← hs.cls_eq guards.instances ho hp same] at kept final
    rw [kept.methods m member scope _ _ stored] at final
    cases final

theorem Sealed.pinObject (hs : W.Sealed .nothing s) {o : Object} (ho : W.HasObject o) :
    W.Sealed (.ofObject o (s.fields o)) s where
  natives := hs.natives
  handlers := hs.handlers
  fields := hs.fields
  statics := hs.statics
  static := nofun
  field := by
    intro n slot v pinned
    obtain ⟨⟨rfl, _⟩, there⟩ := Option.ite_none_right_eq_some.1 pinned
    exact ⟨_, (hs.object ho).1, there⟩

/-- Compiled classes store no final static field once they are linked. -/
theorem Guards.pinClass (guards : W.Guards .nothing) {c : LoadedClass}
    (hc : W.classes c.id = some c) (kept : c.code.FinalsKept) (values : List Value) :
    W.Guards (.ofClass c values) where
  positive := guards.positive
  numbered := guards.numbered
  instances := guards.instances
  objects := fun _ _ _ _ => rfl
  classes := by
    intro n d known slot stores
    refine if_neg ?_
    rintro ⟨rfl, final⟩
    obtain rfl : c = d := Option.some.inj (hc.symm.trans known)
    have open_ : c.code.isFinal .static slot = false := by
      rcases stores with ⟨m, member, scope, stored⟩ | ⟨k, member, scope, stored⟩ |
        ⟨f, member, e, given, stored⟩
      · exact kept.methods m member scope _ _ stored
      · exact kept.constructors k member scope _ stored
      · exact kept.fields f member e given _ stored
    rw [open_] at final
    cases final

theorem Sealed.pinClass (hs : W.Sealed .nothing s) {c : LoadedClass}
    (hc : W.classes c.id = some c) : W.Sealed (.ofClass c (s.staticsOf c)) s where
  natives := hs.natives
  handlers := hs.handlers
  fields := hs.fields
  statics := hs.statics
  field := nofun
  static := by
    intro n slot v pinned
    obtain ⟨⟨rfl, _⟩, there⟩ := Option.ite_none_right_eq_some.1 pinned
    exact ⟨_, (hs.class hc).1, there⟩

/-! ### From construction and linking on -/

/-- The final fields of an object keep their values from any point on. -/
theorem Later.fields {W' : World} {s' : Store} (later : Later (W, s) (W', s'))
    (guards : W.Guards .nothing) (hs : W.Sealed .nothing s) {o : Object} (ho : W.HasObject o)
    (kept : o.cls.code.FinalsKept) {slot : Nat} (final : o.cls.code.isFinal .field slot = true) :
    ∃ v, (s.fields o)[slot]? = some v ∧ (s'.fields o)[slot]? = some v := by
  have inside : slot < (s.fields o).length := by
    rw [(hs.object ho).2.length]
    exact Code.Class.lt_of_isFinal final
  have there := List.getElem?_eq_getElem inside
  have pinned : (Pins.ofObject o (s.fields o)).field (o.id - 1) slot = some (s.fields o)[slot] :=
    (if_pos ⟨rfl, final⟩).trans there
  obtain ⟨guards', hs'⟩ := later.sealed (guards.pinObject hs ho kept _) (hs.pinObject ho)
  obtain ⟨stored, found, held⟩ := hs'.field _ _ _ pinned
  have still := (hs'.object ((later.partOf guards hs).objects o ho)).1
  rw [still, Option.some.injEq] at found
  subst found
  exact ⟨_, there, held⟩

/-- The final static fields of a class keep their values from any point on. -/
theorem Later.statics {W' : World} {s' : Store} (later : Later (W, s) (W', s'))
    (guards : W.Guards .nothing) (hs : W.Sealed .nothing s) {c : LoadedClass}
    (hc : W.classes c.id = some c) (kept : c.code.FinalsKept) {slot : Nat}
    (final : c.code.isFinal .static slot = true) :
    ∃ v, (s.staticsOf c)[slot]? = some v ∧ (s'.staticsOf c)[slot]? = some v := by
  have inside : slot < (s.staticsOf c).length := by
    rw [(hs.class hc).2.length]
    exact Code.Class.lt_of_isFinal final
  have there := List.getElem?_eq_getElem inside
  have pinned : (Pins.ofClass c (s.staticsOf c)).static c.id slot = some (s.staticsOf c)[slot] :=
    (if_pos ⟨rfl, final⟩).trans there
  obtain ⟨values, stored, held⟩ := (later.sealed (guards.pinClass hc kept _)
    (hs.pinClass hc)).2.static _ _ _ pinned
  refine ⟨_, there, ?_⟩
  rw [Store.staticsOf, stored]
  exact held

/-- A run that ends well does so whatever its failures would be called. -/
theorem ok_of_mapFailure {α : Type} {change : Failure → Failure} {body : Run α} {a : α}
    {s' : Store} (h : body.mapFailure change s = (.ok a, s')) : body s = (.ok a, s') := by
  change (Except.mapError _ <$> body) s = _ at h
  change (Except.mapError _ (body s).1, (body s).2) = _ at h
  cases ran : body s with
  | mk result t =>
    rw [ran] at h
    cases result with
    | ok _ => exact h
    | error stop => cases stop <;> cases h

/-- An object that finished construction is the next one, and making it is a step. -/
theorem step_of_instantiate {c : LoadedClass} {o : Object} {s' : Store}
    (hc : W.classes c.id = some c) (made : c.instantiate s = (.ok o, s')) :
    o = ⟨s.objects.size + 1, c⟩ ∧ Step (W, s) (W.withObject o, s') := by
  have constructed : construct (.within unlimited) c s = (.ok o, s') := ok_of_mapFailure made
  cases found : c.code.constructors.find? (·.params.isEmpty) with
  | none =>
    unfold construct at constructed
    rw [found] at constructed
    cases constructed
  | some k =>
    by_cases hidden : k.visibility = .hidden
    · unfold construct at constructed
      rw [found] at constructed
      dsimp only at constructed
      rw [if_pos hidden] at constructed
      cases constructed
    · have step := Step.instantiate (s := s) (fun _ _ _ _ => false) unlimited hc found hidden
      rw [Calls.cutShort_never, constructed] at step
      rw [construct_eq _ found hidden] at constructed
      obtain ⟨_, _, _, rest⟩ := Run.bind_ok constructed
      obtain ⟨_, _, _, rest⟩ := Run.bind_ok rest
      cases rest
      exact ⟨rfl, step⟩

end World

namespace Sample

end Sample

end Classwright
