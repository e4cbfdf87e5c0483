import Classwright.Machine.Eval
import Classwright.Proofs.HostCalls
import Classwright.Proofs.Operators

/-!
# Bodies that keep their variables typed

The variables that are in scope at a place of a body have slots of the frame. `Body.Keeps` says of a
part of a body what it leaves there, next to a typed store, if it has a value; it may stop at any
time. The rules for the forms of expressions and statements follow.
-/

namespace Classwright

open Check

/-- The variables that are in scope, the innermost first. -/
abbrev Vars := List (String × Variable)

namespace World

/-- Every variable in scope holds a value of its type. -/
structure Holding (W : World) (vars : Vars) (locals : List Value) : Prop where
  known : ∀ v ∈ locals, W.Knows v
  typed : ∀ x ∈ vars, ∃ v, locals[x.2.slot]? = some v
    ∧ v.isInstanceOf W.tables x.2.type = true

/-- The frame of a body of the class of this number. -/
structure FrameOf (W : World) (n : Nat) (frame : Frame) : Prop where
  cls : W.classes n = some frame.cls
  this : ∀ o, frame.this? = some o → W.HasObject o ∧ o.cls = frame.cls

variable {W : World}

theorem Holding.subset {vars vars' : Vars} {locals : List Value} (h : W.Holding vars locals)
    (fewer : ∀ x ∈ vars', x ∈ vars) : W.Holding vars' locals :=
  ⟨h.known, fun x hx => h.typed x (fewer x hx)⟩

/-- A slot takes a value that is of the type of every variable that has the slot. -/
theorem Holding.set {vars : Vars} {locals : List Value} (h : W.Holding vars locals) {slot : Nat}
    {v : Value} (inside : slot < locals.length) (known : W.Knows v)
    (typed : ∀ x ∈ vars, x.2.slot = slot → v.isInstanceOf W.tables x.2.type = true) :
    W.Holding vars (locals.set slot v) where
  known := by
    intro w member
    rcases List.mem_or_eq_of_mem_set member with member | rfl
    · exact h.known w member
    · exact known
  typed := by
    intro x hx
    by_cases same : x.2.slot = slot
    · refine ⟨v, ?_, typed x hx same⟩
      rw [same, List.getElem?_set_self inside]
    · obtain ⟨w, at_, ofType⟩ := h.typed x hx
      refine ⟨w, ?_, ofType⟩
      rw [List.getElem?_set_ne (Ne.symm same)]
      exact at_

end World

/-- Whatever the part of a body does, the store conforms afterwards; what it gives and leaves in the
slots is as `Post` says. -/
def Body.Keeps {α : Type} (W : World) (vars : Vars) (body : Body α)
    (Post : α → List Value → Prop) : Prop :=
  ∀ locals, W.Holding vars locals → Run.Keeps W (body locals) (fun r => Post r.1 r.2)

/-- The part of a body leaves the variables in scope typed. -/
def Body.Gives {α : Type} (W : World) (vars : Vars) (body : Body α) (P : α → Prop) : Prop :=
  Body.Keeps W vars body fun a locals => W.Holding vars locals ∧ P a

namespace Body.Keeps

variable {W : World} {vars : Vars} {α β : Type}

theorem mono {body : Body α} {P Q : α → List Value → Prop} (h : Body.Keeps W vars body P)
    (weaker : ∀ a locals, P a locals → Q a locals) : Body.Keeps W vars body Q := fun locals held =>
  (h locals held).mono fun r => weaker r.1 r.2

theorem bind {body : Body α} {next : α → Body β} {P : α → List Value → Prop}
    {Q : β → List Value → Prop} (h : Body.Keeps W vars body P)
    (hnext : ∀ a locals, P a locals → Run.Keeps W (next a locals) (fun r => Q r.1 r.2)) :
    Body.Keeps W vars (body >>= next) Q := fun locals held =>
  (h locals held).bind fun r hr => hnext r.1 r.2 hr

/-- A run that does not look at the slots. -/
theorem lift {run : Run α} {P : α → Prop} {Q : α → List Value → Prop} (h : Run.Keeps W run P)
    (after : ∀ a locals, W.Holding vars locals → P a → Q a locals) :
    Body.Keeps W vars (liftM run : Body α) Q := fun locals held => by
  change Run.Keeps W (run >>= fun a => Pure.pure (a, locals)) _
  exact h.bind fun a ha => .pure (after a locals held ha)

theorem failAt {f : Failure} {locals : List Value} {P : α × List Value → Prop}
    (h : W.KnowsFailure f) : Run.Keeps W ((Body.fail f : Body α) locals) P := by
  change Run.Keeps W ((Run.fail f : Run α) >>= fun a => Pure.pure (a, locals)) P
  exact (Run.Keeps.fail (P := fun _ => False) h).bind fun _ impossible => impossible.elim

theorem fail {f : Failure} {Q : α → List Value → Prop} (h : W.KnowsFailure f) :
    Body.Keeps W vars (Body.fail f : Body α) Q := fun _ _ => failAt h

end Body.Keeps

namespace Body.Gives

variable {W : World} {vars : Vars} {α β : Type} {P : α → Prop}

theorem pure {a : α} (h : P a) : Body.Gives W vars (pure a) P := fun _ held => .pure ⟨held, h⟩

theorem fail {f : Failure} (h : W.KnowsFailure f) : Body.Gives W vars (Body.fail f : Body α) P :=
  Body.Keeps.fail h

theorem mono {Q : α → Prop} {body : Body α} (h : Body.Gives W vars body P)
    (weaker : ∀ a, P a → Q a) : Body.Gives W vars body Q :=
  Body.Keeps.mono h fun a _ ⟨held, ha⟩ => ⟨held, weaker a ha⟩

theorem bind {Q : β → Prop} {body : Body α} {next : α → Body β} (h : Body.Gives W vars body P)
    (hnext : ∀ a, P a → Body.Gives W vars (next a) Q) : Body.Gives W vars (body >>= next) Q :=
  Body.Keeps.bind h fun a locals ⟨held, ha⟩ => hnext a ha locals held

theorem lift {run : Run α} (h : Run.Keeps W run P) : Body.Gives W vars (liftM run : Body α) P :=
  Body.Keeps.lift h fun _ _ held ha => ⟨held, ha⟩

theorem truth {v : Value} : Body.Gives W vars (truth v) (fun b => v = .bool b) := by
  cases v with
  | bool b => exact pure rfl
  | _ => exact fail trivial

theorem this {n : Nat} {frame : Frame} (hframe : W.FrameOf n frame) :
    Body.Gives W vars frame.this (fun o => W.HasObject o ∧ o.cls = frame.cls) := by
  unfold Frame.this
  cases found : frame.this? with
  | none => exact fail trivial
  | some o => exact pure (hframe.this o found)

theorem readVar {frame : Frame} {x : String × Variable} (hx : x ∈ vars) :
    Body.Gives W vars (frame.readVar x.2.slot)
      (fun v => W.Knows v ∧ v.isInstanceOf W.tables x.2.type = true) := fun locals held => by
  obtain ⟨v, at_, ofType⟩ := held.typed x hx
  have known := held.known v (List.mem_of_getElem? at_)
  rw [frame.readVar_some at_]
  exact .pure ⟨held, known, ofType⟩

/-- A slot that is written takes a value of its variable's type. -/
theorem writeVar (frame : Frame) (slot : Nat) {v : Value} (known : W.Knows v)
    (typed : ∀ x ∈ vars, x.2.slot = slot → v.isInstanceOf W.tables x.2.type = true) :
    Body.Keeps W vars (frame.writeVar slot v)
      (fun _ locals => W.Holding vars locals ∧ locals[slot]? = some v) := fun locals held => by
  change Run.Keeps W ((if slot < locals.length
    then (modify (·.set slot v) : Body Unit)
    else Body.fail (frame.missing .local_ slot)) locals) _
  split
  · rename_i inside
    exact .pure ⟨held.set inside known typed, List.getElem?_set_self inside⟩
  · exact Body.Keeps.failAt (by trivial)

/-- A loop whose body leaves at least the variables of the loop. -/
theorem loop {condition : Body Bool} {body : Body Flow} {C : Bool → Prop} {R : Value → Prop}
    (hcondition : Body.Gives W vars condition C)
    (hbody : Body.Keeps W vars body fun flow locals =>
      W.Holding vars locals ∧ ∀ v, flow = .returned v → R v) (rounds : Nat) :
    Body.Gives W vars (Body.loop condition body rounds) fun
      | .normal => C false
      | .returned v => R v := by
  induction rounds with
  | zero => exact fun _ _ => .exhausted
  | succ rounds ih =>
    rw [Body.loop_succ]
    refine Body.Keeps.bind hcondition ?_
    rintro go locals ⟨held, known⟩
    cases go with
    | false => exact .pure ⟨held, known⟩
    | true =>
      refine Run.Keeps.bind (hbody locals held) ?_
      rintro ⟨flow, locals⟩ ⟨held, returned⟩
      cases flow with
      | normal => exact ih locals held
      | returned v => exact .pure ⟨held, returned v rfl⟩

end Body.Gives

namespace World

variable {W : World}

theorem knows_of_primitive? {v : Value} {kind : Primitive} (h : v.primitive? = some kind) :
    W.Knows v := by
  cases v <;> trivial

/-- A cast gives a value of its type. -/
theorem castTo_keeps {v : Value} (known : W.Knows v) (target : TypeRef) (mode : Code.CastMode) :
    Run.Keeps W (castTo target mode v)
      (fun w => W.Knows w ∧ (StaticType.of target).Holds W.tables w) := by
  have coerced : ∀ {t : TypeRef} {converted : Option Value}, v.coerceTo W.tables t = converted →
      ∀ w, converted = some w → W.Knows w ∧ (StaticType.of t).Holds W.tables w := by
    rintro t _ rfl w made
    exact ⟨knows_of_coerceTo known made, StaticType.holds_of_coerceTo made⟩
  cases target with
  | primitive kind =>
    cases mode with
    | convert =>
      simp only [castTo]
      cases made : v.convert kind with
      | none => exact .fail trivial
      | some w =>
        have own := Value.convert_primitive made
        exact .pure ⟨knows_of_primitive? own, own⟩
    | check =>
      simp only [castTo]
      split
      · rename_i w made
        split at made
        · rename_i own
          cases made
          exact .pure ⟨known, own⟩
        · cases made
      · exact .fail trivial
  | _ =>
    cases mode <;>
    · simp only [castTo]
      refine .tables ?_
      split
      · rename_i w made
        exact .pure (coerced made w rfl)
      · exact .fail trivial

/-- What an operator gives: the joined texts, or what is computed. -/
theorem binary_keeps {call : Invoke} (sound : Invoke.Sound W call) {a b : Value}
    (ha : W.Knows a) (hb : W.Knows b) (op : BinaryOp) :
    Run.Keeps W (binary call op a b) (fun w =>
      (op = .add ∧ (isText a || isText b) = true) ∧ (∃ s, w = .str s) ∨
      ¬(op = .add ∧ (isText a || isText b) = true) ∧ Arithmetic.binary op a b = .ok w) := by
  unfold binary
  split
  · rename_i joined
    rw [Bool.and_eq_true, decide_eq_true_eq] at joined
    refine .bind (textOf_keeps sound ha) fun left _ => ?_
    refine .bind (textOf_keeps sound hb) fun right _ => ?_
    exact .pure (.inl ⟨joined, _, rfl⟩)
  · rename_i computed
    rw [Bool.and_eq_true, decide_eq_true_eq] at computed
    refine .ofExcept (fun w made => .inr ⟨computed, made⟩) fun f failed => ?_
    rcases Arithmetic.binary_error failed with rfl | rfl <;> trivial

end World

end Classwright
