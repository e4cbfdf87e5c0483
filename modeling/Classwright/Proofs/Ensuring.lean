import Classwright.Machine.Eval

/-!
# What runs ensure

`Run.Ensures` says of a computation that it keeps an invariant of the store however it ends, stops
only as it may, and what is known of its value if it has one. `Body.Ensures` says the same of a part
of a body, which keeps an invariant of its variables too. The rules follow the structure of the
computations.
-/

namespace Classwright

/-! ### Parts of a run one behind the other -/

section

variable {α β : Type} {s t : Store}

theorem Run.bind_value {body : Run α} {next : α → Run β} {a : α} (h : body s = (.ok a, t)) :
    (body >>= next) s = next a t := by
  change (ExceptT.bindCont next (body s).1) (body s).2 = _
  rw [h]
  rfl

theorem Run.bind_stop {body : Run α} {next : α → Run β} {stop : Stop}
    (h : body s = (.error stop, t)) : (body >>= next) s = (.error stop, t) := by
  change (ExceptT.bindCont next (body s).1) (body s).2 = _
  rw [h]
  rfl

end

/-! ### Parts of a body one behind the other -/

section

variable {α β : Type} {locals : List Value}

theorem Body.bind_error {body : Body α} {next : α → Body β} {s s' : Store} {stop : Stop}
    (h : body locals s = (.error stop, s')) : (body >>= next) locals s = (.error stop, s') :=
  Run.bind_stop h

theorem Body.bind_value {body : Body α} {next : α → Body β} {s s' : Store} {p : α × List Value}
    (h : body locals s = (.ok p, s')) : (body >>= next) locals s = next p.1 p.2 s' :=
  Run.bind_value h

theorem Frame.readVar_some (frame : Frame) {slot : Nat} {v : Value}
    (there : locals[slot]? = some v) :
    frame.readVar slot locals = (pure (v, locals) : Run (Value × List Value)) := by
  funext s
  unfold Frame.readVar
  rw [Body.bind_value (p := (locals, locals)) rfl, there]
  rfl

theorem Frame.readVar_none (frame : Frame) {slot : Nat} (missing : locals[slot]? = none) :
    frame.readVar slot locals = (Body.fail (frame.missing .local_ slot) : Body Value) locals := by
  funext s
  unfold Frame.readVar
  rw [Body.bind_value (p := (locals, locals)) rfl, missing]

/-- A round of a loop. -/
theorem Body.loop_succ (condition : Body Bool) (body : Body Flow) (rounds : Nat) :
    Body.loop condition body (rounds + 1) = do
      if ← condition then
        match ← body with
        | .normal => Body.loop condition body rounds
        | .returned v => return .returned v
      else return .normal := by
  funext locals s
  rw [Body.loop]
  dsimp only
  cases tested : condition locals s with
  | mk result s' =>
    cases result with
    | error stop => rw [Body.bind_error tested]
    | ok p =>
      obtain ⟨go, between⟩ := p
      rw [Body.bind_value tested]
      cases go with
      | false => rfl
      | true =>
        dsimp only
        rw [if_pos rfl]
        cases ran : body between s' with
        | mk result s'' =>
          cases result with
          | error stop => rw [Body.bind_error ran]
          | ok p =>
            obtain ⟨flow, locals'⟩ := p
            rw [Body.bind_value ran]
            cases flow <;> rfl

end

/-! ### Rules -/

/-- The run keeps the invariant `I`, stops only as `S` allows, and gives what `P` says. -/
def Run.Ensures {α : Type} (I : Store → Prop) (S : Stop → Prop) (body : Run α) (P : α → Prop) :
    Prop :=
  ∀ s, I s → I (body s).2 ∧
    match (body s).1 with
    | .ok a => P a
    | .error stop => S stop

namespace Run.Ensures

variable {I : Store → Prop} {S : Stop → Prop} {α β : Type} {P Q : α → Prop}

theorem pure {a : α} (h : P a) : Ensures I S (pure a) P := fun _ hs => ⟨hs, h⟩

theorem fail {f : Failure} (h : S (.failed f)) : Ensures I S (Run.fail f : Run α) P :=
  fun _ hs => ⟨hs, h⟩

theorem exhausted (h : S .exhausted) : Ensures I S (Run.exhausted : Run α) P := fun _ hs => ⟨hs, h⟩

theorem stop {body : Run α} (h : Ensures I S body P) {s : Store} (hs : I s) {stop : Stop}
    (stopped : (body s).1 = .error stop) : S stop := by
  have ended := (h s hs).2
  rw [stopped] at ended
  exact ended

theorem mono {body : Run α} (h : Ensures I S body P) (weaker : ∀ a, P a → Q a) :
    Ensures I S body Q := fun s hs => by
  obtain ⟨kept, ended⟩ := h s hs
  refine ⟨kept, ?_⟩
  revert ended
  cases (body s).1 with
  | ok a => exact weaker a
  | error stop => exact id

theorem bind {R : β → Prop} {body : Run α} {next : α → Run β} (h : Ensures I S body P)
    (hnext : ∀ a, P a → Ensures I S (next a) R) : Ensures I S (body >>= next) R := fun s hs => by
  obtain ⟨kept, ended⟩ := h s hs
  change I ((ExceptT.bindCont next (body s).1) (body s).2).2 ∧
    match ((ExceptT.bindCont next (body s).1) (body s).2).1 with
    | .ok a => R a
    | .error stop => S stop
  revert ended
  cases (body s).1 with
  | ok a => exact fun ended => hnext a ended _ kept
  | error stop => exact fun ended => ⟨kept, ended⟩

theorem map {R : β → Prop} {body : Run α} {f : α → β} (h : Ensures I S body fun a => R (f a)) :
    Ensures I S (f <$> body) R := by
  rw [map_eq_pure_bind]
  exact h.bind fun _ ha => pure ha

theorem ofExcept {result : Except Failure α} (ok : ∀ a, result = .ok a → P a)
    (error : ∀ f, result = .error f → S (.failed f)) : Ensures I S (Run.ofExcept result) P := by
  cases result with
  | ok a => exact pure (ok a rfl)
  | error f => exact fail (error f rfl)

/-- A run that starts by looking at the store. -/
theorem get {next : Store → Run β} {R : β → Prop} (h : ∀ s, I s → Ensures I S (next s) R) :
    Ensures I S (MonadState.get >>= next) R := fun s hs => h s hs s hs

theorem modify {change : Store → Store} (h : ∀ s, I s → I (change s)) :
    Ensures I S (modify change : Run Unit) (fun _ => True) := fun s hs => ⟨h s hs, trivial⟩

theorem mapFailure (change : Failure → Failure) {body : Run α} (h : Ensures I S body P)
    (hchange : ∀ f, S (.failed f) → S (.failed (change f))) :
    Ensures I S (body.mapFailure change) P := fun s hs => by
  obtain ⟨kept, ended⟩ := h s hs
  have eq : (body.mapFailure change) s = ((match (body s).1 with
      | .ok a => .ok a
      | .error (.failed f) => .error (.failed (change f))
      | .error .exhausted => .error .exhausted), (body s).2) := by
    change (Except.mapError _ <$> body) s = _
    change (Except.mapError _ (body s).1, (body s).2) = _
    cases (body s).1 with
    | ok a => rfl
    | error stop => cases stop <;> rfl
  rw [eq]
  refine ⟨kept, ?_⟩
  revert ended
  cases (body s).1 with
  | ok a => exact id
  | error stop =>
    cases stop with
    | failed f => exact hchange f
    | exhausted => exact id

theorem outcome {body : Run α} (h : Ensures I S body P) (exhausted : S .exhausted) :
    Ensures I S body.outcome fun
      | .ok a => P a
      | .error f => S (.failed f) := fun s hs => by
  obtain ⟨kept, ended⟩ := h s hs
  unfold Run.outcome
  cases ran : body s with
  | mk result t =>
    rw [ran] at kept ended
    rcases result with (f | _) | a
    · exact ⟨kept, ended⟩
    · exact ⟨kept, exhausted⟩
    · exact ⟨kept, ended⟩

theorem nested {body : Run α} {limit : Nat} (h : Ensures I S body P)
    (depth : ∀ s n, I s → I { s with depth := n })
    (overflow : S (.failed (.stackOverflow limit))) :
    Ensures I S (Run.nested limit body) P := fun s hs => by
  unfold Run.nested
  split
  · exact ⟨hs, overflow⟩
  · obtain ⟨kept, ended⟩ := h { s with depth := s.depth + 1 } (depth s _ hs)
    exact ⟨depth _ _ kept, ended⟩

end Run.Ensures

/-- The part of a body keeps the invariant `J` of the variables, too. -/
def Body.Ensures {α : Type} (I : Store → Prop) (S : Stop → Prop) (J : List Value → Prop)
    (body : Body α) (P : α → Prop) : Prop :=
  ∀ locals, J locals → Run.Ensures I S (body locals) fun r => J r.2 ∧ P r.1

namespace Body.Ensures

variable {I : Store → Prop} {S : Stop → Prop} {J : List Value → Prop} {α β : Type} {P Q : α → Prop}

theorem pure {a : α} (h : P a) : Ensures I S J (pure a) P := fun _ hl => .pure ⟨hl, h⟩

theorem mono {body : Body α} (h : Ensures I S J body P) (weaker : ∀ a, P a → Q a) :
    Ensures I S J body Q := fun locals hl => (h locals hl).mono fun r hr => ⟨hr.1, weaker r.1 hr.2⟩

theorem bind {R : β → Prop} {body : Body α} {next : α → Body β} (h : Ensures I S J body P)
    (hnext : ∀ a, P a → Ensures I S J (next a) R) : Ensures I S J (body >>= next) R :=
  fun locals hl => (h locals hl).bind fun r hr => hnext r.1 hr.2 r.2 hr.1

/-- A run that does not look at the variables. -/
theorem lift {run : Run α} (h : Run.Ensures I S run P) : Ensures I S J (liftM run : Body α) P :=
  fun locals hl => by
    change Run.Ensures I S (run >>= fun a => Pure.pure (a, locals)) _
    exact h.bind fun a ha => .pure ⟨hl, ha⟩

theorem fail {f : Failure} (h : S (.failed f)) : Ensures I S J (Body.fail f : Body α) P :=
  lift (.fail h)

theorem truth {v : Value} (h : S (.failed (.invalidResult Primitive.boolean.keyword v.kindName))) :
    Ensures I S J (truth v) fun _ => True := by
  unfold Classwright.truth
  cases v.asBool? with
  | none => exact fail h
  | some b => exact pure trivial

theorem loop {condition : Body Bool} {body : Body Flow} {R : Flow → Prop} (exhausted : S .exhausted)
    (hcondition : Ensures I S J condition fun _ => True) (hbody : Ensures I S J body R)
    (normal : R .normal) (rounds : Nat) : Ensures I S J (Body.loop condition body rounds) R := by
  induction rounds with
  | zero => exact fun _ _ => .exhausted exhausted
  | succ rounds ih =>
    rw [Body.loop_succ]
    refine hcondition.bind fun go _ => ?_
    cases go with
    | false => exact pure normal
    | true =>
      refine hbody.bind fun flow returned => ?_
      cases flow with
      | normal => exact ih
      | returned v => exact pure returned

end Body.Ensures

end Classwright
