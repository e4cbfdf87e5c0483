import Classwright.Check.Body

/-!
# What a lowering gives if it reports nothing

A lowering notes what is wrong behind what has been noted and goes on with something in its place.
`Lower.Decides` says that it ends without a report just in the results that a relation has, which is
how a relation without any rule for what is wrong speaks of all runs. An expression leaves the state
as it is; `Lower.Judges` says the same of its lowering.
-/

namespace Classwright.Check

/-- With a scope of its own inside. -/
def BodyState.opened (st : BodyState) : BodyState := { st with scopes := [] :: st.scopes }

/-- Without the innermost scope. -/
def BodyState.closed (st : BodyState) : BodyState := { st with scopes := st.scopes.drop 1 }

/-- What is noted stands behind what has been noted. Where `pre` holds, nothing is noted just if the
relation has a result, and this is the result then. -/
def Lower.Decides {α : Type} (pre : Prop) (body : Lower α)
    (R : BodyState → α → BodyState → Prop) : Prop :=
  ∀ st, ∃ ds, (body st).2.diagnostics = st.diagnostics ++ ds ∧
    (pre → ∀ a st', R st a st' ↔ ds = [] ∧ body st = (a, st'))

/-- The same of a lowering that changes nothing else. -/
def Lower.Judges {α : Type} (pre : Prop) (body : Lower α) (P : BodyState → α → Prop) : Prop :=
  Lower.Decides pre body fun st a st' => st' = st ∧ P st a

namespace Lower

variable {α β : Type} {pre pre' : Prop}

namespace Decides

variable {body : Lower α} {next : α → Lower β} {R : BodyState → α → BodyState → Prop}

theorem given (h : Decides pre body R) (stronger : pre' → pre) : Decides pre' body R := by
  intro st
  obtain ⟨ds, noted, result⟩ := h st
  exact ⟨ds, noted, fun holds => result (stronger holds)⟩

theorem iff {R' : BodyState → α → BodyState → Prop} (h : Decides pre body R)
    (same : pre → ∀ st a st', R' st a st' ↔ R st a st') : Decides pre body R' := by
  intro st
  obtain ⟨ds, noted, result⟩ := h st
  exact ⟨ds, noted, fun holds a st' => (same holds st a st').trans (result holds a st')⟩

theorem pure (a : α) : Decides pre (pure a) fun st b st' => b = a ∧ st' = st := by
  refine fun st => ⟨[], (List.append_nil _).symm, fun _ b st' => ⟨?_, ?_⟩⟩
  · rintro ⟨rfl, rfl⟩
    exact ⟨rfl, rfl⟩
  · rintro ⟨_, same⟩
    cases same
    exact ⟨rfl, rfl⟩

/-- One lowering after the other: if the first reports, nothing is asked of the second but that it
notes behind. -/
theorem bind {Q : α → BodyState → β → BodyState → Prop} (h : Decides pre body R)
    (hnext : ∀ a, Decides (pre ∧ ∃ st st', R st a st') (next a) (Q a)) :
    Decides pre (body >>= next) fun st b st'' => ∃ a st', R st a st' ∧ Q a st' b st'' := by
  intro st
  obtain ⟨ds, noted, result⟩ := h st
  obtain ⟨es, noted', result'⟩ := hnext (body st).1 (body st).2
  have run : (body >>= next) st = next (body st).1 (body st).2 := rfl
  refine ⟨ds ++ es, ?_, fun holds b st'' => ⟨?_, ?_⟩⟩
  · rw [run, noted', noted, List.append_assoc]
  · rintro ⟨a, st', first, second⟩
    obtain ⟨rfl, ran⟩ := (result holds a st').1 first
    rw [ran] at result'
    obtain ⟨rfl, ran'⟩ := (result' ⟨holds, st, st', first⟩ b st'').1 second
    exact ⟨rfl, by rw [run, ran]; exact ran'⟩
  · rintro ⟨clean, ran⟩
    obtain ⟨rfl, rfl⟩ := List.append_eq_nil_iff.1 clean
    have first := (result holds (body st).1 (body st).2).2 ⟨rfl, rfl⟩
    exact ⟨_, _, first, (result' ⟨holds, st, _, first⟩ b st'').2 ⟨rfl, ran⟩⟩

/-- After a report there is no result. -/
theorem reportThen {cause : Cause} {span : Span} {next : Unit → Lower α}
    {Q : BodyState → α → BodyState → Prop} (hnext : ∀ u, Decides False (next u) Q)
    (none_ : pre → ∀ st a st', ¬ R st a st') :
    Decides pre (Lower.report cause span >>= next) R := by
  intro st
  obtain ⟨es, noted, _⟩ := hnext () { st with diagnostics := st.diagnostics ++ [⟨cause, span⟩] }
  refine ⟨⟨cause, span⟩ :: es, noted.trans (List.append_assoc ..), fun holds a st' => ⟨?_, ?_⟩⟩
  · exact fun r => absurd r (none_ holds st a st')
  · rintro ⟨clean, _⟩
    cases clean

/-- What the lowering goes on with may depend on the state that it starts in. -/
theorem get {next : BodyState → Lower α} {Q : BodyState → BodyState → α → BodyState → Prop}
    (h : ∀ s, Decides pre (next s) (Q s)) :
    Decides pre (MonadState.get >>= next) fun st => Q st st :=
  fun st => h st st

theorem modifyGet {change : BodyState → α × BodyState}
    (silent : ∀ st, (change st).2.diagnostics = st.diagnostics) :
    Decides pre (modifyGet change) fun st a st' => (a, st') = change st :=
  fun st => ⟨[], (silent st).trans (List.append_nil _).symm, fun _ _ _ =>
    ⟨fun same => ⟨rfl, same.symm⟩, fun same => same.2.symm⟩⟩

/-- A scope of its own is there for as long as the lowering runs. -/
theorem inScope (h : Decides pre body R) : Decides pre (inScope body) fun st a st' =>
    ∃ inner, R st.opened a inner ∧ st' = inner.closed := by
  intro st
  have run : Lower.inScope body st = ((body st.opened).1, (body st.opened).2.closed) := rfl
  obtain ⟨ds, noted, result⟩ := h st.opened
  refine ⟨ds, noted, fun holds a st' => ⟨?_, ?_⟩⟩
  · rintro ⟨inner, r, rfl⟩
    obtain ⟨rfl, ran⟩ := (result holds a inner).1 r
    refine ⟨rfl, ?_⟩
    rw [run, ran]
  · rintro ⟨rfl, ran⟩
    rw [run] at ran
    cases ran
    exact ⟨_, (result holds _ _).2 ⟨rfl, rfl⟩, rfl⟩

/-- The relation has just the results of the runs without a report. -/
theorem run_iff {st st' : BodyState} {a : α} (h : Decides True body R) :
    R st a st' ↔ body st = (a, st') ∧ st'.diagnostics = st.diagnostics := by
  obtain ⟨ds, noted, result⟩ := h st
  rw [result trivial]
  constructor
  · rintro ⟨rfl, ran⟩
    rw [ran, List.append_nil] at noted
    exact ⟨ran, noted⟩
  · rintro ⟨ran, silent⟩
    rw [ran, silent] at noted
    exact ⟨List.append_right_eq_self.1 noted.symm, ran⟩

end Decides

namespace Judges

variable {body : Lower α} {next : α → Lower β} {P : BodyState → α → Prop}

theorem given (h : Judges pre body P) (stronger : pre' → pre) : Judges pre' body P :=
  Decides.given h stronger

theorem iff {P' : BodyState → α → Prop} (h : Judges pre body P)
    (same : pre → ∀ st a, P' st a ↔ P st a) : Judges pre body P' :=
  Decides.iff h fun holds st a _ => and_congr_right fun _ => same holds st a

/-- What is given back is the only result. -/
theorem pure {a : α} (same : pre → ∀ st b, P st b ↔ b = a) : Judges pre (pure a) P :=
  Decides.iff (Decides.pure a) fun holds st b _ => by rw [same holds st b, and_comm]

/-- What follows starts in the same state. -/
theorem andThen {Q : α → BodyState → β → BodyState → Prop} (h : Judges pre body P)
    (hnext : ∀ a, Decides (pre ∧ ∃ st, P st a) (next a) (Q a)) :
    Decides pre (body >>= next) fun st b st' => ∃ a, P st a ∧ Q a st b st' := by
  refine Decides.iff (Decides.bind h fun a => (hnext a).given ?_) fun _ st b st'' => ⟨?_, ?_⟩
  · rintro ⟨holds, st, _, _, first⟩
    exact ⟨holds, st, first⟩
  · rintro ⟨a, first, second⟩
    exact ⟨a, st, ⟨rfl, first⟩, second⟩
  · rintro ⟨a, _, ⟨rfl, first⟩, second⟩
    exact ⟨a, first, second⟩

theorem bind {Q : α → BodyState → β → Prop} (h : Judges pre body P)
    (hnext : ∀ a, Judges (pre ∧ ∃ st, P st a) (next a) (Q a)) :
    Judges pre (body >>= next) fun st b => ∃ a, P st a ∧ Q a st b := by
  refine Decides.iff (h.andThen hnext) fun _ st b st'' => ⟨?_, ?_⟩
  · rintro ⟨rfl, a, first, second⟩
    exact ⟨a, first, rfl, second⟩
  · rintro ⟨a, first, rfl, second⟩
    exact ⟨rfl, a, first, second⟩

/-- What is given back is computed from the result of another lowering. -/
theorem map {f : α → β} (h : Judges pre body P) :
    Judges pre (do return f (← body)) fun st b => ∃ a, P st a ∧ b = f a :=
  h.bind fun _ => .pure fun _ _ _ => Iff.rfl

theorem reportThen {cause : Cause} {span : Span} {next : Unit → Lower α}
    {Q : BodyState → α → Prop} (hnext : ∀ u, Judges False (next u) Q)
    (none_ : pre → ∀ st a, ¬ P st a) : Judges pre (Lower.report cause span >>= next) P :=
  Decides.reportThen hnext fun holds st a _ given_ => none_ holds st a given_.2

/-- What is given back in the place of a result. -/
theorem refuse {cause : Cause} {span : Span} {a : α} (none_ : pre → ∀ st b, ¬ P st b) :
    Judges pre (do Lower.report cause span; return a) P :=
  reportThen (Q := fun _ b => b = a) (fun _ => pure fun _ _ _ => Iff.rfl) none_

theorem fail {cause : Cause} {span : Span} {P : BodyState → Lowered → Prop}
    (none_ : pre → ∀ st a, ¬ P st a) : Judges pre (fail cause span) P :=
  refuse none_

theorem report {cause : Cause} {span : Span} {P : BodyState → Unit → Prop}
    (none_ : pre → ∀ st a, ¬ P st a) : Judges pre (report cause span) P := by
  refine fun st => ⟨[⟨cause, span⟩], rfl, fun holds a _ => ⟨fun r => ?_, fun noted => ?_⟩⟩
  · exact absurd r.2 (none_ holds st a)
  · cases noted.1

end Judges

end Lower

end Classwright.Check
