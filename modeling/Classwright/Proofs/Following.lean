import Classwright.Proofs.Walking

/-!
# Walks that follow the cursors

The type of a step says that a cursor runs out of tokens; the type of a walk says no such thing. But
where a walker stands in front of the tokens that a cursor has left, its walk ends as the step does,
with the same value or error and in front of the same tokens, and every lap on the way has taken it
further on.
-/

namespace Classwright.Source

/-! ### The cursor of a walker -/

/-- The cursor that stands where the walker stands. -/
def Walker.cursor (l : Lexed) (w : Walker) : Cursor :=
  ⟨l.tokens.drop w.position, l.finish, (l.tokens[w.position - 1]?.map (·.span)).getD l.finish⟩

/-- The walker one token further on. -/
def Walker.next (w : Walker) : Walker :=
  { w with position := w.position + 1, furthest := max w.furthest (w.position + 1) }

/-- The walker was never behind the last token, and each of its laps took it further on. -/
structure Walker.Sound (l : Lexed) (w : Walker) : Prop where
  position : w.position ≤ l.tokens.length
  furthest : w.furthest ≤ l.tokens.length
  laps : ∀ lap ∈ w.laps, lap.start < lap.finish ∧ lap.finish ≤ l.tokens.length

/-- The walker stands where the cursor does and has put these errors on record. -/
structure Walker.At (l : Lexed) (es : List SyntaxError) (c : Cursor) (w : Walker) : Prop
    extends Walker.Sound l w where
  errors : w.errors = es
  cursor : w.cursor l = c

namespace Walker.At

variable {l : Lexed} {es es' : List SyntaxError} {c d : Cursor} {w w' : Walker}

theorem position_add (h : w.At l es c) : w.position + c.remaining = l.tokens.length := by
  have inside := h.position
  rw [← h.cursor, Walker.cursor, Cursor.remaining, List.length_drop]
  omega

/-- Where fewer tokens are left the position is greater. -/
theorem lt (h : w.At l es c) (h' : w'.At l es' d) (shorter : d.remaining < c.remaining) :
    w.position < w'.position := by
  have start := h.position_add
  have stop := h'.position_add
  omega

theorem next {t : Lexeme} {us : List Lexeme} (h : w.At l es c) (token : c.rest = t :: us) :
    w.next.At l es (c.past t us) := by
  have there : l.tokens.drop w.position = t :: us := by rw [← token, ← h.cursor]; rfl
  have inside : w.position + 1 ≤ l.tokens.length := by
    have size := congrArg List.length there
    rw [List.length_drop, List.length_cons] at size
    omega
  have last : l.tokens[w.position]? = some t := by rw [← List.head?_drop, there]; rfl
  have left : l.tokens.drop (w.position + 1) = us := by rw [← List.tail_drop, there]; rfl
  refine ⟨⟨inside, Nat.max_le.2 ⟨h.furthest, inside⟩, h.laps⟩, h.errors, ?_⟩
  have finish : c.finish = l.finish := by rw [← h.cursor]; rfl
  rw [Walker.cursor, Walker.next, Cursor.past, left, finish, Nat.add_sub_cancel, last]
  rfl

/-- Either nothing is left, or the walker can move past a token. -/
theorem cases (h : w.At l es c) :
    (∃ p, c = ⟨[], l.finish, p⟩) ∨
      ∃ t s us p, c = ⟨⟨t, s⟩ :: us, l.finish, p⟩ ∧
        w.next.At l es (Cursor.past ⟨⟨t, s⟩ :: us, l.finish, p⟩ ⟨t, s⟩ us) := by
  obtain ⟨rest, finish, p⟩ := c
  obtain rfl : l.finish = finish := congrArg Cursor.finish h.cursor
  cases rest with
  | nil => exact .inl ⟨p, rfl⟩
  | cons first us => exact .inr ⟨first.token, first.span, us, p, rfl, h.next rfl⟩

/-- A lap that went forward may be put on record. -/
theorem lapped (h : w.At l es c) (loop : Loop) {start : Nat} (forward : start < w.position) :
    Walker.At l es c { w with laps := ⟨loop, start, w.position⟩ :: w.laps } := by
  refine ⟨⟨h.position, h.furthest, ?_⟩, h.errors, h.cursor⟩
  intro lap member
  obtain rfl | earlier := List.mem_cons.1 member
  · exact ⟨forward, h.position⟩
  · exact h.laps lap earlier

theorem recorded (h : w.At l es c) (e : SyntaxError) :
    Walker.At l (es ++ [e]) c { w with errors := w.errors ++ [e] } :=
  ⟨⟨h.position, h.furthest, h.laps⟩, by rw [h.errors], h.cursor⟩

/-- The walker may go back to where it was, with what it has put on record since. -/
theorem back (h : w.At l es c) (h' : w'.At l es' d) :
    Walker.At l es' c
      { w' with position := w.position, furthest := max w'.furthest w.position } :=
  ⟨⟨h.position, Nat.max_le.2 ⟨h'.furthest, h.position⟩, h'.laps⟩, h'.errors, h.cursor⟩

end Walker.At

/-! ### Single steps -/

namespace Track

variable {α β γ : Type} {l : Lexed} {es : List SyntaxError} {c : Cursor} {w w' : Walker}
  {walk : Walk α} {k : α → Walk β}

theorem bind_ok {a : α} (ends : walk w = some (.ok a, w')) : (walk >>= k) w = k a w' := by
  change (walk w).bind _ = _
  rw [ends]
  rfl

theorem bind_error {e : SyntaxError} (ends : walk w = some (.error e, w')) :
    (walk >>= k) w = some (.error e, w') := by
  change (walk w).bind _ = _
  rw [ends]
  rfl

theorem position_bind (k : Nat → Walk β) : (position >>= k) w = k w.position w := rfl

theorem get_bind (k : Walker → Walk β) : (get >>= k) w = k w w := rfl

theorem previous_bind (k : Span → Walk β) :
    (previous l >>= k) w = k (w.cursor l).previous w := rfl

theorem lap_bind (loop : Loop) (start : Nat) (k : Unit → Walk β) :
    (lap loop start >>= k) w = k () { w with laps := ⟨loop, start, w.position⟩ :: w.laps } := rfl

theorem record_bind (e : SyntaxError) (k : Unit → Walk β) :
    (record e >>= k) w = k () { w with errors := w.errors ++ [e] } := rfl

theorem moveTo_bind (p : Nat) (k : Unit → Walk β) :
    (moveTo p >>= k) w = k () { w with position := p, furthest := max w.furthest p } := rfl

theorem span_bind (k : Span → Walk β) : (span l >>= k) w = k (w.cursor l).span w := by
  rw [Cursor.span, Walker.cursor, List.head?_drop]
  rfl

theorem ahead_bind (n : Nat) (k : Option Token → Walk β) :
    (ahead l n >>= k) w = k (((w.cursor l).rest.drop n).head?.map (·.token)) w := by
  rw [Walker.cursor, List.drop_drop, List.head?_drop]
  rfl

theorem check_bind (t : Token) (k : Bool → Walk β) :
    (check l t >>= k) w = k ((w.cursor l).at_ t) w :=
  ahead_bind 0 fun found => k (found == some t)

theorem check_symbol_bind (s : Symbol) (k : Bool → Walk β) :
    (check l (.symbol s) >>= k) w = k ((w.cursor l).atSymbol s) w := check_bind _ k

theorem advance_apply {t : Lexeme} {us : List Lexeme} {f p : Span}
    (h : w.At l es ⟨t :: us, f, p⟩) : advance l w = some (.ok (), w.next) := by
  have inside : w.position < l.tokens.length := by
    have size := h.position_add
    rw [Cursor.remaining, List.length_cons] at size
    omega
  change (if w.position < l.tokens.length then moveTo (w.position + 1) else pure ()) w = _
  rw [if_pos inside]
  rfl

theorem advance_bind {t : Lexeme} {us : List Lexeme} {f p : Span}
    (h : w.At l es ⟨t :: us, f, p⟩) (k : Unit → Walk β) :
    (advance l >>= k) w = k () w.next := bind_ok (advance_apply h)

theorem current_bind (k : Option Token → Walk β) :
    (ahead l 0 >>= k) w = k (w.cursor l).current? w := ahead_bind 0 k

theorem current_nil {f p : Span} (h : w.At l es ⟨[], f, p⟩) (k : Option Token → Walk β) :
    (ahead l 0 >>= k) w = k none w := by rw [current_bind, h.cursor]; rfl

theorem current_cons {t : Token} {s f p : Span} {us : List Lexeme}
    (h : w.At l es ⟨⟨t, s⟩ :: us, f, p⟩) (k : Option Token → Walk β) :
    (ahead l 0 >>= k) w = k (some t) w := by rw [current_bind, h.cursor]; rfl

theorem refuse_apply (α : Type) (h : w.At l es c) (expected : List Token) :
    (refuse l expected : Walk α) w = some (.error (c.unexpected expected), w) := by
  rw [refuse, current_bind, h.cursor, Cursor.unexpected]
  cases c.current? with
  | none =>
    change (span l >>= fun place => throw ⟨.unexpectedEnd expected, place, none⟩) w = _
    rw [span_bind, h.cursor]
    rfl
  | some found =>
    change (span l >>= fun place => throw ⟨.unexpected expected found, place, none⟩) w = _
    rw [span_bind, h.cursor]
    rfl

theorem at_iff {t u : Token} {s f p : Span} {us : List Lexeme} :
    Cursor.at_ ⟨⟨u, s⟩ :: us, f, p⟩ t = true ↔ u = t := by
  rw [Cursor.at_, beq_iff_eq]
  exact Option.some_inj

theorem at_other {t u : Token} (other : u ≠ t) {s f p : Span} {us : List Lexeme} :
    Cursor.at_ ⟨⟨u, s⟩ :: us, f, p⟩ t = false := Bool.eq_false_iff.2 (mt at_iff.1 other)

theorem eat_yes {t : Token} {s f p : Span} {us : List Lexeme}
    (h : w.At l es ⟨⟨t, s⟩ :: us, f, p⟩) : eat l t w = some (.ok true, w.next) := by
  rw [eat, check_bind, h.cursor, if_pos (at_iff.2 rfl), advance_bind h]
  rfl

theorem eat_no {t : Token} (h : w.At l es c) (other : c.at_ t = false) :
    eat l t w = some (.ok false, w) := by
  rw [eat, check_bind, h.cursor, other]
  rfl

theorem expect_ok {t : Token} {s f p : Span} {us : List Lexeme}
    (h : w.At l es ⟨⟨t, s⟩ :: us, f, p⟩) : expect l t w = some (.ok (), w.next) := by
  rw [expect, check_bind, h.cursor, if_pos (at_iff.2 rfl)]
  exact advance_apply h

theorem expect_wrong {t : Token} (h : w.At l es c) (other : c.at_ t = false) :
    expect l t w = some (.error (c.unexpected [t]), w) := by
  rw [expect, check_bind, h.cursor, other]
  exact refuse_apply _ h [t]

theorem suggest_ok {a : α} (hint : Suggestion) (ends : walk w = some (.ok a, w')) :
    suggest hint walk w = some (.ok a, w') := by
  change (walk w).bind _ = _
  rw [ends]
  rfl

theorem suggest_error {e : SyntaxError} (hint : Suggestion)
    (ends : walk w = some (.error e, w')) :
    suggest hint walk w = some (.error { e with suggestion := some hint }, w') := by
  change (walk w).bind _ = _
  rw [ends]
  rfl

theorem attempt_bind {result : Except SyntaxError α} (ends : walk w = some (result, w'))
    (k : Except SyntaxError α → Walk β) : (attempt walk >>= k) w = k result w' := by
  refine bind_ok ?_
  rw [attempt, ends]
  rfl

end Track

/-! ### Walks and steps -/

open Track

variable {α β γ : Type} {m n : Nat} {l : Lexed} {es : List SyntaxError} {c : Cursor}
  {w : Walker} {v : β → γ} {out : Option (Except SyntaxError γ × Walker)}

/-- The walk comes out as the step does and stops where the step stops. `v` makes the value of the
walk of that of the step: a loop reads on behind what it has read already. -/
def Follows (l : Lexed) (es : List SyntaxError) (v : β → γ)
    (out : Option (Except SyntaxError γ × Walker)) : Step β n → Prop
  | .ok b d _ => ∃ w, out = some (.ok (v b), w) ∧ w.At l es d
  | .error e d => ∃ w, out = some (.error e, w) ∧ w.At l es d

namespace Follows

theorem of_ok {s : Step γ n} {a : γ} {d : Cursor} {shorter : d.remaining < n}
    (h : Follows l es id out s) (read : s = .ok a d shorter) :
    ∃ w, out = some (.ok a, w) ∧ w.At l es d := by
  subst read
  exact h

theorem of_error {s : Step γ n} {e : SyntaxError} {d : Cursor} (h : Follows l es id out s)
    (failed : s = .error e d) : ∃ w, out = some (.error e, w) ∧ w.At l es d := by
  subst failed
  exact h

theorem ok {b : β} {d : Cursor} {shorter : d.remaining < n} (ends : out = some (.ok (v b), w))
    (stop : w.At l es d) : Follows l es v out (Step.ok b d shorter) := ⟨w, ends, stop⟩

theorem stay {b : β} (ends : out = some (.ok (v b), w)) (stop : w.At l es c) :
    Follows l es v out (Step.stay b c) := ⟨w, ends, stop⟩

theorem error {e : SyntaxError} {d : Cursor} (stop : w.At l es d)
    (ends : out = some (.error e, w)) :
    Follows l es v out (Step.error e d : Step β n) := ⟨w, ends, stop⟩

theorem upTo_iff {s : Step β m} {h : m ≤ n} :
    Follows l es v out (s.upTo h) ↔ Follows l es v out s := by
  cases s <;> exact Iff.rfl

theorem loosen_iff {s : Step β m} : Follows l es v out s.loosen ↔ Follows l es v out s := upTo_iff

theorem behind_iff {t : Lexeme} {us : List Lexeme} {h : c.rest = t :: us}
    {s : Step β (c.past t us).remaining} :
    Follows l es v out (s.behind h) ↔ Follows l es v out s := upTo_iff

theorem behindMaybe_iff {t : Lexeme} {us : List Lexeme} {h : c.rest = t :: us}
    {s : Step β ((c.past t us).remaining + 1)} :
    Follows l es v out (s.behindMaybe h) ↔ Follows l es v out s := upTo_iff

theorem map_iff {s : Step α m} {f : α → β} :
    Follows l es v out (s.map f) ↔ Follows l es (fun a => v (f a)) out s := by
  cases s <;> exact Iff.rfl

section Bind

variable {walk : Walk α} {k : α → Walk γ} {s : Step α m}

theorem failed {e : SyntaxError} {d : Cursor}
    (h : Follows l es id (walk w) (Step.error e d : Step α m)) :
    Follows l es v ((walk >>= k) w) (Step.error e d : Step β n) := by
  obtain ⟨w', ends, stop⟩ := h
  exact ⟨w', bind_error ends, stop⟩

theorem andThen {g : (a : α) → (d : Cursor) → d.remaining < m → Step β d.remaining}
    (h : Follows l es id (walk w) s)
    (next : ∀ a d shorter w', w'.At l es d → Follows l es v (k a w') (g a d shorter)) :
    Follows l es v ((walk >>= k) w) (s.andThen g) := by
  cases s with
  | ok a d shorter =>
    obtain ⟨w', ends, stop⟩ := h
    simp only [bind_ok ends, Step.andThen, upTo_iff]
    exact next a d shorter w' stop
  | error e d => exact h.failed

theorem andMaybe {g : (a : α) → (d : Cursor) → d.remaining < m → Step β (d.remaining + 1)}
    (h : Follows l es id (walk w) s)
    (next : ∀ a d shorter w', w'.At l es d → Follows l es v (k a w') (g a d shorter)) :
    Follows l es v ((walk >>= k) w) (s.andMaybe g) := by
  cases s with
  | ok a d shorter =>
    obtain ⟨w', ends, stop⟩ := h
    simp only [bind_ok ends, Step.andMaybe, upTo_iff]
    exact next a d shorter w' stop
  | error e d => exact h.failed

theorem maybeThen {s : Step α (m + 1)}
    {g : (a : α) → (d : Cursor) → d.remaining ≤ m → Step β d.remaining}
    (h : Follows l es id (walk w) s)
    (next : ∀ a d bound w', w'.At l es d → Follows l es v (k a w') (g a d bound)) :
    Follows l es v ((walk >>= k) w) (s.maybeThen g) := by
  cases s with
  | ok a d shorter =>
    obtain ⟨w', ends, stop⟩ := h
    simp only [bind_ok ends, Step.maybeThen, upTo_iff]
    exact next a d _ w' stop
  | error e d => exact h.failed

theorem mapAt {g : α → Cursor → β} (h : Follows l es id (walk w) s)
    (value : ∀ a w', k a w' = some (.ok (v (g a (w'.cursor l))), w')) :
    Follows l es v ((walk >>= k) w) (s.mapAt g) := by
  cases s with
  | ok a d shorter =>
    obtain ⟨w', ends, stop⟩ := h
    obtain rfl := stop.cursor
    rw [bind_ok ends]
    exact ⟨w', value a w', stop⟩
  | error e d => exact h.failed

theorem map {g : α → β} (h : Follows l es id (walk w) s)
    (value : ∀ a w', k a w' = some (.ok (v (g a)), w')) :
    Follows l es v ((walk >>= k) w) (s.map g) := by
  cases s with
  | ok a d shorter =>
    obtain ⟨w', ends, stop⟩ := h
    rw [bind_ok ends]
    exact ⟨w', value a w', stop⟩
  | error e d => exact h.failed

theorem suggest (h : Follows l es id (walk w) s) (hint : Suggestion) :
    Follows l es id (Track.suggest hint walk w) (s.suggest hint) := by
  cases s with
  | ok a d shorter =>
    obtain ⟨w', ends, stop⟩ := h
    exact ⟨w', suggest_ok hint ends, stop⟩
  | error e d =>
    obtain ⟨w', ends, stop⟩ := h
    exact ⟨w', suggest_error hint ends, stop⟩

end Bind

end Follows

/-! ### Tokens, names and types -/

theorem expect_follows (h : w.At l es c) (t : Token) :
    Follows l es id (Track.expect l t w) (c.expect t) := by
  obtain ⟨p, rfl⟩ | ⟨u, s, us, p, rfl, next⟩ := h.cases
  · exact .error h (expect_wrong h rfl)
  · simp only [Cursor.expect]
    by_cases same : u = t
    · subst same
      rw [if_pos rfl]
      exact .ok (expect_ok h) next
    · rw [if_neg same]
      exact .error h (expect_wrong h (at_other same))

theorem semicolon_follows (h : w.At l es c) :
    Follows l es id (Track.semicolon l w) c.expectSemicolon :=
  (expect_follows h (.symbol .semicolon)).suggest .semicolon

theorem identifier_apply {name : String} {s f p : Span} {us : List Lexeme}
    (h : w.At l es ⟨⟨.identifier name, s⟩ :: us, f, p⟩) :
    Track.identifier l w = some (.ok (name, s), w.next) := by
  rw [Track.identifier, span_bind, current_bind, h.cursor]
  exact advance_bind h _

theorem identifier_wrong (h : w.At l es c)
    (other : ∀ name, c.current? ≠ some (.identifier name)) :
    Track.identifier l w = some (.error (c.unexpected [.identifier ""]), w) := by
  rw [Track.identifier, span_bind, current_bind, h.cursor]
  cases found : c.current? with
  | none => exact refuse_apply _ h _
  | some t =>
    cases t with
    | identifier name => exact absurd found (other name)
    | _ => exact refuse_apply _ h _

theorem identifier_follows (h : w.At l es c) :
    Follows l es id (Track.identifier l w) c.expectIdentifier := by
  obtain ⟨p, rfl⟩ | ⟨t, s, us, p, rfl, next⟩ := h.cases
  · exact .error h (identifier_wrong h fun _ same => by cases same)
  · cases t with
    | identifier name => exact .ok (identifier_apply h) next
    | _ => exact .error h (identifier_wrong h fun _ same => by cases same)

theorem eat_follows (h : w.At l es c) (t : Token) :
    Follows l es id (Track.eat l t w) (c.eat t) := by
  obtain ⟨p, rfl⟩ | ⟨u, s, us, p, rfl, next⟩ := h.cases
  · exact .stay (eat_no h rfl) h
  · simp only [Cursor.eat]
    by_cases same : u = t
    · subst same
      rw [if_pos rfl]
      exact .ok (eat_yes h) next
    · rw [if_neg same]
      exact .stay (eat_no h (at_other same)) h

/-- A dot and a name come next. -/
theorem dot_name {ts : List Lexeme} (dot : ts.head?.map (·.token) = some (.symbol .dot))
    (segment : ((ts.drop 1).head?.map (·.token)).any (·.isIdentifier) = true) :
    ∃ s name s' us, ts = ⟨.symbol .dot, s⟩ :: ⟨.identifier name, s'⟩ :: us := by
  obtain _ | ⟨⟨t, s⟩, _ | ⟨⟨u, s'⟩, us⟩⟩ := ts
  · cases dot
  · cases segment
  · obtain rfl : t = .symbol .dot := Option.some.inj dot
    cases u with
    | identifier name => exact ⟨s, name, s', us, rfl⟩
    | _ => cases segment

/-- A pair of brackets comes next. -/
theorem bracket_pair {ts : List Lexeme}
    (opening : ts.head?.map (·.token) = some (.symbol .leftBracket))
    (closing : (ts.drop 1).head?.map (·.token) = some (.symbol .rightBracket)) :
    ∃ s s' us, ts = ⟨.symbol .leftBracket, s⟩ :: ⟨.symbol .rightBracket, s'⟩ :: us := by
  obtain _ | ⟨⟨t, s⟩, _ | ⟨⟨u, s'⟩, us⟩⟩ := ts
  · cases opening
  · cases closing
  · obtain rfl : t = .symbol .leftBracket := Option.some.inj opening
    obtain rfl : u = .symbol .rightBracket := Option.some.inj closing
    exact ⟨s, s', us, rfl⟩

theorem nameLoop_ends {last : Span} {ts : List Lexeme} (h : w.At l es ⟨ts, l.finish, last⟩)
    (name : String) :
    ∃ w', nameLoop l name w
        = some (.ok (String.ofList (name.toList ++ (dottedTail last ts).1)), w') ∧
      w'.At l es ⟨(dottedTail last ts).2.2, l.finish, (dottedTail last ts).2.1⟩ := by
  fun_induction dottedTail last ts generalizing w name with
  | case1 last s segment s' us text final rest tail ih =>
    have behind : w.next.At l es _ := h.next rfl
    have inside : w.next.next.At l es _ := behind.next rfl
    rw [nameLoop, position_bind, check_bind, ahead_bind, h.cursor, if_pos (by rfl), advance_bind h]
    have forward : w.position < w.next.next.position :=
      Nat.lt_trans (Nat.lt_succ_self _) (Nat.lt_succ_self _)
    obtain ⟨w', ends, stop⟩ := ih (inside.lapped .names forward) (name ++ "." ++ segment)
    rw [tail] at ends stop
    refine ⟨w', ?_, stop⟩
    rw [bind_ok (identifier_apply behind)]
    change (lap .names w.position >>= fun _ => nameLoop l (name ++ "." ++ segment)) w.next.next = _
    rw [lap_bind, ends]
    simp [String.toList_append]
  | case2 last ts other =>
    refine ⟨w, ?_, h⟩
    rw [nameLoop, position_bind, check_bind, ahead_bind, h.cursor, if_neg]
    · rw [List.append_nil, String.ofList_toList]
      rfl
    · rw [Bool.and_eq_true, Cursor.at_, beq_iff_eq]
      rintro ⟨dot, segment⟩
      obtain ⟨s, segment, s', us, rfl⟩ := dot_name dot segment
      exact other _ _ _ _ rfl

theorem qualifiedName_follows (h : w.At l es c) :
    Follows l es id (Track.qualifiedName l w) c.qualifiedName := by
  obtain ⟨p, rfl⟩ | ⟨t, s, us, p, rfl, next⟩ := h.cases
  · exact .error h (bind_error (identifier_wrong h fun _ same => by cases same))
  · cases t with
    | identifier name =>
      obtain ⟨w', ends, stop⟩ := nameLoop_ends next name
      rw [Track.qualifiedName, bind_ok (identifier_apply h)]
      change Follows l es id ((nameLoop l name >>= fun name => _) w.next) _
      rw [bind_ok ends, previous_bind, stop.cursor]
      exact .ok rfl stop
    | _ => exact .error h (bind_error (identifier_wrong h fun _ same => by cases same))

theorem bracketLoop_ends {last : Span} {ts : List Lexeme} (h : w.At l es ⟨ts, l.finish, last⟩)
    (dims : Nat) :
    ∃ w', bracketLoop l dims w = some (.ok (dims + (bracketPairs last ts).1), w') ∧
      w'.At l es ⟨(bracketPairs last ts).2.2, l.finish, (bracketPairs last ts).2.1⟩ := by
  fun_induction bracketPairs last ts generalizing w dims with
  | case1 last s s' us more final rest tail ih =>
    have behind : w.next.At l es _ := h.next rfl
    have inside : w.next.next.At l es _ := behind.next rfl
    have forward : w.position < w.next.next.position :=
      Nat.lt_trans (Nat.lt_succ_self _) (Nat.lt_succ_self _)
    obtain ⟨w', ends, stop⟩ := ih (inside.lapped .brackets forward) (dims + 1)
    rw [tail] at ends stop
    refine ⟨w', ?_, stop⟩
    rw [bracketLoop, position_bind, check_bind, ahead_bind, h.cursor, if_pos (by rfl),
      advance_bind h, advance_bind behind, lap_bind, ends, Nat.add_right_comm, Nat.add_assoc]
  | case2 last ts other =>
    refine ⟨w, ?_, h⟩
    rw [bracketLoop, position_bind, check_bind, ahead_bind, h.cursor, if_neg]
    · rfl
    · rw [Bool.and_eq_true, Cursor.at_, beq_iff_eq, beq_iff_eq]
      rintro ⟨opening, closing⟩
      obtain ⟨s, s', us, rfl⟩ := bracket_pair opening closing
      exact other _ _ _ rfl

theorem typeBase_follows (h : w.At l es c) :
    Follows l es id (Track.typeBase l w) c.typeBase := by
  have wrong := suggest_error .typeName (refuse_apply String h [.identifier ""])
  have named := (qualifiedName_follows h).map (k := fun read => pure read.1) (v := id)
    (g := Prod.fst) fun _ _ => rfl
  rw [Track.typeBase, current_bind, h.cursor]
  obtain ⟨p, rfl⟩ | ⟨t, s, us, p, rfl, next⟩ := h.cases
  · exact .error h wrong
  · cases t with
    | primitive kind => exact .ok (advance_bind h _) next
    | identifier name => exact named
    | _ => exact .error h wrong

theorem typeName_follows (h : w.At l es c) :
    Follows l es id (Track.typeName l w) c.typeName := by
  rw [Track.typeName, span_bind, h.cursor]
  refine (typeBase_follows h).andMaybe fun name d shorter w' h' => ?_
  have finish : d.finish = l.finish := by rw [← h'.cursor]; rfl
  obtain ⟨rest, f, last⟩ := d
  obtain rfl : f = l.finish := finish
  obtain ⟨w'', ends, stop⟩ := bracketLoop_ends h' 0
  rw [bind_ok ends, previous_bind, stop.cursor, Nat.zero_add]
  exact .ok rfl stop

/-! ### Looking ahead -/

theorem namesAhead_ends {n : Nat} {us : List Lexeme} (ahead : (w.cursor l).rest.drop n = us)
    (s : Span) :
    ∃ m, namesAhead l n w = some (.ok m, w) ∧
      (w.cursor l).rest.drop m = (dottedTail s us).2.2 := by
  fun_induction dottedTail s us generalizing n with
  | case1 last s segment s' us text final rest tail ih =>
    have one : (w.cursor l).rest.drop (n + 1) = ⟨.identifier segment, s'⟩ :: us := by
      rw [← List.drop_drop, ahead]; rfl
    have two : (w.cursor l).rest.drop (n + 2) = us := by rw [← List.drop_drop, ahead]; rfl
    rw [namesAhead, ahead_bind, ahead_bind, ahead, one, if_pos (by rfl)]
    obtain ⟨m, ends, left⟩ := ih two
    exact ⟨m, ends, by rw [left, tail]⟩
  | case2 last us other =>
    refine ⟨n, ?_, ahead⟩
    rw [namesAhead, ahead_bind, ahead_bind, ← List.drop_drop, ahead, if_neg]
    · rfl
    · rw [Bool.and_eq_true, beq_iff_eq]
      rintro ⟨dot, segment⟩
      obtain ⟨s, segment, s', us, rfl⟩ := dot_name dot segment
      exact other _ _ _ _ rfl

theorem bracketsAhead_ends {n : Nat} {us : List Lexeme} (ahead : (w.cursor l).rest.drop n = us)
    (s : Span) (dims : Nat) :
    ∃ m, bracketsAhead l n dims w = some (.ok (m, dims + (bracketPairs s us).1), w) ∧
      (w.cursor l).rest.drop m = (bracketPairs s us).2.2 := by
  fun_induction bracketPairs s us generalizing n dims with
  | case1 last s s' us more final rest tail ih =>
    have one : (w.cursor l).rest.drop (n + 1) = ⟨.symbol .rightBracket, s'⟩ :: us := by
      rw [← List.drop_drop, ahead]; rfl
    have two : (w.cursor l).rest.drop (n + 2) = us := by rw [← List.drop_drop, ahead]; rfl
    rw [bracketsAhead, ahead_bind, ahead_bind, ahead, one, if_pos (by rfl)]
    obtain ⟨m, ends, left⟩ := ih two (dims + 1)
    rw [tail] at ends left
    exact ⟨m, by rw [ends, Nat.add_right_comm, Nat.add_assoc], left⟩
  | case2 last us other =>
    refine ⟨n, ?_, ahead⟩
    rw [bracketsAhead, ahead_bind, ahead_bind, ← List.drop_drop, ahead, if_neg]
    · rfl
    · rw [Bool.and_eq_true, beq_iff_eq, beq_iff_eq]
      rintro ⟨opening, closing⟩
      obtain ⟨s, s', us, rfl⟩ := bracket_pair opening closing
      exact other _ _ _ rfl

/-- A type is found ahead where there is one, and the place behind it. -/
theorem typeAhead_ends {n : Nat} {us : List Lexeme} (ahead : (w.cursor l).rest.drop n = us) :
    (Cursor.skipType? us = none ∧ typeAhead l n w = some (.ok none, w)) ∨
      ∃ bare m, Cursor.skipType? us = some (bare, (w.cursor l).rest.drop m) ∧
        typeAhead l n w = some (.ok (some (bare, m)), w) := by
  have behind : (w.cursor l).rest.drop (n + 1) = us.drop 1 := by rw [← List.drop_drop, ahead]
  rw [typeAhead, ahead_bind, ahead]
  obtain _ | ⟨⟨t, s⟩, us⟩ := us
  · exact .inl ⟨rfl, rfl⟩
  · cases t with
    | primitive kind =>
      obtain ⟨m, ends, left⟩ := bracketsAhead_ends behind s 0
      refine .inr ⟨_, m, ?_, bind_ok ends⟩
      rw [left, Nat.zero_add]
      rfl
    | identifier name =>
      obtain ⟨m, ends, left⟩ := namesAhead_ends behind s
      obtain ⟨m', ends', left'⟩ := bracketsAhead_ends left s 0
      refine .inr ⟨false, m', ?_, ?_⟩
      · rw [left']
        rfl
      · exact (bind_ok ends).trans (bind_ok ends')
    | _ => exact .inl ⟨rfl, rfl⟩

theorem opensDeclaration_ends (h : w.At l es c) :
    Track.opensDeclaration l w = some (.ok c.opensDeclaration, w) := by
  have start : (w.cursor l).rest.drop 0 = c.rest := congrArg Cursor.rest h.cursor
  rw [Track.opensDeclaration, Cursor.opensDeclaration]
  obtain ⟨nothing, ends⟩ | ⟨bare, m, found, ends⟩ := typeAhead_ends start
  · rw [bind_ok ends, nothing]
    rfl
  · rw [bind_ok ends, found]
    refine (ahead_bind m _).trans ?_
    cases (w.cursor l).rest.drop m <;> rfl

theorem opensCast_of {us rest : List Lexeme} {bare : Bool}
    (found : Cursor.skipType? us = some (bare, rest)) :
    Cursor.opensCast us = (rest.head?.map (·.token) == some (.symbol .rightParen)
      && (bare || ((rest.drop 1).head?.map (·.token)).any Cursor.startsCastOperand)) := by
  rw [Cursor.opensCast, found]
  obtain _ | ⟨⟨t, s⟩, rest⟩ := rest
  · rfl
  · cases t with
    | symbol sign =>
      cases sign with
      | rightParen => cases rest <;> rfl
      | _ => rfl
    | _ => rfl

theorem opensCast_ends (h : w.At l es c) :
    Track.opensCast l w = some (.ok (Cursor.opensCast (c.rest.drop 1)), w) := by
  rw [Track.opensCast, ← h.cursor]
  obtain ⟨nothing, ends⟩ | ⟨bare, m, found, ends⟩ := typeAhead_ends (l := l) (w := w) (n := 1) rfl
  · rw [bind_ok ends, Cursor.opensCast, nothing]
    rfl
  · rw [bind_ok ends, opensCast_of found]
    refine (ahead_bind m _).trans ?_
    cases ((w.cursor l).rest.drop m).head?.map (·.token) == some (.symbol .rightParen) with
    | false => rfl
    | true =>
      refine (ahead_bind (m + 1) _).trans ?_
      rw [← List.drop_drop]
      rfl

/-! ### Expressions -/

/-- What a minus sign may stand before. -/
theorem negatedInt?_cases (h : w.At l es c) :
    (c.negatedInt? = none ∧
        ∀ op, signedInt? op c.current? ((c.rest.drop 1).head?.map (·.token)) = none) ∨
      ∃ n d, c.negatedInt? = some (n, c.span, d) ∧ w.next.At l es d.1 ∧
        advance l w = some (.ok (), w.next) ∧
        ∀ op, signedInt? op c.current? ((c.rest.drop 1).head?.map (·.token))
          = if op = .negate then some n else none := by
  obtain ⟨p, rfl⟩ | ⟨t, s, us, p, rfl, next⟩ := h.cases
  · exact .inl ⟨rfl, fun op => by cases op <;> rfl⟩
  · cases t with
    | int n =>
      simp only [Cursor.negatedInt?]
      by_cases call : us.head?.map (·.token) = some (.symbol .dot)
      · refine .inl ⟨if_pos call, fun op => ?_⟩
        cases op with
        | negate => exact if_pos call
        | _ => rfl
      · refine .inr ⟨n, _, if_neg call, next, advance_apply h, fun op => ?_⟩
        cases op with
        | negate => exact if_neg call
        | _ => rfl
    | _ => exact .inl ⟨rfl, fun op => by cases op <;> rfl⟩

mutual

/-- A walk has no measure of its own, so the induction on how it goes on is that of the steps, on
the tokens that the cursor has left. -/
theorem expression_follows {c : Cursor} {w : Walker} (h : w.At l es c) :
    Follows l es id (Track.expression l w) (Cursor.expression c) := by
  rw [Track.expression, Cursor.expression]
  refine (conditional_follows h).andMaybe fun target d shorter w₁ h₁ => ?_
  obtain ⟨p, rfl⟩ | ⟨t, s, us, p, rfl, h₂⟩ := h₁.cases
  · rw [current_nil h₁]
    exact .stay rfl h₁
  · have size : us.length + 1 < c.remaining := shorter
    rw [current_cons h₁, Option.bind_some]
    dsimp only
    cases op : assignOp? t with
    | none => exact .stay rfl h₁
    | some op' =>
      dsimp only
      by_cases assignable : target.isAssignable = true
      · rw [if_pos assignable, if_pos assignable, advance_bind h₁, Follows.loosen_iff,
          Follows.behind_iff]
        exact (expression_follows h₂).map fun _ _ => rfl
      · rw [if_neg assignable, if_neg assignable]
        exact .error h₁ rfl
termination_by 8 * c.remaining + 5
decreasing_by
  all_goals simp only [Cursor.past, Cursor.remaining] at *; omega

theorem conditional_follows {c : Cursor} {w : Walker} (h : w.At l es c) :
    Follows l es id (Track.conditional l w) (Cursor.conditional c) := by
  rw [Track.conditional, Cursor.conditional]
  refine (infixes_follows h 1).andMaybe fun test d shorter w₁ h₁ => ?_
  obtain ⟨p, rfl⟩ | ⟨t, s, us, p, rfl, h₂⟩ := h₁.cases
  · rw [bind_ok (eat_no h₁ rfl)]
    exact .stay rfl h₁
  · have size : us.length + 1 < c.remaining := shorter
    by_cases question : t = .symbol .question
    · subst question
      rw [bind_ok (eat_yes h₁)]
      simp only [if_true, Follows.loosen_iff, Follows.behind_iff]
      refine (expression_follows h₂).andThen fun thenExpr e shorter₁ w₃ h₃ => ?_
      refine (expect_follows h₃ (.symbol .colon)).andThen fun _ f shorter₂ w₄ h₄ => ?_
      exact (conditional_follows h₄).map fun _ _ => rfl
    · rw [bind_ok (eat_no h₁ (at_other question))]
      simp only [if_neg question]
      exact .stay rfl h₁
termination_by 8 * c.remaining + 4
decreasing_by
  all_goals simp only [Cursor.past, Cursor.remaining] at *; omega

theorem infixes_follows {c : Cursor} {w : Walker} (h : w.At l es c) (level : Nat) :
    Follows l es id (Track.infixes l level w) (Cursor.infixes level c) := by
  rw [Track.infixes, Cursor.infixes]
  exact (unary_follows h).andMaybe fun left d shorter w₁ h₁ => infixLoop_follows h₁ level left
termination_by 8 * c.remaining + 3

theorem infixLoop_follows {c : Cursor} {w : Walker} (h : w.At l es c) (level : Nat)
    (left : Expr) :
    Follows l es id (Track.infixLoop l level left w) (Cursor.infixTail level left c) := by
  rw [Track.infixLoop, Cursor.infixTail, position_bind]
  obtain ⟨p, rfl⟩ | ⟨t, s, us, p, whole, h₁⟩ := h.cases
  · rw [current_nil h]
    exact .stay rfl h
  · have size : us.length + 1 = c.remaining := (congrArg Cursor.remaining whole).symm
    rw [whole] at h ⊢
    rw [current_cons h, Option.bind_some]
    dsimp only
    cases op : InfixOp.ofToken? t with
    | none => exact .stay rfl h
    | some op' =>
      dsimp only
      by_cases tight : level ≤ op'.level
      · rw [if_pos tight, if_pos tight, advance_bind h, Follows.loosen_iff, Follows.behind_iff]
        refine (infixes_follows h₁ (op'.level + 1)).andMaybe fun right d shorter w₂ h₂ => ?_
        rw [lap_bind]
        exact infixLoop_follows (h₂.lapped .operators (h.lt h₂ (Nat.lt_succ_of_lt shorter))) ..
      · rw [if_neg tight, if_neg tight]
        exact .stay rfl h
termination_by 8 * c.remaining + 7
decreasing_by
  all_goals simp only [Cursor.past, Cursor.remaining] at *; omega

theorem unary_follows {c : Cursor} {w : Walker} (h : w.At l es c) :
    Follows l es id (Track.unary l w) (Cursor.unary c) := by
  rw [Track.unary, Cursor.unary, span_bind, h.cursor]
  have plain := postfixes_follows h
  have casts := opensCast_ends h
  obtain ⟨p, rfl⟩ | ⟨t, s, us, p, whole, h₁⟩ := h.cases
  · rw [current_nil h, Option.bind_none]
    dsimp only
    rw [check_bind, bind_ok casts, h.cursor]
    exact plain
  · have size : us.length + 1 = c.remaining := (congrArg Cursor.remaining whole).symm
    rw [whole] at h plain casts ⊢
    rw [current_cons h, Option.bind_some]
    dsimp only
    cases sign : signOp? t with
    | some op =>
      dsimp only
      have operand : Follows l es id _ _ := (unary_follows h₁).map
        (k := fun operand => pure (Expr.unary op operand (s.through operand.span))) (v := id)
        (g := fun operand => Expr.unary op operand (s.through operand.span)) fun _ _ => rfl
      rw [advance_bind h, current_bind, ahead_bind, h₁.cursor]
      obtain ⟨none_, signed⟩ | ⟨n, d, some_, h₂, moved, signed⟩ := negatedInt?_cases h₁
      · rw [none_, signed]
        cases op <;> exact Follows.behind_iff.2 operand
      · rw [some_, signed]
        cases op with
        | negate =>
          dsimp only
          rw [if_pos rfl, Follows.behind_iff]
          dsimp only
          rw [span_bind, h₁.cursor]
          exact .ok (bind_ok moved) h₂
        | _ => exact Follows.behind_iff.2 operand
    | none =>
      dsimp only
      rw [check_bind, bind_ok casts, h.cursor]
      by_cases cast : t = .symbol .leftParen ∧ Cursor.opensCast us = true
      · obtain ⟨rfl, opens⟩ := cast
        rw [if_pos (by exact opens), if_pos ⟨rfl, opens⟩, advance_bind h, Follows.behind_iff]
        refine (typeName_follows h₁).andThen fun type d shorter₁ w₂ h₂ => ?_
        refine (expect_follows h₂ (.symbol .rightParen)).andThen fun _ e shorter₂ w₃ h₃ => ?_
        exact (unary_follows h₃).map fun _ _ => rfl
      · rw [if_neg cast, if_neg]
        · exact plain
        · rw [Bool.and_eq_true, at_iff]
          exact cast
termination_by 8 * c.remaining + 2
decreasing_by
  all_goals simp only [Cursor.past, Cursor.remaining] at *; omega

theorem postfixes_follows {c : Cursor} {w : Walker} (h : w.At l es c) :
    Follows l es id (Track.postfixes l w) (Cursor.postfixes c) := by
  rw [Track.postfixes, Cursor.postfixes]
  exact (primary_follows h).andMaybe fun target d shorter w₁ h₁ => postfixLoop_follows h₁ target
termination_by 8 * c.remaining + 1

theorem postfixLoop_follows {c : Cursor} {w : Walker} (h : w.At l es c) (target : Expr) :
    Follows l es id (Track.postfixLoop l target w) (Cursor.postfixTail target c) := by
  rw [Track.postfixLoop, Cursor.postfixTail, position_bind]
  obtain ⟨p, rfl⟩ | ⟨t, s, us, p, whole, h₁⟩ := h.cases
  · rw [bind_ok (eat_no h rfl)]
    exact .stay rfl h
  · have size : us.length + 1 = c.remaining := (congrArg Cursor.remaining whole).symm
    rw [whole] at h ⊢
    dsimp only
    by_cases dot : t = .symbol .dot
    · subst dot
      rw [bind_ok (eat_yes h), if_pos rfl, if_pos rfl, Follows.loosen_iff, Follows.behind_iff]
      refine (identifier_follows h₁).andMaybe ?_
      rintro ⟨name, nameSpan⟩ d shorter w₂ h₂
      dsimp only
      rw [check_symbol_bind, h₂.cursor]
      by_cases call : d.atSymbol .leftParen = true
      · rw [if_pos call, if_pos call, Follows.loosen_iff]
        refine (arguments_follows h₂).andMaybe fun args e shorter₁ w₃ h₃ => ?_
        rw [previous_bind, lap_bind, h₃.cursor]
        have shorter₂ := Nat.lt_trans shorter₁ (Nat.lt_succ_of_lt shorter)
        exact postfixLoop_follows (h₃.lapped .postfixes (h.lt h₃ shorter₂)) _
      · rw [if_neg call, if_neg call, lap_bind]
        exact postfixLoop_follows (h₂.lapped .postfixes (h.lt h₂ (Nat.lt_succ_of_lt shorter))) _
    · rw [bind_ok (eat_no h (at_other dot)), if_neg dot]
      exact .stay rfl h
termination_by 8 * c.remaining + 7
decreasing_by
  all_goals simp only [Cursor.past, Cursor.remaining] at *; omega

theorem primary_follows {c : Cursor} {w : Walker} (h : w.At l es c) :
    Follows l es id (Track.primary l w) (Cursor.primary c) := by
  rw [Track.primary, Cursor.primary, span_bind, h.cursor]
  have wrong := suggest_error .expression (refuse_apply Expr h [])
  obtain ⟨p, rfl⟩ | ⟨t, s, us, p, whole, h₁⟩ := h.cases
  · rw [current_nil h]
    exact .error h wrong
  · have size : us.length + 1 = c.remaining := (congrArg Cursor.remaining whole).symm
    rw [whole] at h wrong ⊢
    rw [current_cons h]
    dsimp only
    cases literal : literal? t with
    | some value => exact .ok (advance_bind h _) h₁
    | none =>
      dsimp only
      cases t with
      | int n => exact .error h rfl
      | keyword word =>
        cases word with
        | this => exact .ok (advance_bind h _) h₁
        | super =>
          dsimp only
          rw [advance_bind h, Follows.behind_iff]
          refine (expect_follows h₁ (.symbol .dot)).andThen fun _ d shorter₁ w₂ h₂ => ?_
          refine (identifier_follows h₂).andThen ?_
          rintro ⟨name, nameSpan⟩ e shorter₂ w₃ h₃
          dsimp only
          rw [check_symbol_bind, h₃.cursor]
          by_cases call : e.atSymbol .leftParen = true
          · rw [if_pos call, if_pos call]
            exact (arguments_follows h₃).mapAt fun _ _ => rfl
          · rw [if_neg call, if_neg call]
            exact .error h₃ rfl
        | _ => exact .error h wrong
      | identifier name =>
        dsimp only
        rw [advance_bind h, check_symbol_bind, h₁.cursor]
        split
        · rw [Follows.behind_iff]
          exact (arguments_follows h₁).mapAt fun _ _ => rfl
        · exact .ok rfl h₁
      | symbol sign =>
        cases sign with
        | leftParen =>
          dsimp only
          rw [advance_bind h, Follows.behind_iff]
          refine (expression_follows h₁).andThen fun inner d shorter₁ w₂ h₂ => ?_
          exact (expect_follows h₂ (.symbol .rightParen)).mapAt fun _ _ => rfl
        | _ => exact .error h wrong
      | _ => exact .error h wrong
termination_by 8 * c.remaining
decreasing_by
  all_goals simp only [Cursor.past, Cursor.remaining] at *; omega

theorem arguments_follows {c : Cursor} {w : Walker} (h : w.At l es c) :
    Follows l es id (Track.arguments l w) (Cursor.arguments c) := by
  rw [Track.arguments, Cursor.arguments]
  refine (expect_follows h (.symbol .leftParen)).andThen fun _ d shorter w₁ h₁ => ?_
  have tail := argumentLoop_follows h₁ []
  obtain ⟨p, rfl⟩ | ⟨t, s, us, p, rfl, h₂⟩ := h₁.cases
  · rw [bind_ok (eat_no h₁ rfl)]
    exact tail
  · dsimp only
    by_cases close : t = .symbol .rightParen
    · subst close
      rw [bind_ok (eat_yes h₁), if_pos rfl, if_pos rfl]
      exact .ok rfl h₂
    · rw [bind_ok (eat_no h₁ (at_other close)), if_neg close]
      exact tail
termination_by 8 * c.remaining

theorem argumentLoop_follows {c : Cursor} {w : Walker} (h : w.At l es c) (args : List Expr) :
    Follows l es (args ++ ·) (Track.argumentLoop l args w) (Cursor.argumentTail c) := by
  rw [Track.argumentLoop, Cursor.argumentTail, position_bind]
  refine (expression_follows h).andThen fun arg d shorter w₁ h₁ => ?_
  have close := (expect_follows h₁ (.symbol .rightParen)).map
    (k := fun _ => pure (args ++ [arg])) (v := (args ++ ·)) (g := fun _ => [arg]) fun _ _ => rfl
  obtain ⟨p, rfl⟩ | ⟨t, s, us, p, rfl, h₂⟩ := h₁.cases
  · rw [bind_ok (eat_no h₁ rfl)]
    exact .error h₁ (bind_error (expect_wrong h₁ rfl))
  · have size : us.length + 1 < c.remaining := shorter
    dsimp only
    by_cases comma : t = .symbol .comma
    · subst comma
      rw [bind_ok (eat_yes h₁), if_pos rfl, if_pos rfl, lap_bind, Follows.behind_iff,
        Follows.map_iff]
      have more := argumentLoop_follows (h₂.lapped .arguments (h.lt h₂ (Nat.lt_of_succ_lt size)))
        (args ++ [arg])
      simp only [List.append_assoc, List.singleton_append] at more
      exact more
    · rw [bind_ok (eat_no h₁ (at_other comma)), if_neg comma]
      exact close
termination_by 8 * c.remaining + 6
decreasing_by
  all_goals simp only [Cursor.past, Cursor.remaining] at *; omega

end

end Classwright.Source
