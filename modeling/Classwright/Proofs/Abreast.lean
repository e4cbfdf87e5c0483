import Classwright.Proofs.Reading
import Classwright.Proofs.Relocation

/-!
# Reading two sources abreast

A reader that stands in front of the same tokens in two sources reads the same in both, or fails in
both with the same error, up to places. How far the sources agree is a matter of the `Tandem`: it
is enough that they agree up to the token with which a declaration ends, since no reader looks at
what is behind it.
-/

namespace Classwright

/-- Whether the token neither ends a statement nor opens or closes a block. -/
def Token.isFree (t : Token) : Bool :=
  t != .symbol .semicolon && t != .symbol .leftBrace && t != .symbol .rightBrace

namespace Source

/-! ### Two sources -/

/-- Two sources: where they end, which of their tokens are left while `k` braces are open within a
declaration, and which are left behind it. `move` takes stretches of the first to the second. -/
structure Sides where
  move : Span → Span
  finish : Span
  finish' : Span
  within : Nat → List Lexeme → List Lexeme → Prop
  behind : List Lexeme → List Lexeme → Prop

namespace Sides

variable {S : Sides} {k : Nat} {c c' : Cursor}

/-- What is left behind a semicolon or a closing brace, with `k` braces still open. -/
def past (S : Sides) : Nat → List Lexeme → List Lexeme → Prop
  | 0 => S.behind
  | k + 1 => S.within (k + 1)

/-- What is left behind a token that both sides have. -/
structure Next (S : Sides) (k : Nat) (t : Token) (us us' : List Lexeme) : Prop where
  free : t.isFree = true → S.within k us us'
  semicolon : t = .symbol .semicolon → S.past k us us'
  opening : t = .symbol .leftBrace → S.within (k + 1) us us'
  closing : ∀ j, k = j + 1 → t = .symbol .rightBrace → S.past j us us'

/-- Both cursors stand within a declaration, in front of the same tokens. -/
structure Facing (S : Sides) (k : Nat) (c c' : Cursor) : Prop where
  rest : S.within k c.rest c'.rest
  finish : c.finish = S.finish
  finish' : c'.finish = S.finish'

/-- Both cursors stand behind the same token. -/
structure On (S : Sides) (R : List Lexeme → List Lexeme → Prop) (c c' : Cursor) : Prop where
  rest : R c.rest c'.rest
  finish : c.finish = S.finish
  finish' : c'.finish = S.finish'
  previous : c'.previous = S.move c.previous

theorem On.facing (h : S.On (S.within k) c c') : S.Facing k c c' := ⟨h.rest, h.finish, h.finish'⟩

section Behind

variable {R : List Lexeme → List Lexeme → Prop} {t : Token} {us us' : List Lexeme}

theorem on_past (rest : R us us') (s p p' : Span) :
    S.On R (Cursor.past ⟨⟨t, s⟩ :: us, S.finish, p⟩ ⟨t, s⟩ us)
      (Cursor.past ⟨⟨t, S.move s⟩ :: us', S.finish', p'⟩ ⟨t, S.move s⟩ us') :=
  ⟨rest, rfl, rfl, rfl⟩

/-- Behind a token within a statement. -/
theorem Next.on (next : S.Next k t us us') (free : t.isFree = true) (s p p' : Span) :
    S.On (S.within k) (Cursor.past ⟨⟨t, s⟩ :: us, S.finish, p⟩ ⟨t, s⟩ us)
      (Cursor.past ⟨⟨t, S.move s⟩ :: us', S.finish', p'⟩ ⟨t, S.move s⟩ us') :=
  on_past (next.free free) s p p'

end Behind

end Sides

/-- Two sources whose declarations agree token by token. -/
structure Tandem extends Sides where
  carries : Span.Carries move
  step : ∀ {k ts ts'}, within k ts ts' →
    (ts = [] ∧ ts' = [] ∧ finish' = move finish) ∨
      ∃ t s us us', ts = ⟨t, s⟩ :: us ∧ ts' = ⟨t, move s⟩ :: us' ∧ toSides.Next k t us us'

@[simp] theorem Tandem.move_through (T : Tandem) (s t : Span) :
    T.move (s.through t) = (T.move s).through (T.move t) := T.carries s t

/-- Two sources that agree token by token to their ends, as `R` says. -/
def Tandem.throughout {move : Span → Span} (carries : Span.Carries move) (finish finish' : Span)
    (R : List Lexeme → List Lexeme → Prop)
    (step : ∀ {ts ts'}, R ts ts' → (ts = [] ∧ ts' = [] ∧ finish' = move finish) ∨
      ∃ t s us us', ts = ⟨t, s⟩ :: us ∧ ts' = ⟨t, move s⟩ :: us' ∧ R us us') : Tandem where
  move := move
  finish := finish
  finish' := finish'
  within _ := R
  behind := R
  carries := carries
  step := by
    intro k ts ts' h
    obtain ends | ⟨t, s, us, us', rfl, rfl, left⟩ := step h
    · exact .inl ends
    · refine .inr ⟨t, s, us, us', rfl, rfl, fun _ => left, fun _ => ?_, fun _ => left,
        fun j _ _ => ?_⟩
      · cases k <;> exact left
      · cases j <;> exact left

namespace Sides.Facing

variable {T : Tandem} {k : Nat} {c c' : Cursor}

/-- The next token is the same, or there is none on both sides. -/
theorem cases (h : T.Facing k c c') :
    (∃ p p', c = ⟨[], T.finish, p⟩ ∧ c' = ⟨[], T.finish', p'⟩ ∧ T.finish' = T.move T.finish) ∨
      ∃ t s us us' p p', c = ⟨⟨t, s⟩ :: us, T.finish, p⟩ ∧
        c' = ⟨⟨t, T.move s⟩ :: us', T.finish', p'⟩ ∧ T.Next k t us us' := by
  obtain ⟨rest, f, p⟩ := c
  obtain ⟨rest', f', p'⟩ := c'
  obtain ⟨within, finish, finish'⟩ := h
  dsimp only at within finish finish'
  subst finish finish'
  rcases T.step within with ⟨rfl, rfl, ends⟩ | ⟨t, s, us, us', rfl, rfl, next⟩
  · exact .inl ⟨p, p', rfl, rfl, ends⟩
  · exact .inr ⟨t, s, us, us', p, p', rfl, rfl, next⟩

theorem span (h : T.Facing k c c') : c'.span = T.move c.span := by
  obtain ⟨p, p', rfl, rfl, ends⟩ | ⟨t, s, us, us', p, p', rfl, rfl, next⟩ := h.cases
  · exact ends
  · rfl

theorem current? (h : T.Facing k c c') : c'.current? = c.current? := by
  obtain ⟨p, p', rfl, rfl, ends⟩ | ⟨t, s, us, us', p, p', rfl, rfl, next⟩ := h.cases <;> rfl

theorem atSymbol (h : T.Facing k c c') (s : Symbol) : c'.atSymbol s = c.atSymbol s := by
  rw [Cursor.atSymbol, Cursor.atSymbol, Cursor.at_, Cursor.at_, h.current?]

theorem unexpected (h : T.Facing k c c') (expected : List Token) :
    c'.unexpected expected = (c.unexpected expected).relocate T.move := by
  unfold Cursor.unexpected
  rw [h.current?, h.span]
  cases c.current? <;> rfl

end Sides.Facing

/-! ### Steps on both sides -/

namespace Step

variable {α β γ δ : Type} {m n m' n' : Nat} {f : Span → Span} {v : α → β} {w : γ → δ}
  {Q R : Cursor → Cursor → Prop} {s : Step α m} {s' : Step β n}

/-- Both steps read the same and stop at related places, or fail alike. -/
def Alike (f : Span → Span) (v : α → β) (Q : Cursor → Cursor → Prop) :
    Step α m → Step β n → Prop
  | .ok a d _, .ok b d' _ => b = v a ∧ Q d d'
  | .error e _, .error e' _ => e' = e.relocate f
  | _, _ => False

theorem Alike.stay {c c' : Cursor} {a : α} {b : β} (value : b = v a) (stop : Q c c') :
    Alike f v Q (Step.stay a c) (Step.stay b c') := ⟨value, stop⟩

theorem Alike.weaken (h : Alike f v Q s s') (onward : ∀ d d', Q d d' → R d d') :
    Alike f v R s s' := by
  cases s <;> cases s' <;> first | exact h.elim | skip
  · exact ⟨h.1, onward _ _ h.2⟩
  · exact h

theorem Alike.of_ok {a : α} {d : Cursor} (h : Alike f v Q s s') (read : s.Gives a d) :
    ∃ d', s'.Gives (v a) d' ∧ Q d d' := by
  obtain ⟨shorter, rfl⟩ := read
  cases s' with
  | ok b d' shorter' =>
    obtain ⟨rfl, stop⟩ := h
    exact ⟨d', ⟨shorter', rfl⟩, stop⟩
  | error => exact h.elim

theorem Alike.of_error {e : SyntaxError} {d : Cursor} (h : Alike f v Q s s')
    (failed : s = .error e d) : ∃ d', s' = .error (e.relocate f) d' := by
  subst failed
  cases s' with
  | ok => exact h.elim
  | error e' d' =>
    obtain rfl : e' = e.relocate f := h
    exact ⟨d', rfl⟩

theorem alike_upTo {h : m ≤ m'} {h' : n ≤ n'} :
    Alike f v Q (s.upTo h) (s'.upTo h') ↔ Alike f v Q s s' := by
  cases s <;> cases s' <;> exact Iff.rfl

theorem alike_loosen : Alike f v Q s.loosen s'.loosen ↔ Alike f v Q s s' := alike_upTo

theorem alike_behind {c c' : Cursor} {t t' : Lexeme} {us us' : List Lexeme}
    {h : c.rest = t :: us} {h' : c'.rest = t' :: us'} {s : Step α (c.past t us).remaining}
    {s' : Step β (c'.past t' us').remaining} :
    Alike f v Q (s.behind h) (s'.behind h') ↔ Alike f v Q s s' := alike_upTo

theorem alike_behindMaybe {c c' : Cursor} {t t' : Lexeme} {us us' : List Lexeme}
    {h : c.rest = t :: us} {h' : c'.rest = t' :: us'}
    {s : Step α ((c.past t us).remaining + 1)} {s' : Step β ((c'.past t' us').remaining + 1)} :
    Alike f v Q (s.behindMaybe h) (s'.behindMaybe h') ↔ Alike f v Q s s' := alike_upTo

theorem Alike.suggest (h : Alike f v Q s s') (hint : Suggestion) :
    Alike f v Q (s.suggest hint) (s'.suggest hint) := by
  cases s <;> cases s' <;> first | exact h | exact h.elim | skip
  rename_i e _ e' _
  obtain rfl : e' = e.relocate f := h
  rfl

theorem Alike.mapAt {g : α → Cursor → γ} {q : β → Cursor → δ} (h : Alike f v Q s s')
    (value : ∀ a d d', Q d d' → q (v a) d' = w (g a d)) :
    Alike f w Q (s.mapAt g) (s'.mapAt q) := by
  cases s <;> cases s' <;> first | exact h.elim | skip
  · obtain ⟨rfl, stop⟩ := h
    exact ⟨value _ _ _ stop, stop⟩
  · exact h

theorem Alike.map {g : α → γ} {q : β → δ} (h : Alike f v Q s s')
    (value : ∀ a, q (v a) = w (g a)) : Alike f w Q (s.map g) (s'.map q) := by
  cases s <;> cases s' <;> first | exact h.elim | skip
  · obtain ⟨rfl, stop⟩ := h
    exact ⟨value _, stop⟩
  · exact h

theorem Alike.andThen {g : (a : α) → (d : Cursor) → d.remaining < m → Step γ d.remaining}
    {q : (b : β) → (d : Cursor) → d.remaining < n → Step δ d.remaining} (h : Alike f v Q s s')
    (next : ∀ a d d' shorter shorter', Q d d' →
      Alike f w R (g a d shorter) (q (v a) d' shorter')) :
    Alike f w R (s.andThen g) (s'.andThen q) := by
  cases s <;> cases s' <;> first | exact h.elim | skip
  · obtain ⟨rfl, stop⟩ := h
    simp only [Step.andThen, alike_upTo]
    exact next _ _ _ _ _ stop
  · exact h

theorem Alike.andMaybe {g : (a : α) → (d : Cursor) → d.remaining < m → Step γ (d.remaining + 1)}
    {q : (b : β) → (d : Cursor) → d.remaining < n → Step δ (d.remaining + 1)}
    (h : Alike f v Q s s')
    (next : ∀ a d d' shorter shorter', Q d d' →
      Alike f w R (g a d shorter) (q (v a) d' shorter')) :
    Alike f w R (s.andMaybe g) (s'.andMaybe q) := by
  cases s <;> cases s' <;> first | exact h.elim | skip
  · obtain ⟨rfl, stop⟩ := h
    simp only [Step.andMaybe, alike_upTo]
    exact next _ _ _ _ _ stop
  · exact h

theorem Alike.maybeThen {s : Step α (m + 1)} {s' : Step β (n + 1)}
    {g : (a : α) → (d : Cursor) → d.remaining ≤ m → Step γ d.remaining}
    {q : (b : β) → (d : Cursor) → d.remaining ≤ n → Step δ d.remaining}
    (h : Alike f v Q s s')
    (next : ∀ a d d' bound bound', Q d d' → Alike f w R (g a d bound) (q (v a) d' bound')) :
    Alike f w R (s.maybeThen g) (s'.maybeThen q) := by
  cases s <;> cases s' <;> first | exact h.elim | skip
  · obtain ⟨rfl, stop⟩ := h
    simp only [Step.maybeThen, alike_upTo]
    exact next _ _ _ _ _ stop
  · exact h

end Step

namespace Tandem

open Step Cursor

variable {T : Tandem} {k : Nat} {c c' : Cursor}

/-! ### Single tokens -/

theorem expect_alike {R : List Lexeme → List Lexeme → Prop} {t : Token} (h : T.Facing k c c')
    (onward : ∀ us us', T.Next k t us us' → R us us') :
    Alike T.move id (T.On R) (c.expect t) (c'.expect t) := by
  have wrong := h.unexpected [t]
  obtain ⟨p, p', rfl, rfl, ends⟩ | ⟨u, s, us, us', p, p', rfl, rfl, next⟩ := h.cases
  · exact wrong
  · simp only [expect]
    by_cases same : u = t
    · subst same
      rw [if_pos rfl, if_pos rfl]
      exact ⟨rfl, Sides.on_past (onward us us' next) s p p'⟩
    · rw [if_neg same, if_neg same]
      exact wrong

theorem expectSymbol_alike {s : Symbol} (h : T.Facing k c c')
    (free : (Token.symbol s).isFree = true) :
    Alike T.move id (T.On (T.within k)) (c.expectSymbol s) (c'.expectSymbol s) :=
  expect_alike h fun _ _ next => next.free free

theorem expectSemicolon_alike (h : T.Facing k c c') :
    Alike T.move id (T.On (T.past k)) c.expectSemicolon c'.expectSemicolon :=
  (expect_alike h fun _ _ next => next.semicolon rfl).suggest .semicolon

theorem expectIdentifier_alike (h : T.Facing k c c') :
    Alike T.move (Prod.map id T.move) (T.On (T.within k)) c.expectIdentifier
      c'.expectIdentifier := by
  have wrong := h.unexpected [.identifier ""]
  obtain ⟨p, p', rfl, rfl, ends⟩ | ⟨t, s, us, us', p, p', rfl, rfl, next⟩ := h.cases
  · exact wrong
  · cases t with
    | identifier name => exact ⟨rfl, next.on rfl s p p'⟩
    | _ => exact wrong

theorem eat_alike {t : Token} (h : T.On (T.within k) c c') (free : t.isFree = true) :
    Alike T.move id (T.On (T.within k)) (c.eat t) (c'.eat t) := by
  obtain ⟨p, p', rfl, rfl, ends⟩ | ⟨u, s, us, us', p, p', rfl, rfl, next⟩ := h.facing.cases
  · exact .stay rfl h
  · simp only [eat]
    by_cases same : u = t
    · subst same
      rw [if_pos rfl, if_pos rfl]
      exact ⟨rfl, next.on free s p p'⟩
    · rw [if_neg same, if_neg same]
      exact .stay rfl h

/-! ### Types -/

section Ahead

variable {ts ts' : List Lexeme}

theorem dottedTail_within (h : T.within k ts ts') (last : Span) :
    ∃ rest', dottedTail (T.move last) ts'
        = ((dottedTail last ts).1, T.move (dottedTail last ts).2.1, rest') ∧
      T.within k (dottedTail last ts).2.2 rest' := by
  fun_induction dottedTail last ts generalizing ts' with
  | case1 last s name span ts text final rest same ih =>
    obtain ⟨⟨⟩, -⟩ | ⟨_, _, us, us', ⟨⟩, rfl, next⟩ := T.step h
    obtain ⟨⟨⟩, -⟩ | ⟨_, _, vs, vs', ⟨⟩, rfl, next'⟩ := T.step (next.free rfl)
    obtain ⟨rest', tail, within⟩ := ih (next'.free rfl)
    rw [same] at tail within
    refine ⟨rest', ?_, within⟩
    rw [dottedTail, tail]
  | case2 last ts other =>
    refine ⟨ts', ?_, h⟩
    rw [dottedTail]
    rintro s name span vs' rfl
    obtain ⟨-, ⟨⟩, -⟩ | ⟨_, _, us, us', rfl, ⟨⟩, next⟩ := T.step h
    obtain ⟨-, ⟨⟩, -⟩ | ⟨_, _, vs, vs', rfl, ⟨⟩, next'⟩ := T.step (next.free rfl)
    exact other _ _ _ _ rfl

theorem bracketPairs_within (h : T.within k ts ts') (last : Span) :
    ∃ rest', bracketPairs (T.move last) ts'
        = ((bracketPairs last ts).1, T.move (bracketPairs last ts).2.1, rest') ∧
      T.within k (bracketPairs last ts).2.2 rest' := by
  fun_induction bracketPairs last ts generalizing ts' with
  | case1 last s span ts dims final rest same ih =>
    obtain ⟨⟨⟩, -⟩ | ⟨_, _, us, us', ⟨⟩, rfl, next⟩ := T.step h
    obtain ⟨⟨⟩, -⟩ | ⟨_, _, vs, vs', ⟨⟩, rfl, next'⟩ := T.step (next.free rfl)
    obtain ⟨rest', tail, within⟩ := ih (next'.free rfl)
    rw [same] at tail within
    refine ⟨rest', ?_, within⟩
    rw [bracketPairs, tail]
  | case2 last ts other =>
    refine ⟨ts', ?_, h⟩
    rw [bracketPairs]
    rintro s span vs' rfl
    obtain ⟨-, ⟨⟩, -⟩ | ⟨_, _, us, us', rfl, ⟨⟩, next⟩ := T.step h
    obtain ⟨-, ⟨⟩, -⟩ | ⟨_, _, vs, vs', rfl, ⟨⟩, next'⟩ := T.step (next.free rfl)
    exact other _ _ _ rfl

/-- Both sides start with a type and go on alike behind it, or neither does. -/
theorem skipType?_within (h : T.within k ts ts') :
    (skipType? ts = none ∧ skipType? ts' = none) ∨
      ∃ bare us us', skipType? ts = some (bare, us) ∧ skipType? ts' = some (bare, us') ∧
        T.within k us us' := by
  obtain ⟨rfl, rfl, -⟩ | ⟨t, s, us, us', rfl, rfl, next⟩ := T.step h
  · exact .inl ⟨rfl, rfl⟩
  · cases t with
    | primitive kind =>
      obtain ⟨rest', pairs, within⟩ := bracketPairs_within (next.free rfl) s
      refine .inr ⟨_, _, rest', rfl, ?_, within⟩
      rw [skipType?, pairs]
    | identifier name =>
      obtain ⟨base', dots, within⟩ := dottedTail_within (next.free rfl) s
      obtain ⟨rest', pairs, within⟩ := bracketPairs_within within s
      refine .inr ⟨_, _, rest', rfl, ?_, within⟩
      rw [skipType?, dots, pairs]
    | _ => exact .inl ⟨rfl, rfl⟩

theorem opensCast_within (h : T.within k ts ts') : opensCast ts' = opensCast ts := by
  unfold opensCast
  obtain ⟨none_, none_'⟩ | ⟨bare, us, us', some_, some_', within⟩ := skipType?_within h
  · rw [none_, none_']
  · rw [some_, some_']
    obtain ⟨rfl, rfl, -⟩ | ⟨t, s, vs, vs', rfl, rfl, next⟩ := T.step within
    · rfl
    · by_cases close : t = .symbol .rightParen
      · subst close
        dsimp only
        obtain ⟨rfl, rfl, -⟩ | ⟨u, s', ws, ws', rfl, rfl, -⟩ := T.step (next.free rfl) <;> rfl
      · simp [close]

end Ahead

theorem opensDeclaration_facing (h : T.Facing k c c') :
    c'.opensDeclaration = c.opensDeclaration := by
  unfold Cursor.opensDeclaration
  obtain ⟨none_, none_'⟩ | ⟨bare, us, us', some_, some_', within⟩ := skipType?_within h.rest
  · rw [none_, none_']
  · rw [some_, some_']
    obtain ⟨rfl, rfl, -⟩ | ⟨t, s, vs, vs', rfl, rfl, -⟩ := T.step within <;> rfl

theorem opensConstructor_facing (h : T.Facing k c c') (className : String) :
    c'.opensConstructor className = c.opensConstructor className := by
  unfold Cursor.opensConstructor
  obtain ⟨p, p', rfl, rfl, -⟩ | ⟨t, s, us, us', p, p', rfl, rfl, next⟩ := h.cases
  · rfl
  · by_cases name : t = .identifier className
    · subst name
      obtain ⟨rfl, rfl, -⟩ | ⟨u, s', vs, vs', rfl, rfl, -⟩ := T.step (next.free rfl) <;> rfl
    · have other : (some t == some (Token.identifier className)) = false := by simpa using name
      change (some t == _ && _) = (some t == _ && _)
      rw [other]
      rfl

theorem qualifiedName_alike (h : T.Facing k c c') :
    Alike T.move (Prod.map id T.move) (T.On (T.within k)) c.qualifiedName c'.qualifiedName := by
  refine (expectIdentifier_alike h).andMaybe ?_
  rintro ⟨name, start⟩ d d' - - on
  obtain ⟨rest', tail, within⟩ := dottedTail_within on.rest start
  simp only [Prod.map, id, tail]
  exact ⟨congrArg _ (T.move_through _ _).symm, within, on.finish, on.finish', rfl⟩

theorem typeBase_alike (h : T.Facing k c c') :
    Alike T.move id (T.On (T.within k)) c.typeBase c'.typeBase := by
  have wrong := h.unexpected [.identifier ""]
  have named := (qualifiedName_alike h).map (g := Prod.fst) (q := Prod.fst) (w := id)
    fun _ => rfl
  obtain ⟨p, p', rfl, rfl, -⟩ | ⟨t, s, us, us', p, p', rfl, rfl, next⟩ := h.cases
  · exact congrArg (fun e => { e with suggestion := some .typeName }) wrong
  · cases t with
    | primitive kind => exact ⟨rfl, next.on rfl s p p'⟩
    | identifier name => exact named
    | _ => exact congrArg (fun e => { e with suggestion := some .typeName }) wrong

theorem typeName_alike (h : T.Facing k c c') :
    Alike T.move (TypeName.relocate T.move) (T.On (T.within k)) c.typeName c'.typeName := by
  refine (typeBase_alike h).andMaybe fun name d d' _ _ on => ?_
  obtain ⟨rest', tail, within⟩ := bracketPairs_within on.rest d.previous
  simp only [on.previous, tail]
  exact ⟨by rw [h.span, TypeName.relocate, T.move_through]; rfl, within, on.finish, on.finish', rfl⟩

/-! ### Expressions -/

theorem isFree_of_assignOp? {t : Token} {op : Option BinaryOp} (h : assignOp? t = some op) :
    t.isFree = true := by
  unfold assignOp? at h
  split at h <;> first | rfl | cases h

theorem isFree_of_ofToken? {t : Token} {op : InfixOp} (h : InfixOp.ofToken? t = some op) :
    t.isFree = true := by
  unfold InfixOp.ofToken? at h
  split at h <;> first | rfl | cases h

theorem isFree_of_signOp? {t : Token} {op : SignOp} (h : signOp? t = some op) :
    t.isFree = true := by
  unfold signOp? at h
  split at h <;> first | rfl | cases h

theorem isFree_of_literal? {t : Token} {v : Literal} (h : literal? t = some v) :
    t.isFree = true := by
  cases t with
  | symbol sign => cases h
  | _ => rfl

/-- Both sides go on with the same literal, or neither does. -/
theorem negatedInt?_facing (h : T.Facing k c c') :
    (Cursor.negatedInt? c = none ∧ Cursor.negatedInt? c' = none) ∨
      ∃ n s d d', Cursor.negatedInt? c = some (n, s, d) ∧
        Cursor.negatedInt? c' = some (n, T.move s, d') ∧ T.On (T.within k) d.1 d'.1 := by
  obtain ⟨p, p', rfl, rfl, -⟩ | ⟨t, s, us, us', p, p', rfl, rfl, next⟩ := h.cases
  · exact .inl ⟨rfl, rfl⟩
  · cases t with
    | int n =>
      have dot : us'.head?.map (·.token) = us.head?.map (·.token) := by
        obtain ⟨rfl, rfl, -⟩ | ⟨u, s', vs, vs', rfl, rfl, -⟩ := T.step (next.free rfl) <;> rfl
      simp only [Cursor.negatedInt?, dot]
      by_cases call : us.head?.map (·.token) = some (.symbol .dot)
      · exact .inl ⟨if_pos call, if_pos call⟩
      · exact .inr ⟨n, s, _, _, if_neg call, if_neg call, next.on rfl s p p'⟩
    | _ => exact .inl ⟨rfl, rfl⟩

mutual

theorem expression_alike {c c' : Cursor} (h : T.Facing k c c') :
    Alike T.move (Expr.relocate T.move) (T.On (T.within k)) (expression c) (expression c') := by
  rw [expression, expression]
  refine (conditional_alike h).andMaybe fun target d d' shorter _ on => ?_
  obtain ⟨p, p', rfl, rfl, -⟩ | ⟨t, s, us, us', p, p', rfl, rfl, next⟩ := on.facing.cases
  · exact .stay rfl on
  · have size : us.length + 1 < c.remaining := shorter
    dsimp only
    cases op : assignOp? t with
    | none => exact .stay rfl on
    | some op' =>
      have on := next.on (isFree_of_assignOp? op) s p p'
      dsimp only
      rw [Expr.isAssignable_relocate]
      split
      · rw [alike_loosen, alike_behind]
        refine (expression_alike on.facing).map fun value => ?_
        rw [Expr.relocate, Expr.relocate_span, Expr.relocate_span, T.move_through]
      · rw [Expr.relocate_span]
        rfl
termination_by 8 * c.remaining + 5
decreasing_by
  all_goals simp only [Cursor.past, remaining] at *; omega

theorem conditional_alike {c c' : Cursor} (h : T.Facing k c c') :
    Alike T.move (Expr.relocate T.move) (T.On (T.within k)) (conditional c) (conditional c') := by
  rw [conditional, conditional]
  refine (infixes_alike h 1).andMaybe fun test d d' shorter _ on => ?_
  obtain ⟨p, p', rfl, rfl, -⟩ | ⟨t, s, us, us', p, p', rfl, rfl, next⟩ := on.facing.cases
  · exact .stay rfl on
  · have size : us.length + 1 < c.remaining := shorter
    by_cases question : t = .symbol .question
    · subst question
      have on := next.on rfl s p p'
      simp only [if_true, alike_loosen, alike_behind]
      refine (expression_alike on.facing).andThen fun thenExpr e e' shorter₁ _ on₁ => ?_
      refine (expectSymbol_alike on₁.facing rfl).andThen fun _ g g' shorter₂ _ on₂ => ?_
      refine (conditional_alike on₂.facing).map fun elseExpr => ?_
      simp only [Expr.relocate, Expr.relocate_span, T.move_through]
    · simp only [if_neg question]
      exact .stay rfl on
termination_by 8 * c.remaining + 4
decreasing_by
  all_goals simp only [Cursor.past, remaining] at *; omega

theorem infixes_alike {c c' : Cursor} (h : T.Facing k c c') (level : Nat) :
    Alike T.move (Expr.relocate T.move) (T.On (T.within k)) (infixes level c)
      (infixes level c') := by
  rw [infixes, infixes]
  exact (unary_alike h).andMaybe fun left d d' shorter _ on => infixTail_alike on level left
termination_by 8 * c.remaining + 3

theorem infixTail_alike {c c' : Cursor} (h : T.On (T.within k) c c') (level : Nat) (left : Expr) :
    Alike T.move (Expr.relocate T.move) (T.On (T.within k)) (infixTail level left c)
      (infixTail level (left.relocate T.move) c') := by
  rw [infixTail, infixTail]
  obtain ⟨p, p', rfl, rfl, -⟩ | ⟨t, s, us, us', p, p', whole, rfl, next⟩ := h.facing.cases
  · exact .stay rfl h
  · have size : us.length + 1 = c.remaining := (congrArg remaining whole).symm
    rw [whole] at h ⊢
    dsimp only
    cases op : InfixOp.ofToken? t with
    | none => exact .stay rfl h
    | some op' =>
      have on := next.on (isFree_of_ofToken? op) s p p'
      dsimp only
      split
      · rw [alike_loosen, alike_behind]
        refine (infixes_alike on.facing (op'.level + 1)).andMaybe
          fun right d d' shorter _ on₁ => ?_
        rw [← Expr.relocate_apply T.carries]
        exact infixTail_alike on₁ level _
      · exact .stay rfl h
termination_by 8 * c.remaining + 7
decreasing_by
  all_goals simp only [Cursor.past, remaining] at *; omega

theorem unary_alike {c c' : Cursor} (h : T.Facing k c c') :
    Alike T.move (Expr.relocate T.move) (T.On (T.within k)) (unary c) (unary c') := by
  rw [unary, unary]
  have plain := postfixes_alike h
  obtain ⟨p, p', rfl, rfl, -⟩ | ⟨t, s, us, us', p, p', whole, rfl, next⟩ := h.cases
  · exact plain
  · have size : us.length + 1 = c.remaining := (congrArg remaining whole).symm
    rw [whole] at plain ⊢
    dsimp only
    cases sign : signOp? t with
    | some op =>
      have on := next.on (isFree_of_signOp? sign) s p p'
      have operand : Alike T.move (Expr.relocate T.move) (T.On (T.within k)) _ _ :=
        (unary_alike on.facing).map
          (g := fun operand => Expr.unary op operand (s.through operand.span))
          (q := fun operand => Expr.unary op operand ((T.move s).through operand.span))
          (w := Expr.relocate T.move) fun operand => by
            simp only [Expr.relocate, Expr.relocate_span, T.move_through]
      dsimp only
      obtain ⟨none_, none_'⟩ | ⟨n, span, d, d', some_, some_', on₁⟩ := negatedInt?_facing on.facing
      · rw [none_, none_']
        cases op <;> exact alike_behind.2 operand
      · rw [some_, some_']
        cases op with
        | negate => exact alike_behind.2 ⟨by rw [Expr.relocate, T.move_through], on₁⟩
        | _ => exact alike_behind.2 operand
    | none =>
      dsimp only
      by_cases cast : t = .symbol .leftParen ∧ opensCast us
      · obtain ⟨rfl, opens⟩ := cast
        have on := next.on rfl s p p'
        rw [if_pos ⟨rfl, opens⟩, if_pos ⟨rfl, by rwa [opensCast_within (next.free rfl)]⟩,
          alike_behind]
        refine (typeName_alike on.facing).andThen fun type e e' shorter₁ _ on₁ => ?_
        refine (expectSymbol_alike on₁.facing rfl).andThen fun _ g g' shorter₂ _ on₂ => ?_
        refine (unary_alike on₂.facing).map fun operand => ?_
        simp only [Expr.relocate, Expr.relocate_span, T.move_through]
      · rw [if_neg cast, if_neg]
        · exact plain
        · rintro ⟨rfl, opens⟩
          exact cast ⟨rfl, by rwa [← opensCast_within (next.free rfl)]⟩
termination_by 8 * c.remaining + 2
decreasing_by
  all_goals simp only [Cursor.past, remaining] at *; omega

theorem postfixes_alike {c c' : Cursor} (h : T.Facing k c c') :
    Alike T.move (Expr.relocate T.move) (T.On (T.within k)) (postfixes c) (postfixes c') := by
  rw [postfixes, postfixes]
  exact (primary_alike h).andMaybe fun target d d' shorter _ on => postfixTail_alike on target
termination_by 8 * c.remaining + 1

theorem postfixTail_alike {c c' : Cursor} (h : T.On (T.within k) c c') (target : Expr) :
    Alike T.move (Expr.relocate T.move) (T.On (T.within k)) (postfixTail target c)
      (postfixTail (target.relocate T.move) c') := by
  rw [postfixTail, postfixTail]
  obtain ⟨p, p', rfl, rfl, -⟩ | ⟨t, s, us, us', p, p', whole, rfl, next⟩ := h.facing.cases
  · exact .stay rfl h
  · have size : us.length + 1 = c.remaining := (congrArg remaining whole).symm
    rw [whole] at h ⊢
    dsimp only
    by_cases dot : t = .symbol .dot
    · subst dot
      have on := next.on rfl s p p'
      rw [if_pos rfl, if_pos rfl, alike_loosen, alike_behind]
      refine (expectIdentifier_alike on.facing).andMaybe ?_
      rintro ⟨name, nameSpan⟩ d d' shorter - on₁
      simp only [Prod.map, id]
      rw [on₁.facing.atSymbol]
      split
      · rw [alike_loosen]
        refine (arguments_alike on₁.facing).andMaybe fun args e e' shorter₁ _ on₂ => ?_
        have call := postfixTail_alike on₂ (.call target name args (target.span.through e.previous))
        rwa [Expr.relocate, T.move_through, ← Expr.relocate_span (f := T.move) target,
          ← on₂.previous] at call
      · have access := postfixTail_alike on₁ (.access target name (target.span.through nameSpan))
        rwa [Expr.relocate, T.move_through, ← Expr.relocate_span (f := T.move) target] at access
    · rw [if_neg dot, if_neg dot]
      exact .stay rfl h
termination_by 8 * c.remaining + 7
decreasing_by
  all_goals simp only [Cursor.past, remaining] at *; omega

theorem primary_alike {c c' : Cursor} (h : T.Facing k c c') :
    Alike T.move (Expr.relocate T.move) (T.On (T.within k)) (primary c) (primary c') := by
  rw [primary, primary]
  have wrong := congrArg (fun e => { e with suggestion := some .expression }) (h.unexpected [])
  obtain ⟨p, p', rfl, rfl, -⟩ | ⟨t, s, us, us', p, p', whole, rfl, next⟩ := h.cases
  · exact wrong
  · have size : us.length + 1 = c.remaining := (congrArg remaining whole).symm
    rw [whole] at wrong ⊢
    dsimp only
    cases literal : literal? t with
    | some value => exact ⟨rfl, next.on (isFree_of_literal? literal) s p p'⟩
    | none =>
      dsimp only
      cases t with
      | int n => rfl
      | keyword word =>
        have on := next.on rfl s p p'
        cases word with
        | this => exact ⟨rfl, on⟩
        | super =>
          dsimp only
          rw [alike_behind]
          refine (expectSymbol_alike on.facing rfl).andThen fun _ d d' shorter₁ _ on₁ => ?_
          refine (expectIdentifier_alike on₁.facing).andThen ?_
          rintro ⟨name, nameSpan⟩ e e' shorter₂ - on₂
          simp only [Prod.map, id]
          rw [on₂.facing.atSymbol]
          split
          · refine (arguments_alike on₂.facing).mapAt fun args g g' on₃ => ?_
            rw [Expr.relocate, T.move_through, ← on₃.previous]
          · rfl
        | _ => exact wrong
      | identifier name =>
        have on := next.on rfl s p p'
        dsimp only
        rw [on.facing.atSymbol]
        split
        · rw [alike_behind]
          refine (arguments_alike on.facing).mapAt fun args g g' on₁ => ?_
          rw [Expr.relocate, T.move_through, ← on₁.previous]
        · exact ⟨rfl, on⟩
      | symbol sign =>
        cases sign with
        | leftParen =>
          have on := next.on rfl s p p'
          dsimp only
          rw [alike_behind]
          refine (expression_alike on.facing).andThen fun inner d d' shorter₁ _ on₁ => ?_
          refine (expectSymbol_alike on₁.facing rfl).mapAt fun _ e e' on₂ => ?_
          rw [Expr.relocate_withSpan, T.move_through, ← on₂.previous]
        | _ => exact wrong
      | _ => exact wrong
termination_by 8 * c.remaining
decreasing_by
  all_goals simp only [Cursor.past, remaining] at *; omega

theorem arguments_alike {c c' : Cursor} (h : T.Facing k c c') :
    Alike T.move (Expr.relocateAll T.move) (T.On (T.within k)) (arguments c) (arguments c') := by
  rw [arguments, arguments]
  refine (expectSymbol_alike h rfl).andThen fun _ d d' shorter _ on => ?_
  have tail := argumentTail_alike on.facing
  obtain ⟨p, p', rfl, rfl, -⟩ | ⟨t, s, us, us', p, p', rfl, rfl, next⟩ := on.facing.cases
  · exact tail
  · dsimp only
    by_cases close : t = .symbol .rightParen
    · subst close
      rw [if_pos rfl, if_pos rfl]
      exact ⟨rfl, next.on rfl s p p'⟩
    · rw [if_neg close, if_neg close]
      exact tail
termination_by 8 * c.remaining

theorem argumentTail_alike {c c' : Cursor} (h : T.Facing k c c') :
    Alike T.move (Expr.relocateAll T.move) (T.On (T.within k)) (argumentTail c)
      (argumentTail c') := by
  rw [argumentTail, argumentTail]
  refine (expression_alike h).andThen fun arg d d' shorter _ on => ?_
  have wrong := on.facing.unexpected [.symbol .rightParen]
  have close := (expectSymbol_alike (s := .rightParen) on.facing rfl).map (g := fun _ => [arg])
    (q := fun _ => [arg.relocate T.move]) (w := Expr.relocateAll T.move) fun _ => rfl
  obtain ⟨p, p', rfl, rfl, -⟩ | ⟨t, s, us, us', p, p', rfl, rfl, next⟩ := on.facing.cases
  · exact wrong
  · have size : us.length + 1 < c.remaining := shorter
    dsimp only
    by_cases comma : t = .symbol .comma
    · subst comma
      have on := next.on rfl s p p'
      rw [if_pos rfl, if_pos rfl, alike_behind]
      exact (argumentTail_alike on.facing).map fun args => rfl
    · rw [if_neg comma, if_neg comma]
      exact close
termination_by 8 * c.remaining + 6
decreasing_by
  all_goals simp only [Cursor.past, remaining] at *; omega

end

end Tandem

end Source

end Classwright
