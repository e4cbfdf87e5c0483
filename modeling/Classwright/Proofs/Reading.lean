import Classwright.Proofs.Places
import Classwright.Source.Declaration

/-!
# What readers read

A reader looks at tokens only; stretches of source never decide what it reads. `Reads` says that a
step succeeds, what is left of its value without places and which tokens are left. Types are read
by looking at the tokens at the start alone, and tokens that no type goes on with can be added.
-/

namespace Classwright.Source

/-- The tokens still to read. -/
def Cursor.tokens (c : Cursor) : List Token := c.rest.map (·.token)

namespace Cursor

theorem tokens_past (c : Cursor) (l : Lexeme) (rest : List Lexeme) :
    (c.past l rest).tokens = rest.map (·.token) := rfl

theorem remaining_eq (c : Cursor) : c.remaining = c.tokens.length := by
  rw [tokens, List.length_map, remaining]

theorem eq_of_tokens_nil {c : Cursor} (h : c.tokens = []) :
    ∃ f p, c = ⟨[], f, p⟩ := by
  obtain ⟨rest, f, p⟩ := c
  cases rest with
  | nil => exact ⟨f, p, rfl⟩
  | cons l rest => cases h

theorem eq_of_tokens_cons {c : Cursor} {t : Token} {ts : List Token} (h : c.tokens = t :: ts) :
    ∃ s rest f p, c = ⟨⟨t, s⟩ :: rest, f, p⟩ ∧ rest.map (·.token) = ts := by
  obtain ⟨rest, f, p⟩ := c
  cases rest with
  | nil => cases h
  | cons l rest =>
    obtain ⟨t', s⟩ := l
    rw [tokens, List.map_cons, List.cons.injEq] at h
    obtain ⟨rfl, rfl⟩ := h
    exact ⟨s, rest, f, p, rfl, rfl⟩

/-- The same with the tokens behind the first one as those of the cursor past it. -/
theorem past_of_tokens_cons {c : Cursor} {t : Token} {ts : List Token} (h : c.tokens = t :: ts) :
    ∃ s rest f p, c = ⟨⟨t, s⟩ :: rest, f, p⟩ ∧
      (past ⟨⟨t, s⟩ :: rest, f, p⟩ ⟨t, s⟩ rest).tokens = ts := eq_of_tokens_cons h

end Cursor

namespace Step

variable {α β γ δ : Type} {m n : Nat} {s : Step α n} {a : α} {b : β} {d e : Cursor}

/-- The step reads this value and stops there. -/
def Gives (s : Step α n) (a : α) (d : Cursor) : Prop := ∃ h, s = .ok a d h

@[simp] theorem gives_ok {a' : α} {h : d.remaining < n} :
    (Step.ok a' d h : Step α n).Gives a e ↔ a' = a ∧ d = e := by
  constructor
  · rintro ⟨_, same⟩
    cases same
    exact ⟨rfl, rfl⟩
  · rintro ⟨rfl, rfl⟩
    exact ⟨h, rfl⟩

@[simp] theorem gives_error {error : SyntaxError} {stop : Cursor} :
    ¬ (Step.error error stop : Step α n).Gives a d := fun ⟨_, same⟩ => nomatch same

@[simp] theorem gives_stay {a' : α} {c : Cursor} :
    (Step.stay a' c).Gives a d ↔ a' = a ∧ c = d := gives_ok

@[simp] theorem gives_upTo {h : n ≤ m} : (s.upTo h).Gives a d ↔ s.Gives a d := by
  cases s with
  | ok a' d' h' => rw [upTo, gives_ok, gives_ok]
  | error => rw [upTo]; simp only [gives_error]

@[simp] theorem gives_loosen : s.loosen.Gives a d ↔ s.Gives a d := gives_upTo

@[simp] theorem gives_behind {c : Cursor} {t : Lexeme} {rest : List Lexeme}
    {h : c.rest = t :: rest} {s : Step α (c.past t rest).remaining} :
    (s.behind h).Gives a d ↔ s.Gives a d := gives_upTo

@[simp] theorem gives_behindMaybe {c : Cursor} {t : Lexeme} {rest : List Lexeme}
    {h : c.rest = t :: rest} {s : Step α ((c.past t rest).remaining + 1)} :
    (s.behindMaybe h).Gives a d ↔ s.Gives a d := gives_upTo

@[simp] theorem gives_suggest {hint : Suggestion} : (s.suggest hint).Gives a d ↔ s.Gives a d := by
  cases s with
  | ok a' d' h' => rw [suggest]
  | error => rw [suggest]; simp only [gives_error]

@[simp] theorem gives_map {f : α → β} : (s.map f).Gives b d ↔ ∃ a, s.Gives a d ∧ f a = b := by
  cases s with
  | ok a' d' h' =>
    simp only [map, gives_ok]
    constructor
    · rintro ⟨same, rfl⟩
      exact ⟨a', ⟨rfl, rfl⟩, same⟩
    · rintro ⟨_, ⟨rfl, rfl⟩, same⟩
      exact ⟨same, rfl⟩
  | error => simp [map]

@[simp] theorem gives_mapAt {f : α → Cursor → β} :
    (s.mapAt f).Gives b d ↔ ∃ a, s.Gives a d ∧ f a d = b := by
  cases s with
  | ok a' d' h' =>
    simp only [mapAt, gives_ok]
    constructor
    · rintro ⟨same, rfl⟩
      exact ⟨a', ⟨rfl, rfl⟩, same⟩
    · rintro ⟨_, ⟨rfl, rfl⟩, same⟩
      exact ⟨same, rfl⟩
  | error => simp [mapAt]

@[simp] theorem gives_andThen
    {k : (a : α) → (d : Cursor) → d.remaining < n → Step β d.remaining} :
    (s.andThen k).Gives b e ↔ ∃ a d h, s.Gives a d ∧ (k a d h).Gives b e := by
  cases s with
  | ok a' d' h' =>
    simp only [andThen, gives_upTo, gives_ok]
    constructor
    · intro next
      exact ⟨a', d', h', ⟨rfl, rfl⟩, next⟩
    · rintro ⟨_, _, _, ⟨rfl, rfl⟩, next⟩
      exact next
  | error => simp [andThen]

@[simp] theorem gives_andMaybe
    {k : (a : α) → (d : Cursor) → d.remaining < n → Step β (d.remaining + 1)} :
    (s.andMaybe k).Gives b e ↔ ∃ a d h, s.Gives a d ∧ (k a d h).Gives b e := by
  cases s with
  | ok a' d' h' =>
    simp only [andMaybe, gives_upTo, gives_ok]
    constructor
    · intro next
      exact ⟨a', d', h', ⟨rfl, rfl⟩, next⟩
    · rintro ⟨_, _, _, ⟨rfl, rfl⟩, next⟩
      exact next
  | error => simp [andMaybe]

@[simp] theorem gives_maybeThen {s : Step α (n + 1)}
    {k : (a : α) → (d : Cursor) → d.remaining ≤ n → Step β d.remaining} :
    (s.maybeThen k).Gives b e ↔ ∃ a d h, s.Gives a d ∧ (k a d h).Gives b e := by
  cases s with
  | ok a' d' h' =>
    simp only [maybeThen, gives_upTo, gives_ok]
    constructor
    · intro next
      exact ⟨a', d', Nat.le_of_lt_succ h', ⟨rfl, rfl⟩, next⟩
    · rintro ⟨_, _, _, ⟨rfl, rfl⟩, next⟩
      exact next
  | error => simp [maybeThen]

theorem Gives.shorter (h : s.Gives a d) : d.remaining < n := h.1

/-- The step reads a value of this shape and leaves these tokens. -/
def Reads (f : α → β) (b : β) (rest : List Token) (s : Step α n) : Prop :=
  ∃ a d, s.Gives a d ∧ f a = b ∧ d.tokens = rest

variable {f : α → β} {g : γ → δ} {y : δ} {rest rest' : List Token}

theorem reads_ok {h : d.remaining < n} : (Step.ok a d h : Step α n).Reads f (f a) d.tokens :=
  ⟨a, d, ⟨h, rfl⟩, rfl, rfl⟩

theorem reads_stay {c : Cursor} : (Step.stay a c).Reads f (f a) c.tokens := reads_ok

@[simp] theorem reads_upTo {h : n ≤ m} : (s.upTo h).Reads f b rest ↔ s.Reads f b rest := by
  simp only [Reads, gives_upTo]

@[simp] theorem reads_loosen : s.loosen.Reads f b rest ↔ s.Reads f b rest := reads_upTo

@[simp] theorem reads_behind {c : Cursor} {t : Lexeme} {ts : List Lexeme}
    {h : c.rest = t :: ts} {s : Step α (c.past t ts).remaining} :
    (s.behind h).Reads f b rest ↔ s.Reads f b rest := reads_upTo

@[simp] theorem reads_behindMaybe {c : Cursor} {t : Lexeme} {ts : List Lexeme}
    {h : c.rest = t :: ts} {s : Step α ((c.past t ts).remaining + 1)} :
    (s.behindMaybe h).Reads f b rest ↔ s.Reads f b rest := reads_upTo

@[simp] theorem reads_suggest {hint : Suggestion} :
    (s.suggest hint).Reads f b rest ↔ s.Reads f b rest := by
  simp only [Reads, gives_suggest]

theorem Reads.map {h : α → γ} (read : s.Reads f b rest) (value : ∀ a, f a = b → g (h a) = y) :
    (s.map h).Reads g y rest := by
  obtain ⟨a, d, gives, same, tokens⟩ := read
  exact ⟨h a, d, gives_map.2 ⟨a, gives, rfl⟩, value a same, tokens⟩

theorem Reads.mapAt {h : α → Cursor → γ} (read : s.Reads f b rest)
    (value : ∀ a d, f a = b → g (h a d) = y) : (s.mapAt h).Reads g y rest := by
  obtain ⟨a, d, gives, same, tokens⟩ := read
  exact ⟨h a d, d, gives_mapAt.2 ⟨a, gives, rfl⟩, value a d same, tokens⟩

theorem Reads.andThen {k : (a : α) → (d : Cursor) → d.remaining < n → Step γ d.remaining}
    (read : s.Reads f b rest)
    (next : ∀ a d h, f a = b → d.tokens = rest → (k a d h).Reads g y rest') :
    (s.andThen k).Reads g y rest' := by
  obtain ⟨a, d, gives, same, tokens⟩ := read
  obtain ⟨x, e, gives', same', tokens'⟩ := next a d gives.shorter same tokens
  exact ⟨x, e, gives_andThen.2 ⟨a, d, gives.shorter, gives, gives'⟩, same', tokens'⟩

theorem Reads.andMaybe
    {k : (a : α) → (d : Cursor) → d.remaining < n → Step γ (d.remaining + 1)}
    (read : s.Reads f b rest)
    (next : ∀ a d h, f a = b → d.tokens = rest → (k a d h).Reads g y rest') :
    (s.andMaybe k).Reads g y rest' := by
  obtain ⟨a, d, gives, same, tokens⟩ := read
  obtain ⟨x, e, gives', same', tokens'⟩ := next a d gives.shorter same tokens
  exact ⟨x, e, gives_andMaybe.2 ⟨a, d, gives.shorter, gives, gives'⟩, same', tokens'⟩

theorem Reads.maybeThen {s : Step α (n + 1)}
    {k : (a : α) → (d : Cursor) → d.remaining ≤ n → Step γ d.remaining}
    (read : s.Reads f b rest)
    (next : ∀ a d h, f a = b → d.tokens = rest → (k a d h).Reads g y rest') :
    (s.maybeThen k).Reads g y rest' := by
  obtain ⟨a, d, gives, same, tokens⟩ := read
  have bound := Nat.le_of_lt_succ gives.shorter
  obtain ⟨x, e, gives', same', tokens'⟩ := next a d bound same tokens
  exact ⟨x, e, gives_maybeThen.2 ⟨a, d, bound, gives, gives'⟩, same', tokens'⟩

end Step

open Step

/-! ### Single tokens -/

namespace Cursor

variable {c d : Cursor} {t : Token} {ts : List Token}

theorem current?_eq (c : Cursor) : c.current? = c.tokens.head? := by
  obtain ⟨rest, f, p⟩ := c
  cases rest <;> rfl

theorem atSymbol_eq (c : Cursor) (s : Symbol) :
    c.atSymbol s = (c.tokens.head? == some (.symbol s)) := by
  rw [atSymbol, at_, current?_eq]

theorem next?_eq (c : Cursor) : c.next? = c.tokens[1]? := by
  rw [next?, tokens, List.getElem?_map]

theorem tokens_of_expect {u : Unit} (h : (c.expect t).Gives u d) : c.tokens = t :: d.tokens := by
  obtain ⟨rest, f, p⟩ := c
  cases rest with
  | nil => exact absurd h gives_error
  | cons l rest =>
    simp only [expect] at h
    split at h
    · rename_i same
      obtain ⟨_, rfl⟩ := gives_ok.1 h
      rw [tokens, List.map_cons, same]
      rfl
    · exact absurd h gives_error

theorem reads_expect (h : c.tokens = t :: ts) : (c.expect t).Reads id () ts := by
  obtain ⟨s, rest, f, p, rfl, rfl⟩ := eq_of_tokens_cons h
  simp only [expect]
  rw [if_pos trivial]
  exact reads_ok

theorem tokens_of_expectSymbol {s : Symbol} {u : Unit} (h : (c.expectSymbol s).Gives u d) :
    c.tokens = .symbol s :: d.tokens := tokens_of_expect h

theorem reads_expectSymbol {s : Symbol} (h : c.tokens = .symbol s :: ts) :
    (c.expectSymbol s).Reads id () ts := reads_expect h

theorem reads_expectKeyword {k : Keyword} (h : c.tokens = .keyword k :: ts) :
    (c.expectKeyword k).Reads id () ts := reads_expect h

theorem tokens_of_expectSemicolon {u : Unit} (h : c.expectSemicolon.Gives u d) :
    c.tokens = .symbol .semicolon :: d.tokens := tokens_of_expectSymbol (gives_suggest.1 h)

theorem reads_expectSemicolon (h : c.tokens = .symbol .semicolon :: ts) :
    c.expectSemicolon.Reads id () ts := reads_suggest.2 (reads_expectSymbol h)

theorem tokens_of_expectIdentifier {name : String} {s : Span}
    (h : c.expectIdentifier.Gives (name, s) d) : c.tokens = .identifier name :: d.tokens := by
  unfold expectIdentifier at h
  split at h
  · rename_i rest
    obtain ⟨same, rfl⟩ := gives_ok.1 h
    cases same
    rw [tokens, rest]
    rfl
  · exact absurd h gives_error

theorem reads_expectIdentifier {name : String} (h : c.tokens = .identifier name :: ts) :
    c.expectIdentifier.Reads Prod.fst name ts := by
  obtain ⟨s, rest, f, p, rfl, rfl⟩ := eq_of_tokens_cons h
  exact reads_ok (a := (name, s))

theorem gives_eat {found : Bool} (h : (c.eat t).Gives found d) :
    (found = true ∧ c.tokens = t :: d.tokens) ∨
      (found = false ∧ c = d ∧ c.tokens.head? ≠ some t) := by
  obtain ⟨rest, f, p⟩ := c
  cases rest with
  | nil =>
    obtain ⟨rfl, rfl⟩ := gives_stay.1 h
    exact .inr ⟨rfl, rfl, by simp [tokens]⟩
  | cons l rest =>
    simp only [eat] at h
    split at h
    · rename_i same
      rw [gives_loosen] at h
      obtain ⟨rfl, rfl⟩ := gives_ok.1 h
      exact .inl ⟨rfl, by rw [tokens, List.map_cons, same]; rfl⟩
    · rename_i other
      obtain ⟨rfl, rfl⟩ := gives_stay.1 h
      exact .inr ⟨rfl, rfl, by simpa [tokens] using other⟩

theorem reads_eat_some (h : c.tokens = t :: ts) : (c.eat t).Reads id true ts := by
  obtain ⟨s, rest, f, p, rfl, rfl⟩ := eq_of_tokens_cons h
  simp only [eat]
  rw [if_pos trivial, reads_loosen]
  exact reads_ok

theorem reads_eat_none (h : c.tokens.head? ≠ some t) : (c.eat t).Reads id false c.tokens := by
  obtain ⟨rest, f, p⟩ := c
  cases rest with
  | nil => exact reads_stay
  | cons l rest =>
    have other : l.token ≠ t := by simpa [tokens] using h
    simp only [eat]
    rw [if_neg other]
    exact reads_stay

end Cursor

/-! ### Types -/

/-- The dots and names that continue a dotted name. -/
def dotted : List Token → List Char × List Token
  | .symbol .dot :: .identifier name :: ts =>
    ('.' :: name.toList ++ (dotted ts).1, (dotted ts).2)
  | ts => ([], ts)

/-- How many pairs of brackets there are. -/
def brackets : List Token → Nat × List Token
  | .symbol .leftBracket :: .symbol .rightBracket :: ts => ((brackets ts).1 + 1, (brackets ts).2)
  | ts => (0, ts)

/-- The type at the start. -/
def typeAt? : List Token → Option (TypeName × List Token)
  | .primitive kind :: ts => some (⟨kind.keyword, (brackets ts).1, .blank⟩, (brackets ts).2)
  | .identifier name :: ts =>
    let more := dotted ts
    some (⟨String.ofList (name.toList ++ more.1), (brackets more.2).1, .blank⟩,
      (brackets more.2).2)
  | _ => none

theorem dottedTail_eq (last : Span) (ts : List Lexeme) :
    (dottedTail last ts).1 = (dotted (ts.map (·.token))).1 ∧
      (dottedTail last ts).2.2.map (·.token) = (dotted (ts.map (·.token))).2 := by
  fun_induction dottedTail last ts with
  | case1 last _ name span ts text final rest same ih =>
    rw [same] at ih
    simp only [List.map_cons, dotted, List.cons_append, List.cons.injEq, true_and]
    exact ⟨congrArg (name.toList ++ ·) ih.1, ih.2⟩
  | case2 last ts other =>
    rw [dotted]
    · exact ⟨rfl, rfl⟩
    · intro name more same
      rcases ts with _ | ⟨⟨_, s⟩, _ | ⟨⟨_, s'⟩, ts⟩⟩
      · cases same
      · cases same
      · simp only [List.map_cons, List.cons.injEq] at same
        obtain ⟨rfl, rfl, -⟩ := same
        exact other _ _ _ _ rfl

theorem bracketPairs_eq (last : Span) (ts : List Lexeme) :
    (bracketPairs last ts).1 = (brackets (ts.map (·.token))).1 ∧
      (bracketPairs last ts).2.2.map (·.token) = (brackets (ts.map (·.token))).2 := by
  fun_induction bracketPairs last ts with
  | case1 last _ span ts dims final rest same ih =>
    rw [same] at ih
    simp only [List.map_cons, brackets, Nat.add_right_cancel_iff]
    exact ih
  | case2 last ts other =>
    rw [brackets]
    · exact ⟨rfl, rfl⟩
    · intro more same
      rcases ts with _ | ⟨⟨_, s⟩, _ | ⟨⟨_, s'⟩, ts⟩⟩
      · cases same
      · cases same
      · simp only [List.map_cons, List.cons.injEq] at same
        obtain ⟨rfl, rfl, -⟩ := same
        exact other _ _ _ rfl

namespace Cursor

variable {c d : Cursor} {ts : List Token}

theorem gives_qualifiedName {name : String} {s : Span}
    (h : c.qualifiedName.Gives (name, s) d) :
    ∃ first more, c.tokens = .identifier first :: more ∧
      name = String.ofList (first.toList ++ (dotted more).1) ∧ d.tokens = (dotted more).2 := by
  simp only [qualifiedName, gives_andMaybe] at h
  obtain ⟨⟨first, start⟩, e, _, read, h⟩ := h
  obtain ⟨same, rfl⟩ := gives_ok.1 h
  cases same
  obtain ⟨text, left⟩ := dottedTail_eq start e.rest
  exact ⟨first, e.tokens, tokens_of_expectIdentifier read, by rw [text]; rfl, left⟩

theorem reads_qualifiedName {first : String} (h : c.tokens = .identifier first :: ts) :
    c.qualifiedName.Reads Prod.fst (String.ofList (first.toList ++ (dotted ts).1))
      (dotted ts).2 := by
  refine (reads_expectIdentifier h).andMaybe ?_
  rintro ⟨name, start⟩ e _ rfl rfl
  obtain ⟨text, left⟩ := dottedTail_eq start e.rest
  refine ⟨_, _, gives_ok.2 ⟨rfl, rfl⟩, ?_, left⟩
  rw [text]
  rfl

/-- A type is read from the tokens at the start. -/
theorem typeAt?_of_gives {t : TypeName} (h : c.typeName.Gives t d) :
    typeAt? c.tokens = some (t.bare, d.tokens) := by
  simp only [typeName, gives_andMaybe] at h
  obtain ⟨name, e, _, base, h⟩ := h
  obtain ⟨rfl, rfl⟩ := gives_ok.1 h
  obtain ⟨pairs, left⟩ := bracketPairs_eq e.previous e.rest
  unfold typeBase at base
  split at base
  · rename_i kind s rest same
    obtain ⟨rfl, rfl⟩ := gives_ok.1 base
    rw [tokens, same, List.map_cons, typeAt?, TypeName.bare, pairs]
    exact congrArg (fun left => some (_, left)) left.symm
  · obtain ⟨⟨name', s⟩, read, rfl⟩ := gives_map.1 base
    obtain ⟨first, more, whole, rfl, rest⟩ := gives_qualifiedName read
    rw [whole, typeAt?, TypeName.bare, pairs]
    dsimp only
    rw [← rest]
    exact congrArg (fun left => some (_, left)) left.symm
  · exact absurd base gives_error

theorem reads_typeName {t : TypeName} {rest : List Token} (h : typeAt? c.tokens = some (t, rest)) :
    c.typeName.Reads TypeName.bare t rest := by
  have close : ∀ (name : String) (base : List Token), c.typeBase.Reads id name base →
      c.typeName.Reads TypeName.bare ⟨name, (brackets base).1, .blank⟩ (brackets base).2 := by
    intro name base read
    refine read.andMaybe ?_
    rintro _ e _ rfl rfl
    obtain ⟨pairs, left⟩ := bracketPairs_eq e.previous e.rest
    refine ⟨_, _, gives_ok.2 ⟨rfl, rfl⟩, ?_, left⟩
    rw [TypeName.bare, pairs]
    rfl
  cases tokens : c.tokens with
  | nil =>
    rw [tokens] at h
    cases h
  | cons first ts =>
    rw [tokens] at h
    cases first with
    | primitive kind =>
      cases h
      obtain ⟨s, rest, f, p, rfl, rfl⟩ := eq_of_tokens_cons tokens
      exact close kind.keyword _ (reads_ok (f := id))
    | identifier name =>
      cases h
      refine close _ _ ?_
      have read := reads_qualifiedName tokens
      obtain ⟨s, rest, f, p, rfl, rfl⟩ := eq_of_tokens_cons tokens
      exact read.map fun _ same => same
    | _ => cases h

theorem skipType?_eq (ts : List Lexeme) :
    (skipType? ts).map (fun p => (p.1, p.2.map (·.token)))
      = (typeAt? (ts.map (·.token))).map fun p =>
        ((ts.head?.map fun l => !l.token.isIdentifier).getD false && p.1.dims == 0, p.2) := by
  match ts with
  | [] => rfl
  | ⟨.primitive kind, s⟩ :: ts =>
    obtain ⟨pairs, left⟩ := bracketPairs_eq s ts
    simp only [skipType?, Option.map_some, List.map_cons, typeAt?, pairs, left]
    rfl
  | ⟨.identifier name, s⟩ :: ts =>
    obtain ⟨_, more⟩ := dottedTail_eq s ts
    obtain ⟨pairs, left⟩ := bracketPairs_eq s (dottedTail s ts).2.2
    rw [more] at pairs left
    simp only [skipType?, Option.map_some, List.map_cons, typeAt?, left]
    rfl
  | ⟨.keyword _, _⟩ :: _ | ⟨.int _, _⟩ :: _ | ⟨.long _, _⟩ :: _ | ⟨.float _, _⟩ :: _
  | ⟨.double _, _⟩ :: _ | ⟨.char _, _⟩ :: _ | ⟨.string _, _⟩ :: _ | ⟨.symbol _, _⟩ :: _ => rfl

/-- Whether these tokens, behind a parenthesis, make it open a cast. -/
def castAhead (ts : List Token) : Bool :=
  match typeAt? ts with
  | some (type, .symbol .rightParen :: rest) =>
    ((ts.head?.map fun t => !t.isIdentifier).getD false && type.dims == 0)
      || (rest.head?.map startsCastOperand).getD false
  | _ => false

/-- Whether a type and a name come next. -/
def declarationAhead (ts : List Token) : Bool :=
  match typeAt? ts with
  | some (_, rest) => (rest.head?.map (·.isIdentifier)).getD false
  | none => false

theorem opensCast_eq (ts : List Lexeme) : opensCast ts = castAhead (ts.map (·.token)) := by
  have same := skipType?_eq ts
  unfold opensCast castAhead
  cases skip : skipType? ts with
  | none =>
    rw [skip, Option.map_none] at same
    rw [Option.map_eq_none_iff.1 same.symm]
  | some p =>
    obtain ⟨bare, rest⟩ := p
    rw [skip, Option.map_some] at same
    obtain ⟨⟨type, left⟩, found, both⟩ := Option.map_eq_some_iff.1 same.symm
    obtain ⟨isBare, behind⟩ := Prod.mk.inj both
    dsimp only at isBare behind
    rw [found, behind, ← isBare]
    match rest with
    | [] => rfl
    | ⟨t, s⟩ :: rest =>
      by_cases closes : t = .symbol .rightParen
      · subst closes
        cases ts <;> cases rest <;> rfl
      · simp only [List.map_cons]
        split
        · rename_i same
          cases same
          exact absurd rfl closes
        · split
          · rename_i same
            cases same
            exact absurd rfl closes
          · rfl

theorem opensDeclaration_eq (c : Cursor) : c.opensDeclaration = declarationAhead c.tokens := by
  have same := skipType?_eq c.rest
  unfold opensDeclaration declarationAhead tokens
  cases skip : skipType? c.rest with
  | none =>
    rw [skip, Option.map_none] at same
    rw [Option.map_eq_none_iff.1 same.symm]
  | some p =>
    obtain ⟨bare, rest⟩ := p
    rw [skip, Option.map_some] at same
    obtain ⟨⟨type, left⟩, found, both⟩ := Option.map_eq_some_iff.1 same.symm
    have behind := (Prod.mk.inj both).2
    dsimp only at behind
    rw [found, behind]
    cases rest <;> rfl

end Cursor

/-! ### Tokens that nothing goes on with -/

/-- Tokens behind a statement or a member that is no part of it. -/
inductive Inert : List Token → Prop
  | nil : Inert []
  | brace (ts : List Token) : Inert (.symbol .rightBrace :: ts)
  | visible (ts : List Token) : Inert (.keyword .public_ :: ts)
  | shielded (ts : List Token) : Inert (.keyword .protected_ :: ts)

section

variable {ext : List Token}

theorem dotted_inert (inert : Inert ext) (ts : List Token) :
    dotted (ts ++ ext) = ((dotted ts).1, (dotted ts).2 ++ ext) := by
  induction ts using dotted.induct with
  | case1 name ts ih =>
    simp only [List.cons_append, dotted, ih]
  | case2 ts other =>
    have stop : dotted (ts ++ ext) = ([], ts ++ ext) := by
      rw [dotted]
      intro name more same
      match ts with
      | [] => cases inert <;> cases same
      | [t] =>
        rw [List.singleton_append, List.cons.injEq] at same
        obtain ⟨rfl, same⟩ := same
        cases inert <;> cases same
      | t :: u :: ts =>
        simp only [List.cons_append, List.cons.injEq] at same
        obtain ⟨rfl, rfl, -⟩ := same
        exact other _ _ rfl
    rw [stop, dotted]
    exact other

theorem brackets_inert (inert : Inert ext) (ts : List Token) :
    brackets (ts ++ ext) = ((brackets ts).1, (brackets ts).2 ++ ext) := by
  induction ts using brackets.induct with
  | case1 ts ih =>
    simp only [List.cons_append, brackets, ih]
  | case2 ts other =>
    have stop : brackets (ts ++ ext) = (0, ts ++ ext) := by
      rw [brackets]
      intro more same
      match ts with
      | [] => cases inert <;> cases same
      | [t] =>
        rw [List.singleton_append, List.cons.injEq] at same
        obtain ⟨rfl, same⟩ := same
        cases inert <;> cases same
      | t :: u :: ts =>
        simp only [List.cons_append, List.cons.injEq] at same
        obtain ⟨rfl, rfl, -⟩ := same
        exact other _ rfl
    rw [stop, brackets]
    exact other

theorem typeAt?_inert (inert : Inert ext) (ts : List Token) :
    typeAt? (ts ++ ext) = (typeAt? ts).map fun p => (p.1, p.2 ++ ext) := by
  match ts with
  | [] => cases inert <;> rfl
  | .primitive kind :: ts =>
    rw [List.cons_append, typeAt?, typeAt?, brackets_inert inert]
    rfl
  | .identifier name :: ts =>
    simp only [List.cons_append, typeAt?, dotted_inert inert, brackets_inert inert,
      Option.map_some]
  | .keyword _ :: _ | .int _ :: _ | .long _ :: _ | .float _ :: _ | .double _ :: _ | .char _ :: _
  | .string _ :: _ | .symbol _ :: _ => rfl

theorem castAhead_inert (inert : Inert ext) (ts : List Token) :
    Cursor.castAhead (ts ++ ext) = Cursor.castAhead ts := by
  unfold Cursor.castAhead
  rw [typeAt?_inert inert]
  match ts with
  | [] => cases inert <;> rfl
  | t :: ts =>
    cases found : typeAt? (t :: ts) with
    | none => rfl
    | some p =>
      obtain ⟨type, rest⟩ := p
      rw [Option.map_some]
      match rest with
      | [] => cases inert <;> rfl
      | u :: rest =>
        by_cases closes : u = .symbol .rightParen
        · subst closes
          cases rest with
          | nil => cases inert <;> rfl
          | cons => rfl
        · simp only [List.cons_append]
          split
          · rename_i same
            cases same
            exact absurd rfl closes
          · split
            · rename_i same
              cases same
              exact absurd rfl closes
            · rfl

theorem declarationAhead_inert (inert : Inert ext) (ts : List Token) :
    Cursor.declarationAhead (ts ++ ext) = Cursor.declarationAhead ts := by
  unfold Cursor.declarationAhead
  rw [typeAt?_inert inert]
  cases typeAt? ts with
  | none => rfl
  | some p =>
    obtain ⟨type, rest⟩ := p
    cases rest with
    | nil => cases inert <;> rfl
    | cons => rfl

end

end Classwright.Source
