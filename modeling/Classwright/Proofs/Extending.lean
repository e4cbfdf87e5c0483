import Classwright.Proofs.Reading

/-!
# Readers with more tokens behind

What a reader has read from all the tokens of a fragment it also reads when tokens follow that
nothing in the fragment goes on with, and it leaves these. With no tokens behind this says that
reading does not depend on places.
-/

namespace Classwright.Source.Cursor

open Step

variable {ext : List Token} {c c' d : Cursor}

/-- A cursor in front of such tokens. -/
theorem cases_of_inert (inert : Inert ext) (same : c.tokens = ext) :
    (∃ f p, c = ⟨[], f, p⟩) ∨ ∃ t s rest f p, c = ⟨⟨t, s⟩ :: rest, f, p⟩ ∧
      (t = .symbol .rightBrace ∨ t = .keyword .public_ ∨ t = .keyword .protected_) := by
  obtain ⟨rest, f, p⟩ := c
  cases rest with
  | nil => exact .inl ⟨f, p, rfl⟩
  | cons l rest =>
    obtain ⟨t, s⟩ := l
    refine .inr ⟨t, s, rest, f, p, rfl, ?_⟩
    rw [← same, tokens, List.map_cons] at inert
    cases inert <;> simp

/-- A token with its place, the rest, and the same with tokens behind. -/
theorem eq_of_tokens_more {l : Lexeme} {rest : List Lexeme} {f p : Span}
    (more : c'.tokens = tokens ⟨l :: rest, f, p⟩ ++ ext) :
    ∃ s rest' f' p', c' = ⟨⟨l.token, s⟩ :: rest', f', p'⟩ ∧
      (past ⟨⟨l.token, s⟩ :: rest', f', p'⟩ ⟨l.token, s⟩ rest').tokens
        = (past ⟨l :: rest, f, p⟩ l rest).tokens ++ ext := by
  have split : c'.tokens = l.token :: (rest.map (·.token) ++ ext) := more
  obtain ⟨s, rest', f', p', rfl, left⟩ := eq_of_tokens_cons split
  exact ⟨s, rest', f', p', rfl, left⟩

theorem reads_stay_of {α β : Type} {f : α → β} {a : α} {b : β} {rest : List Token}
    (same : f a = b) (tokens : c.tokens = rest) : (Step.stay a c).Reads f b rest := by
  subst same tokens
  exact reads_stay

/-- The end of a type that was read, and the same with tokens behind. -/
theorem reads_typeName_more (inert : Inert ext) {t : TypeName} (read : c.typeName.Gives t d)
    (more : c'.tokens = c.tokens ++ ext) :
    c'.typeName.Reads TypeName.bare t.bare (d.tokens ++ ext) := by
  apply reads_typeName
  rw [more, typeAt?_inert inert, typeAt?_of_gives read]
  rfl

theorem atSymbol_inert {s : Symbol} (inert : Inert ext) (other : s ≠ .rightBrace)
    (more : c'.tokens = c.tokens ++ ext) : c'.atSymbol s = c.atSymbol s := by
  rw [atSymbol_eq, atSymbol_eq, more]
  cases tokens : c.tokens with
  | cons t ts => rfl
  | nil => cases inert <;> simp [Ne.symm other]

theorem negatedInt?_more (inert : Inert ext) (more : c'.tokens = c.tokens ++ ext) :
    (negatedInt? c').map (fun p => (p.1, p.2.2.1.tokens))
      = (negatedInt? c).map fun p => (p.1, p.2.2.1.tokens ++ ext) := by
  obtain ⟨rest, f, p⟩ := c
  cases rest with
  | nil =>
    rcases cases_of_inert inert more with ⟨f', p', rfl⟩ | ⟨t, s, rest', f', p', rfl, h⟩
    · rfl
    · rcases h with rfl | rfl | rfl <;> rfl
  | cons first rest =>
    obtain ⟨t, s⟩ := first
    obtain ⟨s', rest', f', p', rfl, left⟩ := eq_of_tokens_more more
    cases t with
    | int n =>
      have same : (rest'.head?.map (·.token)) = some (.symbol .dot) ↔
          (rest.head?.map (·.token)) = some (.symbol .dot) := by
        rw [← List.head?_map, ← List.head?_map, ← tokens_past _ _ rest', left]
        cases rest with
        | nil => cases inert <;> simp [tokens, past]
        | cons l rest => rfl
      simp only [negatedInt?]
      by_cases call : (rest.head?.map (·.token)) = some (.symbol .dot)
      · rw [if_pos call, if_pos (same.2 call)]
        rfl
      · rw [if_neg call, if_neg (fun h => call (same.1 h)), Option.map_some, Option.map_some]
        exact congrArg (fun left => some (n, left)) left
    | _ => rfl

theorem not_postfixes_nil {f p : Span} {e : Expr} : ¬ (postfixes ⟨[], f, p⟩).Gives e d := by
  intro read
  rw [postfixes, gives_andMaybe] at read
  obtain ⟨_, _, _, first, _⟩ := read
  rw [primary] at first
  exact absurd first gives_error

/-- An expression starts with an operand. -/
theorem unary_of_expression {e : Expr} (read : (expression c).Gives e d) :
    ∃ e' d', (unary c).Gives e' d' := by
  rw [expression, gives_andMaybe] at read
  obtain ⟨_, _, _, read, -⟩ := read
  rw [conditional, gives_andMaybe] at read
  obtain ⟨_, _, _, read, -⟩ := read
  rw [infixes, gives_andMaybe] at read
  obtain ⟨operand, _, _, read, -⟩ := read
  exact ⟨operand, _, read⟩

theorem not_expression_nil {f p : Span} {e : Expr} : ¬ (expression ⟨[], f, p⟩).Gives e d := by
  intro read
  obtain ⟨_, _, read⟩ := unary_of_expression read
  rw [unary] at read
  exact not_postfixes_nil read

mutual

theorem reads_expression (inert : Inert ext) {c c' d : Cursor} {e : Expr}
    (read : (expression c).Gives e d) (more : c'.tokens = c.tokens ++ ext) :
    (expression c').Reads Expr.bare e.bare (d.tokens ++ ext) := by
  rw [expression] at read ⊢
  replace read := gives_andMaybe.1 read
  obtain ⟨target, mid, shorter, first, read⟩ := read
  refine (reads_conditional inert first more).andMaybe fun target' mid' _ same tokens => ?_
  obtain ⟨rest, f, p⟩ := mid
  cases rest with
  | nil =>
    obtain ⟨rfl, rfl⟩ := gives_stay.1 read
    rw [← same, ← tokens]
    rcases cases_of_inert inert tokens with ⟨f', p', rfl⟩ | ⟨t, s, rest', f', p', rfl, h⟩
    · exact reads_stay
    · rcases h with rfl | rfl | rfl <;> exact reads_stay
  | cons sign rest =>
    have size : (past ⟨sign :: rest, f, p⟩ sign rest).remaining + 1
        = remaining ⟨sign :: rest, f, p⟩ := rfl
    obtain ⟨s', rest', f', p', rfl, left⟩ := eq_of_tokens_more tokens
    simp only at read ⊢
    cases op : assignOp? sign.token with
    | none =>
      simp only [op] at read ⊢
      obtain ⟨rfl, rfl⟩ := gives_stay.1 read
      exact reads_stay_of same tokens
    | some op' =>
      simp only [op] at read ⊢
      split at read
      · rename_i assignable
        rw [gives_loosen, gives_behind, gives_map] at read
        obtain ⟨value, read, rfl⟩ := read
        rw [if_pos (by rwa [← Expr.isAssignable_bare, same, Expr.isAssignable_bare]),
          reads_loosen, reads_behind]
        refine (reads_expression inert read left).map fun value' same' => ?_
        simp only [Expr.bare, same, same']
      · exact absurd read gives_error
termination_by 8 * c.remaining + 5
decreasing_by
  all_goals omega

theorem reads_conditional (inert : Inert ext) {c c' d : Cursor} {e : Expr}
    (read : (conditional c).Gives e d) (more : c'.tokens = c.tokens ++ ext) :
    (conditional c').Reads Expr.bare e.bare (d.tokens ++ ext) := by
  rw [conditional] at read ⊢
  replace read := gives_andMaybe.1 read
  obtain ⟨test, mid, shorter, first, read⟩ := read
  refine (reads_infixes inert first more).andMaybe fun test' mid' _ same tokens => ?_
  obtain ⟨rest, f, p⟩ := mid
  cases rest with
  | nil =>
    obtain ⟨rfl, rfl⟩ := gives_stay.1 read
    rw [← same, ← tokens]
    rcases cases_of_inert inert tokens with ⟨f', p', rfl⟩ | ⟨t, s, rest', f', p', rfl, h⟩
    · exact reads_stay
    · rcases h with rfl | rfl | rfl <;> exact reads_stay
  | cons sign rest =>
    have size : (past ⟨sign :: rest, f, p⟩ sign rest).remaining + 1
        = remaining ⟨sign :: rest, f, p⟩ := rfl
    obtain ⟨s', rest', f', p', rfl, left⟩ := eq_of_tokens_more tokens
    simp only at read ⊢
    split at read
    · rename_i question
      rw [if_pos question, reads_loosen, reads_behind]
      rw [gives_loosen, gives_behind, gives_andThen] at read
      obtain ⟨thenExpr, e₁, shorter₁, thenRead, read⟩ := read
      rw [gives_andThen] at read
      obtain ⟨_, e₂, shorter₂, colon, read⟩ := read
      rw [gives_map] at read
      obtain ⟨elseExpr, elseRead, rfl⟩ := read
      refine (reads_expression inert thenRead left).andThen fun thenExpr' d₁ _ same₁ left₁ => ?_
      rw [tokens_of_expectSymbol colon, List.cons_append] at left₁
      refine (reads_expectSymbol left₁).andThen fun _ d₂ _ _ left₂ => ?_
      refine (reads_conditional inert elseRead left₂).map fun elseExpr' same₂ => ?_
      simp only [Expr.bare, same, same₁, same₂]
    · rename_i other
      rw [if_neg other]
      obtain ⟨rfl, rfl⟩ := gives_stay.1 read
      exact reads_stay_of same tokens
termination_by 8 * c.remaining + 4
decreasing_by
  all_goals omega

theorem reads_infixes (inert : Inert ext) {level : Nat} {c c' d : Cursor} {e : Expr}
    (read : (infixes level c).Gives e d) (more : c'.tokens = c.tokens ++ ext) :
    (infixes level c').Reads Expr.bare e.bare (d.tokens ++ ext) := by
  rw [infixes] at read ⊢
  replace read := gives_andMaybe.1 read
  obtain ⟨left, mid, shorter, first, read⟩ := read
  exact (reads_unary inert first more).andMaybe fun left' mid' _ same tokens =>
    reads_infixTail inert read same tokens
termination_by 8 * c.remaining + 3

theorem reads_infixTail (inert : Inert ext) {level : Nat} {left left' : Expr} {c c' d : Cursor}
    {e : Expr} (read : (infixTail level left c).Gives e d) (same : left'.bare = left.bare)
    (more : c'.tokens = c.tokens ++ ext) :
    (infixTail level left' c').Reads Expr.bare e.bare (d.tokens ++ ext) := by
  rw [infixTail] at read ⊢
  obtain ⟨rest, f, p, whole⟩ : ∃ rest f p, c = ⟨rest, f, p⟩ := ⟨_, _, _, rfl⟩
  rw [whole] at read more
  cases rest with
  | nil =>
    obtain ⟨rfl, rfl⟩ := gives_stay.1 read
    rw [← same, ← more]
    rcases cases_of_inert inert more with ⟨f', p', rfl⟩ | ⟨t, s, rest', f', p', rfl, h⟩
    · exact reads_stay
    · rcases h with rfl | rfl | rfl <;> exact reads_stay
  | cons sign rest =>
    have size : (past ⟨sign :: rest, f, p⟩ sign rest).remaining + 1 = c.remaining :=
      (congrArg remaining whole).symm
    obtain ⟨s', rest', f', p', rfl, behind⟩ := eq_of_tokens_more more
    simp only at read ⊢
    cases op : InfixOp.ofToken? sign.token with
    | none =>
      simp only [op] at read ⊢
      obtain ⟨rfl, rfl⟩ := gives_stay.1 read
      exact reads_stay_of same more
    | some op' =>
      simp only [op] at read ⊢
      split at read
      · rename_i binds
        rw [gives_loosen, gives_behind, gives_andMaybe] at read
        obtain ⟨right, mid, shorter, rightRead, read⟩ := read
        rw [if_pos binds, reads_loosen, reads_behind]
        refine (reads_infixes inert rightRead behind).andMaybe fun right' mid' _ same' tokens =>
          reads_infixTail inert read ?_ tokens
        unfold InfixOp.apply
        cases op' <;> simp only [Expr.bare, same, same']
      · rename_i loose
        rw [if_neg loose]
        obtain ⟨rfl, rfl⟩ := gives_stay.1 read
        exact reads_stay_of same more
termination_by 8 * c.remaining + 7
decreasing_by
  all_goals omega

theorem reads_unary (inert : Inert ext) {c c' d : Cursor} {e : Expr}
    (read : (unary c).Gives e d) (more : c'.tokens = c.tokens ++ ext) :
    (unary c').Reads Expr.bare e.bare (d.tokens ++ ext) := by
  rw [unary] at read ⊢
  obtain ⟨rest, f, p, whole⟩ : ∃ rest f p, c = ⟨rest, f, p⟩ := ⟨_, _, _, rfl⟩
  cases rest with
  | nil =>
    rw [whole] at read
    exact absurd read not_postfixes_nil
  | cons first rest =>
    have size : (past ⟨first :: rest, f, p⟩ first rest).remaining + 1 = c.remaining :=
      (congrArg remaining whole).symm
    -- without a sign and a cast the operand is read from the same cursor
    have plain : (postfixes c).Gives e d →
        (postfixes c').Reads Expr.bare e.bare (d.tokens ++ ext) := fun read =>
      reads_postfixes inert read more
    rw [whole] at read more plain
    obtain ⟨s', rest', f', p', rfl, left⟩ := eq_of_tokens_more more
    simp only at read ⊢
    cases sign : signOp? first.token with
    | some op =>
      simp only [sign] at read ⊢
      have operand : ((unary (past ⟨first :: rest, f, p⟩ first rest)).map fun operand =>
            Expr.unary op operand (first.span.through operand.span)).Gives e d →
          ((unary (past ⟨⟨first.token, s'⟩ :: rest', f', p'⟩ ⟨first.token, s'⟩ rest')).map
            fun operand => Expr.unary op operand (s'.through operand.span)).Reads
              Expr.bare e.bare (d.tokens ++ ext) := by
        intro signed
        obtain ⟨operand, operandRead, rfl⟩ := gives_map.1 signed
        refine (reads_unary inert operandRead left).map fun operand' same => ?_
        simp only [Expr.bare, same]
      have literals := negatedInt?_more inert left
      cases found : negatedInt? (past ⟨first :: rest, f, p⟩ first rest) with
      | none =>
        rw [found, Option.map_none, Option.map_eq_none_iff] at literals
        simp only [found, gives_behind] at read
        simp only [literals, reads_behind]
        exact operand read
      | some literal =>
        obtain ⟨n, span, e₁, he₁⟩ := literal
        rw [found, Option.map_some] at literals
        obtain ⟨⟨n', span', e₂, he₂⟩, found', same⟩ := Option.map_eq_some_iff.1 literals
        obtain ⟨rfl, behind⟩ := Prod.mk.inj same
        cases op with
        | negate =>
          simp only [found, gives_behind] at read
          simp only [found', reads_behind]
          obtain ⟨rfl, rfl⟩ := gives_ok.1 read
          exact ⟨_, _, gives_ok.2 ⟨rfl, rfl⟩, rfl, behind⟩
        | _ =>
          simp only [gives_behind] at read
          simp only [reads_behind]
          exact operand read
    | none =>
      simp only [sign] at read ⊢
      have opens : opensCast rest' = opensCast rest := by
        rw [opensCast_eq, opensCast_eq, ← tokens_past _ _ rest', left]
        exact castAhead_inert inert _
      rw [opens]
      split at read
      · rename_i cast
        rw [if_pos cast, reads_behind]
        rw [gives_behind, gives_andThen] at read
        obtain ⟨type, e₁, shorter₁, typeRead, read⟩ := read
        rw [gives_andThen] at read
        obtain ⟨_, e₂, shorter₂, close, read⟩ := read
        rw [gives_map] at read
        obtain ⟨operand, read, rfl⟩ := read
        refine (reads_typeName_more inert typeRead left).andThen fun type' d₁ _ same₁ left₁ => ?_
        rw [tokens_of_expectSymbol close, List.cons_append] at left₁
        refine (reads_expectSymbol left₁).andThen fun _ d₂ _ _ left₂ => ?_
        refine (reads_unary inert read left₂).map fun operand' same₂ => ?_
        simp only [Expr.bare, same₁, same₂]
      · rename_i other
        rw [if_neg other]
        exact plain read
termination_by 8 * c.remaining + 2
decreasing_by
  all_goals omega

theorem reads_postfixes (inert : Inert ext) {c c' d : Cursor} {e : Expr}
    (read : (postfixes c).Gives e d) (more : c'.tokens = c.tokens ++ ext) :
    (postfixes c').Reads Expr.bare e.bare (d.tokens ++ ext) := by
  rw [postfixes] at read ⊢
  replace read := gives_andMaybe.1 read
  obtain ⟨target, mid, shorter, first, read⟩ := read
  exact (reads_primary inert first more).andMaybe fun target' mid' _ same tokens =>
    reads_postfixTail inert read same tokens
termination_by 8 * c.remaining + 1

theorem reads_postfixTail (inert : Inert ext) {target target' : Expr} {c c' d : Cursor} {e : Expr}
    (read : (postfixTail target c).Gives e d) (same : target'.bare = target.bare)
    (more : c'.tokens = c.tokens ++ ext) :
    (postfixTail target' c').Reads Expr.bare e.bare (d.tokens ++ ext) := by
  rw [postfixTail] at read ⊢
  obtain ⟨rest, f, p, whole⟩ : ∃ rest f p, c = ⟨rest, f, p⟩ := ⟨_, _, _, rfl⟩
  rw [whole] at read more
  cases rest with
  | nil =>
    obtain ⟨rfl, rfl⟩ := gives_stay.1 read
    rw [← same, ← more]
    rcases cases_of_inert inert more with ⟨f', p', rfl⟩ | ⟨t, s, rest', f', p', rfl, h⟩
    · exact reads_stay
    · rcases h with rfl | rfl | rfl <;> exact reads_stay
  | cons sign rest =>
    have size : (past ⟨sign :: rest, f, p⟩ sign rest).remaining + 1 = c.remaining :=
      (congrArg remaining whole).symm
    obtain ⟨s', rest', f', p', rfl, behind⟩ := eq_of_tokens_more more
    simp only at read ⊢
    split at read
    · rename_i dot
      rw [if_pos dot, reads_loosen, reads_behind]
      rw [gives_loosen, gives_behind, gives_andMaybe] at read
      obtain ⟨⟨name, nameSpan⟩, mid, shorter, nameRead, read⟩ := read
      rw [tokens_of_expectIdentifier nameRead, List.cons_append] at behind
      refine (reads_expectIdentifier behind).andMaybe ?_
      rintro ⟨name', nameSpan'⟩ mid' _ rfl tokens
      dsimp only at read ⊢
      rw [atSymbol_inert inert (by decide) tokens]
      split at read
      · rename_i call
        rw [if_pos call, reads_loosen]
        rw [gives_loosen, gives_andMaybe] at read
        obtain ⟨args, e₁, shorter₁, argsRead, read⟩ := read
        refine (reads_arguments inert argsRead tokens).andMaybe fun args' d₁ _ same₁ left₁ =>
          reads_postfixTail inert read ?_ left₁
        simp only [Expr.bare, same, same₁]
      · rename_i access
        rw [if_neg access]
        refine reads_postfixTail inert read ?_ tokens
        simp only [Expr.bare, same]
    · rename_i other
      rw [if_neg other]
      obtain ⟨rfl, rfl⟩ := gives_stay.1 read
      exact reads_stay_of same more
termination_by 8 * c.remaining + 7
decreasing_by
  all_goals omega

theorem reads_primary (inert : Inert ext) {c c' d : Cursor} {e : Expr}
    (read : (primary c).Gives e d) (more : c'.tokens = c.tokens ++ ext) :
    (primary c').Reads Expr.bare e.bare (d.tokens ++ ext) := by
  rw [primary] at read ⊢
  obtain ⟨rest, f, p, whole⟩ : ∃ rest f p, c = ⟨rest, f, p⟩ := ⟨_, _, _, rfl⟩
  rw [whole] at read more
  cases rest with
  | nil => exact absurd read gives_error
  | cons first rest =>
    obtain ⟨t, s⟩ := first
    have size : (past ⟨⟨t, s⟩ :: rest, f, p⟩ ⟨t, s⟩ rest).remaining + 1 = c.remaining :=
      (congrArg remaining whole).symm
    obtain ⟨s', rest', f', p', rfl, left⟩ := eq_of_tokens_more more
    simp only at read ⊢
    cases literal : literal? t with
    | some value =>
      simp only [literal] at read ⊢
      obtain ⟨rfl, rfl⟩ := gives_ok.1 read
      exact ⟨_, _, gives_ok.2 ⟨rfl, rfl⟩, rfl, left⟩
    | none =>
      simp only [literal] at read ⊢
      cases t with
      | int n => exact absurd read gives_error
      | keyword k =>
        cases k with
        | this =>
          obtain ⟨rfl, rfl⟩ := gives_ok.1 read
          exact ⟨_, _, gives_ok.2 ⟨rfl, rfl⟩, rfl, left⟩
        | super =>
          simp only [gives_behind, gives_andThen] at read
          obtain ⟨_, e₁, _, dot, ⟨name, nameSpan⟩, e₂, shorter₂, nameRead, read⟩ := read
          dsimp only
          rw [reads_behind]
          rw [tokens_of_expectSymbol dot, List.cons_append] at left
          refine (reads_expectSymbol left).andThen fun _ d₁ _ _ left₁ => ?_
          rw [tokens_of_expectIdentifier nameRead, List.cons_append] at left₁
          refine (reads_expectIdentifier left₁).andThen ?_
          rintro ⟨name', nameSpan'⟩ d₂ _ rfl left₂
          dsimp only at read ⊢
          rw [atSymbol_inert inert (by decide) left₂]
          split at read
          · rename_i call
            rw [if_pos call]
            rw [gives_mapAt] at read
            obtain ⟨args, argsRead, rfl⟩ := read
            refine (reads_arguments inert argsRead left₂).mapAt fun args' d₃ same => ?_
            simp only [Expr.bare, same]
          · exact absurd read gives_error
        | _ => exact absurd read gives_error
      | identifier name =>
        dsimp only at read ⊢
        rw [atSymbol_inert inert (by decide) left]
        split at read
        · rename_i call
          rw [if_pos call, reads_behind]
          rw [gives_behind, gives_mapAt] at read
          obtain ⟨args, argsRead, rfl⟩ := read
          refine (reads_arguments inert argsRead left).mapAt fun args' d₃ same => ?_
          simp only [Expr.bare, same]
        · rename_i plain
          rw [if_neg plain]
          obtain ⟨rfl, rfl⟩ := gives_ok.1 read
          exact ⟨_, _, gives_ok.2 ⟨rfl, rfl⟩, rfl, left⟩
      | symbol sign =>
        cases sign with
        | leftParen =>
          simp only [gives_behind, gives_andThen, gives_mapAt] at read
          obtain ⟨inner, e₁, shorter₁, innerRead, _, close, rfl⟩ := read
          dsimp only
          rw [reads_behind]
          refine (reads_expression inert innerRead left).andThen fun inner' d₁ _ same left₁ => ?_
          rw [tokens_of_expectSymbol close, List.cons_append] at left₁
          refine (reads_expectSymbol left₁).mapAt fun _ d₂ _ => ?_
          rw [Expr.bare_withSpan, Expr.bare_withSpan, same]
        | _ => exact absurd read gives_error
      | _ => exact absurd read gives_error
termination_by 8 * c.remaining
decreasing_by
  all_goals omega

theorem reads_arguments (inert : Inert ext) {c c' d : Cursor} {es : List Expr}
    (read : (arguments c).Gives es d) (more : c'.tokens = c.tokens ++ ext) :
    (arguments c').Reads Expr.bareAll (Expr.bareAll es) (d.tokens ++ ext) := by
  rw [arguments] at read ⊢
  replace read := gives_andThen.1 read
  obtain ⟨_, mid, shorter, first, read⟩ := read
  rw [tokens_of_expectSymbol first, List.cons_append] at more
  refine (reads_expectSymbol more).andThen fun _ mid' _ _ tokens => ?_
  obtain ⟨rest, f, p, whole⟩ : ∃ rest f p, mid = ⟨rest, f, p⟩ := ⟨_, _, _, rfl⟩
  have tail : (argumentTail mid).Gives es d →
      (argumentTail mid').Reads Expr.bareAll (Expr.bareAll es) (d.tokens ++ ext) := fun read =>
    reads_argumentTail inert read tokens
  rw [whole] at read tokens tail
  cases rest with
  | nil =>
    simp only at read
    rw [argumentTail, gives_andThen] at read
    obtain ⟨_, _, _, arg, _⟩ := read
    exact absurd arg not_expression_nil
  | cons sign rest =>
    obtain ⟨s', rest', f', p', rfl, behind⟩ := eq_of_tokens_more tokens
    simp only at read ⊢
    split at read
    · rename_i close
      rw [if_pos close]
      obtain ⟨rfl, rfl⟩ := gives_ok.1 read
      exact ⟨_, _, gives_ok.2 ⟨rfl, rfl⟩, rfl, behind⟩
    · rename_i open_
      rw [if_neg open_]
      exact tail read
termination_by 8 * c.remaining

theorem reads_argumentTail (inert : Inert ext) {c c' d : Cursor} {es : List Expr}
    (read : (argumentTail c).Gives es d) (more : c'.tokens = c.tokens ++ ext) :
    (argumentTail c').Reads Expr.bareAll (Expr.bareAll es) (d.tokens ++ ext) := by
  rw [argumentTail] at read ⊢
  replace read := gives_andThen.1 read
  obtain ⟨arg, mid, shorter, first, read⟩ := read
  refine (reads_expression inert first more).andThen fun arg' mid' _ same tokens => ?_
  obtain ⟨rest, f, p⟩ := mid
  cases rest with
  | nil => exact absurd read gives_error
  | cons sign rest =>
    have size : (past ⟨sign :: rest, f, p⟩ sign rest).remaining + 1
        = remaining ⟨sign :: rest, f, p⟩ := rfl
    have close : ((expectSymbol ⟨sign :: rest, f, p⟩ .rightParen).map fun _ => [arg]).Gives es d →
        ((expectSymbol mid' .rightParen).map fun _ => [arg']).Reads Expr.bareAll
          (Expr.bareAll es) (d.tokens ++ ext) := by
      intro closed
      obtain ⟨_, closeRead, rfl⟩ := gives_map.1 closed
      rw [tokens_of_expectSymbol closeRead, List.cons_append] at tokens
      refine (reads_expectSymbol tokens).map fun _ _ => ?_
      simp only [Expr.bareAll, same]
    obtain ⟨s', rest', f', p', rfl, behind⟩ := eq_of_tokens_more tokens
    simp only at read ⊢
    split at read
    · rename_i comma
      rw [if_pos comma, reads_behind]
      rw [gives_behind, gives_map] at read
      obtain ⟨args, argsRead, rfl⟩ := read
      refine (reads_argumentTail inert argsRead behind).map fun args' same' => ?_
      simp only [Expr.bareAll, same, same']
    · rename_i last
      rw [if_neg last]
      exact close read
termination_by 8 * c.remaining + 6
decreasing_by
  all_goals omega

end

/-! ### Statements -/

theorem reads_condition (inert : Inert ext) {e : Expr} (read : (condition c).Gives e d)
    (more : c'.tokens = c.tokens ++ ext) :
    (condition c').Reads Expr.bare e.bare (d.tokens ++ ext) := by
  unfold condition at read ⊢
  simp only [gives_andThen, gives_map] at read
  obtain ⟨_, e₁, _, open_, test, e₂, _, testRead, _, close, rfl⟩ := read
  rw [tokens_of_expectSymbol open_, List.cons_append] at more
  refine (reads_expectSymbol more).andThen fun _ d₁ _ _ left₁ => ?_
  refine (reads_expression inert testRead left₁).andThen fun test' d₂ _ same left₂ => ?_
  rw [tokens_of_expectSymbol close, List.cons_append] at left₂
  exact (reads_expectSymbol left₂).map fun _ _ => same

theorem reads_initializer (inert : Inert ext) {init : Option Expr}
    (read : (initializer c).Gives init d) (more : c'.tokens = c.tokens ++ ext) :
    (initializer c').Reads (Option.map Expr.bare) (init.map Expr.bare) (d.tokens ++ ext) := by
  unfold initializer at read ⊢
  rw [gives_andMaybe] at read
  obtain ⟨found, e₁, _, eaten, read⟩ := read
  rcases gives_eat eaten with ⟨rfl, there⟩ | ⟨rfl, rfl, absent⟩
  · rw [there, List.cons_append] at more
    refine (reads_eat_some more).andMaybe ?_
    rintro _ d₁ _ rfl left₁
    simp only [gives_loosen, gives_map, if_true] at read ⊢
    obtain ⟨value, valueRead, rfl⟩ := read
    rw [reads_loosen]
    refine (reads_expression inert valueRead left₁).map fun value' same => ?_
    rw [Option.map_some, Option.map_some, same]
  · have absent' : c'.tokens.head? ≠ some (.symbol .equal) := by
      rw [more]
      cases tokens : c.tokens with
      | nil => cases inert <;> simp
      | cons t ts => rwa [tokens] at absent
    refine (reads_eat_none absent').andMaybe ?_
    rintro _ d₁ _ rfl left₁
    simp only [Bool.false_eq_true, if_false] at read ⊢
    obtain ⟨rfl, rfl⟩ := gives_stay.1 read
    exact reads_stay_of rfl (left₁.trans more)

theorem reads_declaration (inert : Inert ext) {s : Stmt} (read : (declaration c).Gives s d)
    (more : c'.tokens = c.tokens ++ ext) :
    (declaration c').Reads Stmt.bare s.bare (d.tokens ++ ext) := by
  unfold declaration at read ⊢
  simp only [gives_andThen, gives_maybeThen, gives_mapAt] at read
  obtain ⟨type, e₁, _, typeRead, ⟨name, span⟩, e₂, _, nameRead, init, e₃, _, initRead, _, close,
    rfl⟩ := read
  refine (reads_typeName_more inert typeRead more).andThen fun type' d₁ _ same₁ left₁ => ?_
  rw [tokens_of_expectIdentifier nameRead, List.cons_append] at left₁
  refine (reads_expectIdentifier left₁).andThen ?_
  rintro ⟨name', span'⟩ d₂ _ rfl left₂
  refine (reads_initializer inert initRead left₂).maybeThen fun init' d₃ _ same₃ left₃ => ?_
  rw [tokens_of_expectSemicolon close, List.cons_append] at left₃
  refine (reads_expectSemicolon left₃).mapAt fun _ d₄ _ => ?_
  simp only [Stmt.bare, same₁, same₃]

theorem reads_terminated (inert : Inert ext) {start start' : Span}
    {build build' : Expr → Span → Stmt} {s : Stmt}
    (same : ∀ e e' s s', Expr.bare e' = Expr.bare e → (build' e' s').bare = (build e s).bare)
    (read : (terminated start build c).Gives s d) (more : c'.tokens = c.tokens ++ ext) :
    (terminated start' build' c').Reads Stmt.bare s.bare (d.tokens ++ ext) := by
  unfold terminated at read ⊢
  simp only [gives_andThen, gives_mapAt] at read
  obtain ⟨value, e₁, _, valueRead, _, close, rfl⟩ := read
  refine (reads_expression inert valueRead more).andThen fun value' d₁ _ same₁ left₁ => ?_
  rw [tokens_of_expectSemicolon close, List.cons_append] at left₁
  exact (reads_expectSemicolon left₁).mapAt fun _ d₂ _ => same _ _ _ _ same₁

mutual

theorem reads_statement (inert : Inert ext) {c c' d : Cursor} {s : Stmt}
    (read : (statement c).Gives s d) (more : c'.tokens = c.tokens ++ ext) :
    (statement c').Reads Stmt.bare s.bare (d.tokens ++ ext) := by
  rw [statement] at read ⊢
  obtain ⟨rest, f, p, whole⟩ : ∃ rest f p, c = ⟨rest, f, p⟩ := ⟨_, _, _, rfl⟩
  cases rest with
  | nil =>
    rw [whole] at read
    simp only [terminated, gives_andThen] at read
    obtain ⟨_, _, _, read, _⟩ := read
    exact absurd read not_expression_nil
  | cons first rest =>
    -- a statement that its first token does not tell
    have other : (if c.opensDeclaration then c.declaration
          else c.terminated c.span fun e _ => .expr e).Gives s d →
        (if c'.opensDeclaration then c'.declaration
          else c'.terminated c'.span fun e _ => .expr e).Reads Stmt.bare s.bare
            (d.tokens ++ ext) := by
      intro other
      rw [opensDeclaration_eq] at other ⊢
      rw [more, declarationAhead_inert inert]
      split at other
      · rename_i opens
        rw [if_pos opens]
        exact reads_declaration inert other more
      · rename_i opens
        rw [if_neg opens]
        exact reads_terminated inert (fun e e' _ _ same => by simp only [Stmt.bare, same]) other
          more
    obtain ⟨t, span⟩ := first
    have size : (past ⟨⟨t, span⟩ :: rest, f, p⟩ ⟨t, span⟩ rest).remaining + 1 = c.remaining :=
      (congrArg remaining whole).symm
    rw [whole] at read more other
    obtain ⟨span', rest', f', p', rfl, left⟩ := eq_of_tokens_more more
    simp only at read ⊢
    cases t with
    | symbol sign =>
      cases sign with
      | leftBrace =>
        simp only [gives_behind, gives_mapAt] at read
        obtain ⟨body, bodyRead, rfl⟩ := read
        rw [reads_behind]
        refine (reads_blockTail inert bodyRead left).mapAt fun body' _ same => ?_
        simp only [Stmt.bare, same]
      | semicolon =>
        obtain ⟨rfl, rfl⟩ := gives_ok.1 read
        exact ⟨_, _, gives_ok.2 ⟨rfl, rfl⟩, rfl, left⟩
      | _ => exact other read
    | keyword k =>
      cases k with
      | return_ =>
        dsimp only at read ⊢
        rw [reads_behind, atSymbol_inert inert (by decide) left]
        rw [gives_behind] at read
        split at read
        · rename_i close
          rw [if_pos close]
          obtain ⟨_, close, rfl⟩ := gives_mapAt.1 read
          rw [tokens_of_expectSemicolon close, List.cons_append] at left
          exact (reads_expectSemicolon left).mapAt fun _ _ _ => rfl
        · rename_i value
          rw [if_neg value]
          refine reads_terminated inert (fun e e' _ _ same => ?_) read left
          simp only [Stmt.bare, Option.map_some, same]
      | throw =>
        dsimp only at read ⊢
        rw [reads_behind]
        rw [gives_behind] at read
        exact reads_terminated inert (fun e e' _ _ same => by simp only [Stmt.bare, same]) read
          left
      | if_ =>
        dsimp only at read ⊢
        rw [reads_behind]
        simp only [gives_behind, gives_andThen, gives_andMaybe] at read
        obtain ⟨test, e₁, shorter₁, testRead, thenBranch, e₂, shorter₂, thenRead, found, e₃,
          shorter₃, eaten, read⟩ := read
        refine (reads_condition inert testRead left).andThen fun test' d₁ _ same₁ left₁ => ?_
        refine (reads_statement inert thenRead left₁).andMaybe fun then' d₂ _ same₂ left₂ => ?_
        rcases gives_eat eaten with ⟨rfl, there⟩ | ⟨rfl, rfl, absent⟩
        · rw [there, List.cons_append] at left₂
          refine (reads_eat_some left₂).andMaybe ?_
          rintro _ d₃ _ rfl left₃
          simp only [gives_loosen, gives_mapAt, if_true] at read ⊢
          obtain ⟨elseBranch, elseRead, rfl⟩ := read
          rw [reads_loosen]
          refine (reads_statement inert elseRead left₃).mapAt fun else' _ same₃ => ?_
          simp only [Stmt.bare, same₁, same₂, same₃]
        · have absent' : d₂.tokens.head? ≠ some (.keyword .else_) := by
            rw [left₂]
            cases tokens : e₂.tokens with
            | nil => cases inert <;> simp
            | cons t ts => rwa [tokens] at absent
          refine (reads_eat_none absent').andMaybe ?_
          rintro _ d₃ _ rfl left₃
          simp only [Bool.false_eq_true, if_false] at read ⊢
          obtain ⟨rfl, rfl⟩ := gives_stay.1 read
          refine reads_stay_of ?_ (left₃.trans left₂)
          simp only [Stmt.bare, same₁, same₂]
      | while_ =>
        dsimp only at read ⊢
        rw [reads_behind]
        simp only [gives_behind, gives_andThen, gives_mapAt] at read
        obtain ⟨test, e₁, shorter₁, testRead, body, bodyRead, rfl⟩ := read
        refine (reads_condition inert testRead left).andThen fun test' d₁ _ same₁ left₁ => ?_
        refine (reads_statement inert bodyRead left₁).mapAt fun body' _ same₂ => ?_
        simp only [Stmt.bare, same₁, same₂]
      | final =>
        dsimp only at read ⊢
        rw [reads_behind]
        rw [gives_behind] at read
        exact reads_declaration inert read left
      | _ => exact other read
    | _ => exact other read
termination_by 2 * c.remaining
decreasing_by
  all_goals omega

theorem reads_blockTail (inert : Inert ext) {c c' d : Cursor} {ss : List Stmt}
    (read : (blockTail c).Gives ss d) (more : c'.tokens = c.tokens ++ ext) :
    (blockTail c').Reads Stmt.bareAll (Stmt.bareAll ss) (d.tokens ++ ext) := by
  rw [blockTail] at read ⊢
  obtain ⟨rest, f, p, whole⟩ : ∃ rest f p, c = ⟨rest, f, p⟩ := ⟨_, _, _, rfl⟩
  cases rest with
  | nil =>
    rw [whole] at read
    exact absurd read gives_error
  | cons first rest =>
    have next : ((statement c).andThen fun s d _ =>
          (blockTail d).map fun ss => s :: ss).Gives ss d →
        ((statement c').andThen fun s d _ => (blockTail d).map fun ss => s :: ss).Reads
          Stmt.bareAll (Stmt.bareAll ss) (d.tokens ++ ext) := by
      intro next
      simp only [gives_andThen, gives_map] at next
      obtain ⟨s, e₁, shorter₁, sRead, ss', ssRead, rfl⟩ := next
      refine (reads_statement inert sRead more).andThen fun s' d₁ _ same₁ left₁ => ?_
      refine (reads_blockTail inert ssRead left₁).map fun ss'' same₂ => ?_
      simp only [Stmt.bareAll, same₁, same₂]
    rw [whole] at read more next
    obtain ⟨span', rest', f', p', rfl, left⟩ := eq_of_tokens_more more
    simp only at read ⊢
    split at read
    · rename_i close
      rw [if_pos close]
      obtain ⟨rfl, rfl⟩ := gives_ok.1 read
      exact ⟨_, _, gives_ok.2 ⟨rfl, rfl⟩, rfl, left⟩
    · rename_i open_
      rw [if_neg open_]
      exact next read
termination_by 2 * c.remaining + 1
decreasing_by
  all_goals omega

end

theorem reads_block (inert : Inert ext) {b : Block} (read : (block c).Gives b d)
    (more : c'.tokens = c.tokens ++ ext) :
    (block c').Reads Block.bare b.bare (d.tokens ++ ext) := by
  unfold block at read ⊢
  simp only [gives_andThen, gives_mapAt] at read
  obtain ⟨_, e₁, _, open_, body, bodyRead, rfl⟩ := read
  rw [tokens_of_expectSymbol open_, List.cons_append] at more
  refine (reads_expectSymbol more).andThen fun _ d₁ _ _ left₁ => ?_
  refine (reads_blockTail inert bodyRead left₁).mapAt fun body' _ same => ?_
  simp only [Block.bare, same]

end Classwright.Source.Cursor
