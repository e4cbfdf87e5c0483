import Classwright.Proofs.Grammar
import Classwright.Proofs.Readback

/-!
# Rendered expressions are read back

Each level of the grammar has a reader. It reads a rendered expression in front of tokens that it
does not go on with, and leaves them: `Ends p` says that of the tokens behind an expression of level
`p`. Operators group to the left, so what is read first is the left operand alone; a reader that has
come to a left operand goes on as if it had read nothing else. Whether a parenthesis opens a cast,
and whether a statement is a declaration, is decided by a type that the tokens start with; the left
edge of an expression shows where such a type ends.
-/

namespace Classwright.Source

open Step Cursor Synthesis

/-! ### Types -/

theorem brackets_bracketTokens (dims : Nat) {rest : List Token} (ends : EndsType rest) :
    brackets (bracketTokens dims ++ rest) = (dims, rest) := by
  induction dims with
  | zero => exact brackets_endsType ends
  | succ dims ih =>
    rw [bracketTokens, List.cons_append, List.cons_append, brackets, ih]

/-- A written type is read back. -/
theorem typeAt?_tokens (t : TypeName) {rest : List Token} (ends : EndsType rest) :
    typeAt? (t.tokens ++ rest) = some (t.bare, rest) := by
  have pairs := brackets_bracketTokens t.dims ends
  unfold TypeName.tokens
  rw [List.append_assoc]
  cases found : Primitive.ofKeyword? t.name with
  | some kind =>
    have word : kind.keyword = t.name := by simpa using List.find?_some found
    simp only [List.singleton_append]
    rw [typeAt?, pairs, word, TypeName.bare]
  | none =>
    have noDot : (bracketTokens t.dims ++ rest).head? ≠ some (.symbol .dot) := by
      cases t.dims with
      | zero => exact ends.1
      | succ dims => simp [bracketTokens]
    obtain ⟨first, more, tokens, text, left⟩ := qualified_nameTokens t.name noDot
    simp only
    rw [tokens, typeAt?, text, left, pairs, TypeName.bare]

/-! ### The left edge -/

/-- The signs between operands. -/
def joins (s : Symbol) : Bool :=
  (InfixOp.ofToken? (.symbol s)).isSome || (assignOp? (.symbol s)).isSome || s == .question

theorem joins_sign (o : InfixOp) : joins o.sign = true := by
  rw [joins, InfixOp.ofToken?_sign]
  rfl

theorem joins_assign {op : Option BinaryOp} {s : Symbol} (h : assignSign? op = some s) :
    joins s = true := by
  rw [joins, assignOp?_of_sign h, Option.isSome_some, Bool.or_true, Bool.true_or]

/-- What an expression of a level may start with. -/
inductive LeftEdge : Nat → List Token → Prop
  | tighter {p : Nat} {ts : List Token} : LeftEdge (p + 1) ts → LeftEdge p ts
  | literal (v : Literal) : LeftEdge 9 [v.token]
  | word {k : Keyword} (us : List Token) : k = .this ∨ k = .super → LeftEdge 9 (.keyword k :: us)
  | name (x : String) : LeftEdge 9 [.identifier x]
  | call (x : String) (us : List Token) :
      LeftEdge 9 (.identifier x :: .symbol .leftParen :: us)
  | parens (us : List Token) : LeftEdge 9 (.symbol .leftParen :: us)
  | sign (op : SignOp) (us : List Token) : LeftEdge 8 (.symbol op.sign :: us)
  | member {ts us : List Token} (x : String) : LeftEdge 9 ts →
      us = [] ∨ us.head? = some (.symbol .leftParen) →
      LeftEdge 9 (ts ++ .symbol .dot :: .identifier x :: us)
  | joined {p q : Nat} {ts : List Token} {s : Symbol} (us : List Token) : p ≤ 7 → LeftEdge q ts →
      joins s = true → LeftEdge p (ts ++ .symbol s :: us)

theorem Expr.Rendered.leftEdge {p : Nat} {e : Expr} {ts : List Token} (h : e.Rendered p ts) :
    LeftEdge p ts := by
  cases h with
  | tighter _ h => exact .tighter h.leftEdge
  | assign signed _ target _ => exact .joined _ (by decide) target.leftEdge (joins_assign signed)
  | conditional c _ _ => exact .joined _ (by decide) c.leftEdge (by decide)
  | @join o _ _ _ _ _ _ level left _ =>
    have bound := o.level_le
    exact .joined _ (by omega) left.leftEdge (joins_sign o)
  | sign => exact .sign _ _
  | cast => exact .tighter (.parens _)
  | negative => exact .sign .negate _
  | access target => exact .member _ target.leftEdge (.inl rfl)
  | call target => exact .member _ target.leftEdge (.inr rfl)
  | parens => exact .parens _
  | literal => exact .literal _
  | name => exact .name _
  | this => exact .word _ (.inl rfl)
  | ownCall => exact .call _ _
  | superCall => exact .word _ (.inr rfl)
termination_by (ts.length, 10 - p)
decreasing_by all_goals simp_wf; simp_all; omega

section

variable {p : Nat} {ts us rest left : List Token} {t : Token} {type : TypeName}

/-- An expression starts with what may stand behind a cast, or with a plus or minus sign. -/
theorem LeftEdge.head (h : LeftEdge p ts) : ∃ t us, ts = t :: us ∧
    (startsCastOperand t = true ∨ t = .symbol .plus ∨ t = .symbol .minus) := by
  induction h with
  | tighter _ ih => exact ih
  | literal v =>
    refine ⟨_, _, rfl, .inl ?_⟩
    match v with
    | .int _ | .long _ | .float _ | .double _ | .char _ | .string _ => rfl
    | .bool true | .bool false | .null => rfl
  | word us k => exact ⟨_, us, rfl, .inl (by rcases k with rfl | rfl <;> decide)⟩
  | name x => exact ⟨_, _, rfl, .inl rfl⟩
  | call x us => exact ⟨_, _, rfl, .inl rfl⟩
  | parens us => exact ⟨_, us, rfl, .inl (by decide)⟩
  | sign op us => exact ⟨_, us, rfl, by cases op <;> decide⟩
  | member x _ _ ih =>
    obtain ⟨t, us, rfl, starts⟩ := ih
    exact ⟨t, _, rfl, starts⟩
  | joined us _ _ _ ih =>
    obtain ⟨t, us, rfl, starts⟩ := ih
    exact ⟨t, _, rfl, starts⟩

/-- Below the operators only a dot follows an `int` literal at the left edge. -/
theorem LeftEdge.behindInt {n : Nat} (h : LeftEdge p (.int n :: us)) (high : 8 ≤ p) :
    us = [] ∨ us.head? = some (.symbol .dot) := by
  generalize whole : Token.int n :: us = ts at h
  induction h generalizing us with
  | tighter _ ih => exact ih (by omega) whole
  | literal v => exact .inl (List.cons.inj whole).2
  | word => cases whole
  | name => cases whole
  | call => cases whole
  | parens => cases whole
  | sign => cases whole
  | @member ts us' x edge _ ih =>
    obtain ⟨t, more, rfl, _⟩ := edge.head
    obtain ⟨rfl, rfl⟩ := List.cons.inj whole
    right
    rcases ih high rfl with rfl | dot
    · rfl
    · exact List.head?_append.trans (by rw [dot]; rfl)
  | joined _ low => omega

theorem typeAt?_identifier {x : String} (h : typeAt? (.identifier x :: ts) = some (type, left)) :
    left = (brackets (dotted ts).2).2 := by
  cases h
  rfl

/-- Behind a name a type ends where what follows starts no more of it. -/
theorem typeAt?_stop {x : String} {s : Symbol} (other : s ≠ .dot ∧ s ≠ .leftBracket)
    (h : typeAt? (.identifier x :: .symbol s :: ts) = some (type, left)) :
    left = .symbol s :: ts := by
  have noName : dotted (.symbol s :: ts) = ([], .symbol s :: ts) := by
    rw [dotted]
    rintro name more same
    cases same
    exact other.1 rfl
  have noBrackets : brackets (.symbol s :: ts) = (0, .symbol s :: ts) := by
    rw [brackets]
    rintro more same
    cases same
    exact other.2 rfl
  rw [typeAt?_identifier h, noName, noBrackets]

theorem joins_other {s : Symbol} (h : joins s = true) :
    (s ≠ .dot ∧ s ≠ .leftBracket) ∧ s ≠ .rightParen := by
  cases s <;> first | exact absurd h (by decide) | decide

/-- A type at the start of an expression starts with a name. It is all of the expression, and goes
on with what follows, or it ends in front of a sign of the expression. -/
theorem LeftEdge.typeAt? (h : LeftEdge p ts)
    (found : Source.typeAt? (ts ++ rest) = some (type, left)) :
    (∃ x us, ts = .identifier x :: us) ∧
      ((∃ x type', Source.typeAt? (.identifier x :: rest) = some (type', left)) ∨
        ∃ s, left.head? = some (.symbol s) ∧ s ≠ .rightParen) := by
  induction h generalizing rest with
  | tighter _ ih => exact ih found
  | literal v =>
    exfalso
    match v with
    | .int _ | .long _ | .float _ | .double _ | .char _ | .string _ => cases found
    | .bool true | .bool false | .null => cases found
  | word => cases found
  | name x => exact ⟨⟨x, _, rfl⟩, .inl ⟨x, _, found⟩⟩
  | call x us =>
    refine ⟨⟨x, _, rfl⟩, .inr ⟨.leftParen, ?_, by decide⟩⟩
    rw [typeAt?_stop (by decide) found]
    rfl
  | parens => cases found
  | sign op => cases found
  | @member ts us x edge behind ih =>
    obtain ⟨t, more, rfl, _⟩ := edge.head
    rw [List.append_assoc] at found
    obtain ⟨⟨y, us', same⟩, next⟩ := ih found
    cases same
    refine ⟨⟨y, _, rfl⟩, ?_⟩
    rcases next with ⟨z, type', found'⟩ | ends
    · -- the name behind the dot takes the place of the name in front of it
      have onward : ∃ type'', Source.typeAt? (.identifier x :: (us ++ rest))
          = some (type'', left) := by
        have same := typeAt?_identifier found'
        simp only [List.cons_append, dotted] at same
        rw [same]
        exact ⟨_, rfl⟩
      obtain ⟨type'', onward⟩ := onward
      rcases behind with rfl | call
      · exact .inl ⟨x, type'', onward⟩
      · obtain ⟨us', rfl⟩ : ∃ us', us = .symbol .leftParen :: us' := by
          cases us with
          | nil => cases call
          | cons u us =>
            cases call
            exact ⟨us, rfl⟩
        refine .inr ⟨.leftParen, ?_, by decide⟩
        rw [typeAt?_stop (by decide) onward]
        rfl
    · exact .inr ends
  | @joined _ _ ts s us _ edge sign ih =>
    obtain ⟨t, more, rfl, _⟩ := edge.head
    rw [List.append_assoc] at found
    obtain ⟨⟨y, us', same⟩, next⟩ := ih found
    cases same
    refine ⟨⟨y, _, rfl⟩, ?_⟩
    rcases next with ⟨z, type', found'⟩ | ends
    · have other := joins_other sign
      refine .inr ⟨s, ?_, other.2⟩
      rw [typeAt?_stop other.1 found']
      rfl
    · exact .inr ends

/-- An expression in parentheses is no cast. -/
theorem LeftEdge.castAhead (h : LeftEdge p ts)
    (noOperand : (rest.head?.map startsCastOperand).getD false = false) :
    Cursor.castAhead (ts ++ .symbol .rightParen :: rest) = false := by
  unfold Cursor.castAhead
  split
  · rename_i type behind found
    obtain ⟨⟨x, us, rfl⟩, ends⟩ := h.typeAt? found
    rcases ends with ⟨y, type', found'⟩ | ⟨s, head, other⟩
    · have same := typeAt?_stop (by decide) found'
      cases same
      rw [noOperand]
      rfl
    · cases head
      exact absurd rfl other
  · rfl

/-- An expression in front of a semicolon is no declaration. -/
theorem LeftEdge.declarationAhead (h : LeftEdge p ts) :
    Cursor.declarationAhead (ts ++ .symbol .semicolon :: rest) = false := by
  unfold Cursor.declarationAhead
  split
  · rename_i type behind found
    rcases (h.typeAt? found).2 with ⟨y, type', found'⟩ | ⟨s, head, _⟩
    · rw [typeAt?_stop (by decide) found']
      rfl
    · rw [head]
      rfl
  · rfl

end

/-! ### Where readers stop -/

/-- How much a token takes of what stands in front of it: readers of a lower level go on with it. -/
def reach (t : Token) : Nat :=
  if startsCastOperand t then 11
  else if t = .symbol .dot then 10
  else match InfixOp.ofToken? t with
    | some o => o.level + 2
    | none => if t = .symbol .question then 2 else if (assignOp? t).isSome then 1 else 0

/-- A reader of the level does not go on with these tokens. -/
def Ends (p : Nat) (rest : List Token) : Prop := ∀ t, rest.head? = some t → reach t ≤ p

section

variable {p q : Nat} {rest : List Token} {t : Token}

theorem Ends.mono (h : Ends p rest) (le : p ≤ q) : Ends q rest :=
  fun t head => (h t head).trans le

theorem ends_cons : Ends p (t :: rest) ↔ reach t ≤ p := by
  constructor
  · exact fun h => h t rfl
  · intro h u head
    cases head
    exact h

theorem reach_sign (o : InfixOp) : reach (.symbol o.sign) = o.level + 2 := by
  cases o with
  | binary op => cases op <;> decide
  | logical op => cases op <;> decide

theorem reach_assign {op : Option BinaryOp} {s : Symbol} (h : assignSign? op = some s) :
    reach (.symbol s) = 1 := by
  cases op with
  | none =>
    cases h
    decide
  | some op => cases op <;> cases h <;> decide

theorem Ends.noOperand (h : Ends 10 rest) :
    (rest.head?.map startsCastOperand).getD false = false := by
  cases rest with
  | nil => rfl
  | cons t rest =>
    have bound := ends_cons.1 h
    unfold reach at bound
    by_cases starts : startsCastOperand t = true
    · rw [if_pos starts] at bound
      omega
    · simpa using starts

theorem Ends.noParen (h : Ends 10 rest) : rest.head? ≠ some (.symbol .leftParen) := by
  intro head
  have bound := h _ head
  exact absurd bound (by decide)

theorem Ends.noDot (h : Ends 9 rest) : rest.head? ≠ some (.symbol .dot) := by
  intro head
  have bound := h _ head
  exact absurd bound (by decide)

theorem eq_sign_of_ofToken? {o : InfixOp} (h : InfixOp.ofToken? t = some o) :
    t = .symbol o.sign := by
  cases t with
  | symbol s => cases s <;> cases h <;> rfl
  | _ => cases h

theorem Ends.infix {o : InfixOp} (h : Ends p (t :: rest)) (op : InfixOp.ofToken? t = some o) :
    o.level + 2 ≤ p := by
  have bound := ends_cons.1 h
  rwa [eq_sign_of_ofToken? op, reach_sign] at bound

theorem Ends.noQuestion (h : Ends 1 (t :: rest)) : t ≠ .symbol .question := by
  rintro rfl
  have bound := ends_cons.1 h
  exact absurd bound (by decide)

theorem Ends.noAssign (h : Ends 0 (t :: rest)) : assignOp? t = none := by
  cases t with
  | symbol s =>
    have bound := ends_cons.1 h
    cases s <;> first | rfl | exact absurd bound (by decide)
  | _ => rfl

end

/-! ### Readers of each level -/

namespace Cursor

variable {c d : Cursor} {e : Expr} {rest : List Token}

/-- The operand is read, and reading goes on with what is behind it. -/
def ReadsOperand (c : Cursor) (e : Expr) (rest : List Token) : Prop :=
  ∃ e' d, e'.bare = e.bare ∧ d.tokens = rest ∧
    ∀ x f, (postfixTail e' d).Gives x f → (unary c).Gives x f

/-- The left operand of operators of the level is read, and reading goes on with these. -/
def ReadsLeft (level : Nat) (c : Cursor) (e : Expr) (rest : List Token) : Prop :=
  ∃ e' d, e'.bare = e.bare ∧ d.tokens = rest ∧
    ∀ x f, (infixTail level e' d).Gives x f → (infixes level c).Gives x f

theorem postfixTail_stay (stop : d.tokens.head? ≠ some (.symbol .dot)) :
    (postfixTail e d).Gives e d := by
  obtain ⟨ls, f, p⟩ := d
  rw [postfixTail]
  cases ls with
  | nil => exact gives_stay.2 ⟨rfl, rfl⟩
  | cons sign ls =>
    have other : sign.token ≠ .symbol .dot := fun same => stop (congrArg some same)
    simp only
    rw [if_neg other]
    exact gives_stay.2 ⟨rfl, rfl⟩

theorem infixTail_stay {level : Nat} (ends : Ends (level + 1) d.tokens) :
    (infixTail level e d).Gives e d := by
  obtain ⟨ls, f, p⟩ := d
  rw [infixTail]
  cases ls with
  | nil => exact gives_stay.2 ⟨rfl, rfl⟩
  | cons sign ls =>
    simp only
    cases op : InfixOp.ofToken? sign.token with
    | none => exact gives_stay.2 ⟨rfl, rfl⟩
    | some o =>
      have bound : o.level + 2 ≤ level + 1 := Ends.infix ends op
      have low : ¬ level ≤ o.level := by omega
      simp only
      rw [if_neg low]
      exact gives_stay.2 ⟨rfl, rfl⟩

theorem ReadsOperand.unary (h : c.ReadsOperand e rest) (ends : Ends 9 rest) :
    (Cursor.unary c).Reads Expr.bare e.bare rest := by
  obtain ⟨e', d, shape, rfl, goesOn⟩ := h
  exact ⟨e', d, goesOn _ _ (postfixTail_stay ends.noDot), shape, rfl⟩

theorem ReadsLeft.of_unary (h : (unary c).Reads Expr.bare e.bare rest) (level : Nat) :
    c.ReadsLeft level e rest := by
  obtain ⟨e', d, gives, shape, rfl⟩ := h
  refine ⟨e', d, shape, rfl, fun x f tail => ?_⟩
  rw [infixes, gives_andMaybe]
  exact ⟨e', d, gives.shorter, gives, tail⟩

theorem ReadsLeft.infixes {level : Nat} (h : c.ReadsLeft level e rest)
    (ends : Ends (level + 1) rest) : (Cursor.infixes level c).Reads Expr.bare e.bare rest := by
  obtain ⟨e', d, shape, rfl, goesOn⟩ := h
  exact ⟨e', d, goesOn _ _ (infixTail_stay ends), shape, rfl⟩

/-- Behind a left operand an operator takes a right operand, and both are a left operand. -/
theorem ReadsLeft.join {level : Nat} {l r : Expr} {o : InfixOp} {s : Span} {us : List Token}
    (left : c.ReadsLeft level l (.symbol o.sign :: us)) (le : level ≤ o.level)
    (right : ∀ d : Cursor, d.tokens = us →
      (Cursor.infixes (o.level + 1) d).Reads Expr.bare r.bare rest) :
    c.ReadsLeft level (o.join l r s) rest := by
  obtain ⟨l', d, shape, tokens, goesOn⟩ := left
  obtain ⟨s', ls, f, p, rfl, behind⟩ := past_of_tokens_cons tokens
  obtain ⟨r', e, gives, shape', left⟩ := right _ behind
  refine ⟨o.apply l' r', e, ?_, left, fun x g tail => goesOn x g ?_⟩
  · rw [InfixOp.bare_apply, InfixOp.bare_join, shape, shape']
  · rw [infixTail]
    simp only
    rw [InfixOp.ofToken?_sign]
    simp only
    rw [if_pos le, gives_loosen, gives_behind, gives_andMaybe]
    exact ⟨r', e, gives.shorter, gives, tail⟩

/-- A literal, a name, a call without a target or an expression in parentheses is an operand unless
its parenthesis opens a cast. -/
theorem ReadsOperand.of_primary {t : Token} {ts : List Token} (tokens : c.tokens = t :: ts)
    (noSign : signOp? t = none) (noCast : t = .symbol .leftParen → castAhead ts = false)
    (read : (primary c).Reads Expr.bare e.bare rest) : c.ReadsOperand e rest := by
  obtain ⟨e', d, gives, shape, left⟩ := read
  refine ⟨e', d, shape, left, fun x f tail => ?_⟩
  have whole : (postfixes c).Gives x f := by
    rw [postfixes, gives_andMaybe]
    exact ⟨e', d, gives.shorter, gives, tail⟩
  obtain ⟨s, ls, g, p, rfl, rfl⟩ := eq_of_tokens_cons tokens
  rw [Cursor.unary]
  simp only [noSign]
  rw [if_neg]
  · exact whole
  · rintro ⟨same, opens⟩
    rw [opensCast_eq, noCast same] at opens
    cases opens

/-! ### Operands -/

theorem natAbs_lt {v : Int32} (h : ¬ v.toInt < 0) : v.toInt.natAbs < Nat.pow 2 31 := by
  have bound := v.toInt_lt
  have size : (2 : Int) ^ 31 = 2147483648 := by decide
  have size' : Nat.pow 2 31 = 2147483648 := by decide
  omega

theorem literal?_int (n : Nat) :
    literal? (.int n) = if n < Nat.pow 2 31 then some (.int (Int32.ofNat n)) else none := rfl

theorem literal?_identifier (x : String) : literal? (.identifier x) = none := rfl

theorem literal?_symbol (s : Symbol) : literal? (.symbol s) = none := rfl

theorem literal?_this : literal? (.keyword .this) = none := rfl

theorem literal?_super : literal? (.keyword .super) = none := rfl

theorem literal?_token {v : Literal} (h : v.isNegative = false) : literal? v.token = some v := by
  match v with
  | .int v =>
    have notNegative : ¬ v.toInt < 0 := by simpa [Literal.isNegative] using h
    have whole : Int32.ofNat v.toInt.natAbs = v := by
      rw [← Int32.ofInt_eq_ofNat, Int.natAbs_of_nonneg (by omega), Int32.ofInt_toInt]
    rw [Literal.token, literal?_int, if_pos (natAbs_lt notNegative), whole]
  | .long _ | .float _ | .double _ | .char _ | .string _ => rfl
  | .bool true | .bool false | .null => rfl

theorem signOp?_literal (v : Literal) :
    signOp? v.token = none ∧ v.token ≠ .symbol .leftParen := by
  match v with
  | .int _ | .long _ | .float _ | .double _ | .char _ | .string _ =>
    exact ⟨rfl, by simp [Literal.token]⟩
  | .bool true | .bool false | .null => exact ⟨rfl, by decide⟩

theorem readsOperand_literal {v : Literal} {s : Span} (plain : v.isNegative = false)
    (tokens : c.tokens = v.token :: rest) : c.ReadsOperand (.literal v s) rest := by
  have noSign := signOp?_literal v
  refine .of_primary tokens noSign.1 (fun same => absurd same noSign.2) ?_
  obtain ⟨s', ls, f, p, rfl, rfl⟩ := eq_of_tokens_cons tokens
  rw [primary]
  simp only [literal?_token plain]
  exact ⟨_, _, gives_ok.2 ⟨rfl, rfl⟩, rfl, rfl⟩

theorem readsOperand_name {x : String} {s : Span} (tokens : c.tokens = .identifier x :: rest)
    (noCall : rest.head? ≠ some (.symbol .leftParen)) : c.ReadsOperand (.name x s) rest := by
  refine .of_primary tokens rfl (fun same => nomatch same) ?_
  obtain ⟨s', ls, f, p, rfl, behind⟩ := past_of_tokens_cons tokens
  have closed : (past ⟨⟨.identifier x, s'⟩ :: ls, f, p⟩ ⟨.identifier x, s'⟩ ls).atSymbol
      .leftParen = false := by
    rw [atSymbol_eq, behind]
    simpa using noCall
  rw [primary]
  simp only [literal?_identifier, closed]
  exact ⟨_, _, gives_ok.2 ⟨rfl, rfl⟩, rfl, behind⟩

theorem readsOperand_this {s : Span} (tokens : c.tokens = .keyword .this :: rest) :
    c.ReadsOperand (.this s) rest := by
  refine .of_primary tokens rfl (fun same => nomatch same) ?_
  obtain ⟨s', ls, f, p, rfl, rfl⟩ := eq_of_tokens_cons tokens
  rw [primary]
  simp only [literal?_this]
  exact ⟨_, _, gives_ok.2 ⟨rfl, rfl⟩, rfl, rfl⟩

/-- A cursor in front of a parenthesis. -/
theorem atSymbol_of_tokens {c : Cursor} {s : Symbol} {ts : List Token}
    (tokens : c.tokens = .symbol s :: ts) : c.atSymbol s = true := by
  rw [atSymbol_eq, tokens]
  simp

theorem readsOperand_ownCall {x : String} {args : List Expr} {s : Span} {us : List Token}
    (tokens : c.tokens = .identifier x :: .symbol .leftParen :: us)
    (read : ∀ d : Cursor, d.tokens = .symbol .leftParen :: us →
      (arguments d).Reads Expr.bareAll (Expr.bareAll args) rest) :
    c.ReadsOperand (.ownCall x args s) rest := by
  refine .of_primary tokens rfl (fun same => nomatch same) ?_
  obtain ⟨s', ls, f, p, rfl, behind⟩ := past_of_tokens_cons tokens
  rw [primary]
  simp only [literal?_identifier, atSymbol_of_tokens behind, if_true]
  rw [reads_behind]
  refine (read _ behind).mapAt fun args' d same => ?_
  rw [Expr.bare, Expr.bare, same]

theorem readsOperand_superCall {x : String} {args : List Expr} {s : Span} {us : List Token}
    (tokens : c.tokens = .keyword .super :: .symbol .dot :: .identifier x
      :: .symbol .leftParen :: us)
    (read : ∀ d : Cursor, d.tokens = .symbol .leftParen :: us →
      (arguments d).Reads Expr.bareAll (Expr.bareAll args) rest) :
    c.ReadsOperand (.superCall x args s) rest := by
  refine .of_primary tokens rfl (fun same => nomatch same) ?_
  obtain ⟨s', ls, f, p, rfl, behind⟩ := past_of_tokens_cons tokens
  rw [primary]
  simp only [literal?_super]
  rw [reads_behind]
  refine (reads_expectSymbol behind).andThen fun _ d _ _ left => ?_
  refine (reads_expectIdentifier left).andThen ?_
  rintro ⟨x', s'⟩ e _ rfl left'
  simp only [atSymbol_of_tokens left', if_true]
  refine (read e left').mapAt fun args' d same => ?_
  rw [Expr.bare, Expr.bare, same]

theorem readsOperand_parens {us : List Token} (tokens : c.tokens = .symbol .leftParen :: us)
    (noCast : castAhead us = false)
    (read : ∀ d : Cursor, d.tokens = us →
      (expression d).Reads Expr.bare e.bare (.symbol .rightParen :: rest)) :
    c.ReadsOperand e rest := by
  refine .of_primary tokens rfl (fun _ => noCast) ?_
  obtain ⟨s', ls, f, p, rfl, behind⟩ := past_of_tokens_cons tokens
  rw [primary]
  simp only [literal?_symbol]
  rw [reads_behind]
  refine (read _ behind).andThen fun inner d _ shape left => ?_
  refine (reads_expectSymbol left).mapAt fun _ d' _ => ?_
  rw [Expr.bare_withSpan, shape]

theorem ReadsOperand.access {target : Expr} {x : String} {s : Span}
    (h : c.ReadsOperand target (.symbol .dot :: .identifier x :: rest))
    (noCall : rest.head? ≠ some (.symbol .leftParen)) :
    c.ReadsOperand (.access target x s) rest := by
  obtain ⟨target', d, shape, tokens, goesOn⟩ := h
  obtain ⟨s', ls, f, p, rfl, behind⟩ := past_of_tokens_cons tokens
  obtain ⟨⟨x', s''⟩, d', gives, rfl, left⟩ := reads_expectIdentifier behind
  refine ⟨.access target' x' (target'.span.through s''), d', ?_, left, fun e g tail =>
    goesOn e g ?_⟩
  · rw [Expr.bare, Expr.bare, shape]
  · have closed : d'.atSymbol .leftParen = false := by
      rw [atSymbol_eq, left]
      simpa using noCall
    rw [postfixTail]
    simp only [if_true]
    rw [gives_loosen, gives_behind, gives_andMaybe]
    refine ⟨_, d', gives.shorter, gives, ?_⟩
    simp only [closed]
    exact tail

theorem ReadsOperand.call {target : Expr} {x : String} {args : List Expr} {s : Span}
    {us : List Token}
    (h : c.ReadsOperand target (.symbol .dot :: .identifier x :: .symbol .leftParen :: us))
    (read : ∀ d : Cursor, d.tokens = .symbol .leftParen :: us →
      (arguments d).Reads Expr.bareAll (Expr.bareAll args) rest) :
    c.ReadsOperand (.call target x args s) rest := by
  obtain ⟨target', d, shape, tokens, goesOn⟩ := h
  obtain ⟨s', ls, f, p, rfl, behind⟩ := past_of_tokens_cons tokens
  obtain ⟨⟨x', s''⟩, d', gives, rfl, left⟩ := reads_expectIdentifier behind
  obtain ⟨args', d'', gives', same, left'⟩ := read d' left
  refine ⟨.call target' x' args' (target'.span.through d''.previous), d'', ?_, left',
    fun e g tail => goesOn e g ?_⟩
  · rw [Expr.bare, Expr.bare, shape, same]
  · rw [postfixTail]
    simp only [if_true]
    rw [gives_loosen, gives_behind, gives_andMaybe]
    refine ⟨_, d', gives.shorter, gives, ?_⟩
    simp only [atSymbol_of_tokens left, if_true]
    rw [gives_loosen, gives_andMaybe]
    exact ⟨args', d'', gives'.shorter, gives', tail⟩

/-! ### Signs and casts -/

theorem negatedInt?_none (h : ∀ n us, c.tokens = .int n :: us → us.head? = some (.symbol .dot)) :
    negatedInt? c = none := by
  unfold negatedInt?
  split
  · rename_i n span ls same
    have dot := h n (ls.map (·.token)) (by rw [Cursor.tokens, same]; rfl)
    rw [List.head?_map] at dot
    rw [if_pos dot]
  · rfl

theorem negatedInt?_some {n : Nat} (tokens : c.tokens = .int n :: rest)
    (noDot : rest.head? ≠ some (.symbol .dot)) :
    ∃ span d, negatedInt? c = some (n, span, d) ∧ d.1.tokens = rest := by
  obtain ⟨s, ls, f, p, rfl, rfl⟩ := eq_of_tokens_cons tokens
  simp only [negatedInt?]
  rw [if_neg (by rwa [← List.head?_map])]
  exact ⟨_, _, rfl, rfl⟩

theorem signOp?_sign (op : SignOp) : signOp? (.symbol op.sign) = some op := by
  cases op <;> rfl

theorem unary_sign {op : SignOp} {s : Span} {us : List Token}
    (tokens : c.tokens = .symbol op.sign :: us)
    (noInt : op = .negate → ∀ n us', us = .int n :: us' → us'.head? = some (.symbol .dot))
    (read : ∀ d : Cursor, d.tokens = us → (unary d).Reads Expr.bare e.bare rest) :
    (unary c).Reads Expr.bare (Expr.unary op e s).bare rest := by
  obtain ⟨s', ls, f, p, rfl, behind⟩ := past_of_tokens_cons tokens
  have whole := (read _ behind).map (h := fun operand =>
    Expr.unary op operand (s'.through operand.span)) (g := Expr.bare)
    (y := (Expr.unary op e s).bare) fun operand same => by rw [Expr.bare, Expr.bare, same]
  rw [unary]
  simp only [signOp?_sign]
  split
  · -- a minus sign in front of a number alone would make a literal of both
    rename_i found
    have none_ := negatedInt?_none fun n us' same => noInt rfl n us' (behind.symm.trans same)
    rw [none_] at found
    cases found
  · rw [reads_behind]
    exact whole

theorem unary_negative {v : Literal} {s : Span} (negative : v.isNegative = true)
    (tokens : c.tokens = .symbol .minus :: v.token :: rest)
    (noDot : rest.head? ≠ some (.symbol .dot)) :
    (unary c).Reads Expr.bare (Expr.literal v s).bare rest := by
  obtain ⟨s', ls, f, p, rfl, behind⟩ := past_of_tokens_cons tokens
  cases v with
  | int v =>
    obtain ⟨span, ⟨d, hd⟩, found, left⟩ := negatedInt?_some behind noDot
    have below : v.toInt < 0 := by simpa [Literal.isNegative] using negative
    have value : Int32.ofInt (-(v.toInt.natAbs : Int)) = v := by
      rw [Int.ofNat_natAbs_of_nonpos (by omega), Int.neg_neg, Int32.ofInt_toInt]
    rw [unary]
    simp only [signOp?]
    rw [found]
    simp only
    rw [reads_behind]
    refine ⟨_, d, gives_ok.2 ⟨rfl, rfl⟩, ?_, left⟩
    rw [value, Expr.bare, Expr.bare]
  | _ => cases negative

theorem unary_cast {type : TypeName} {s : Span} {us : List Token}
    (tokens : c.tokens = .symbol .leftParen :: (type.tokens ++ .symbol .rightParen :: us))
    (opens : castAhead (type.tokens ++ .symbol .rightParen :: us) = true)
    (typed : typeAt? (type.tokens ++ .symbol .rightParen :: us)
      = some (type.bare, .symbol .rightParen :: us))
    (read : ∀ d : Cursor, d.tokens = us → (unary d).Reads Expr.bare e.bare rest) :
    (unary c).Reads Expr.bare (Expr.cast type e s).bare rest := by
  obtain ⟨s', ls, f, p, rfl, behind⟩ := past_of_tokens_cons tokens
  rw [unary]
  simp only [signOp?]
  have ahead : opensCast ls = true := by
    rw [opensCast_eq, ← tokens_past _ _ ls, behind]
    exact opens
  rw [if_pos ⟨trivial, ahead⟩, reads_behind]
  refine (reads_typeName (by rw [behind]; exact typed)).andThen fun type' d _ same left => ?_
  refine (reads_expectSymbol left).andThen fun _ d' _ _ left' => ?_
  refine (read d' left').map fun operand shape => ?_
  rw [Expr.bare, Expr.bare, same, shape]

/-- A written type in parentheses opens a cast in front of what may stand behind one. -/
theorem castAhead_tokens (type : TypeName) {us : List Token}
    (operand : type.isPrimitive = false → ∃ t more, us = t :: more ∧ startsCastOperand t = true) :
    castAhead (type.tokens ++ .symbol .rightParen :: us) = true := by
  unfold castAhead
  rw [typeAt?_tokens type ⟨by simp, by simp⟩]
  simp only [TypeName.bare]
  cases primitive : type.isPrimitive with
  | false =>
    obtain ⟨t, more, rfl, starts⟩ := operand primitive
    simp [starts]
  | true =>
    rw [TypeName.isPrimitive, Bool.and_eq_true, Option.isSome_iff_exists] at primitive
    obtain ⟨⟨kind, found⟩, flat⟩ := primitive
    have whole : type.tokens = [.primitive kind] := by
      unfold TypeName.tokens
      rw [found, beq_iff_eq.1 flat]
      rfl
    rw [whole, flat]
    rfl

/-! ### Expressions -/

/-- Behind the operand of a minus sign stands no number alone. -/
theorem noInt_append {ts : List Token} (h : LeftEdge 8 ts) (lone : ∀ n, ts ≠ [.int n]) {n : Nat}
    {us : List Token} (same : ts ++ rest = .int n :: us) : us.head? = some (.symbol .dot) := by
  obtain ⟨t, more, rfl, _⟩ := h.head
  obtain ⟨rfl, rfl⟩ := List.cons.inj same
  rcases h.behindInt (Nat.le_refl 8) with rfl | dot
  · exact absurd rfl (lone n)
  · exact List.head?_append.trans (by rw [dot]; rfl)

/-- What an expression that starts with no sign starts with may stand behind a cast. -/
theorem startsOperand_append {p : Nat} {ts : List Token} (h : LeftEdge p ts)
    (unsigned : startsSigned ts = false) :
    ∃ t more, ts ++ rest = t :: more ∧ startsCastOperand t = true := by
  obtain ⟨t, more, rfl, starts | rfl | rfl⟩ := h.head
  · exact ⟨t, _, rfl, starts⟩
  · cases unsigned
  · cases unsigned

/-- No argument starts with the closing parenthesis. -/
theorem noClose_allRendered {args : List Expr} {us : List Token} (h : Expr.AllRendered args us)
    (some_ : args ≠ []) : (us ++ rest).head? ≠ some (.symbol .rightParen) := by
  have first : ∃ e ts more, Expr.Rendered 0 e ts ∧ us = ts ++ more := by
    cases h with
    | nil => exact absurd rfl some_
    | one first => exact ⟨_, us, [], first, (List.append_nil us).symm⟩
    | more first _ => exact ⟨_, _, _, first, rfl⟩
  obtain ⟨e, ts, more, rendered, rfl⟩ := first
  obtain ⟨t, ts, rfl, starts⟩ := rendered.leftEdge.head
  intro close
  cases close
  revert starts
  decide

/-- Reads arguments behind their parenthesis. -/
theorem arguments_behind {args : List Expr} {us : List Token} {c : Cursor}
    (tokens : c.tokens = .symbol .leftParen :: (us ++ .symbol .rightParen :: rest))
    (none_ : args = [] → us = [])
    (read : ∀ d : Cursor, args ≠ [] → d.tokens = us ++ .symbol .rightParen :: rest →
      d.tokens.head? ≠ some (.symbol .rightParen) ∧
        (argumentTail d).Reads Expr.bareAll (Expr.bareAll args) rest) :
    (arguments c).Reads Expr.bareAll (Expr.bareAll args) rest := by
  rw [arguments]
  refine (reads_expectSymbol tokens).andThen fun _ d _ _ left => ?_
  by_cases empty : args = []
  · subst empty
    rw [none_ rfl] at left
    obtain ⟨s, ls, f, p, rfl, behind⟩ := past_of_tokens_cons left
    simp only [if_true]
    exact ⟨_, _, gives_ok.2 ⟨rfl, rfl⟩, rfl, behind⟩
  · obtain ⟨open_, tail⟩ := read d empty left
    obtain ⟨ls, f, p⟩ := d
    cases ls with
    | nil => exact tail
    | cons sign ls =>
      have other : sign.token ≠ .symbol .rightParen := fun same => open_ (congrArg some same)
      simp only
      rw [if_neg other]
      exact tail

mutual

theorem expression_rendered {e : Expr} {ts rest : List Token} {c : Cursor} (h : e.Rendered 0 ts)
    (tokens : c.tokens = ts ++ rest) (ends : Ends 0 rest) :
    (expression c).Reads Expr.bare e.bare rest := by
  rw [expression]
  cases h with
  | tighter _ h =>
    refine (conditional_rendered h tokens (ends.mono (by decide))).andMaybe
      fun e' d _ shape left => ?_
    obtain ⟨ls, f, p⟩ := d
    cases ls with
    | nil => exact reads_stay_of shape left
    | cons sign ls =>
      have noAssign : assignOp? sign.token = none := by
        rw [← left] at ends
        exact ends.noAssign
      simp only [noAssign]
      exact reads_stay_of shape left
  | @assign op sign target value s ts us signed assignable target' value' =>
    rw [List.append_assoc, List.cons_append] at tokens
    have stop : Ends 1 (.symbol sign :: (us ++ rest)) := ends_cons.2 (reach_assign signed).le
    refine (conditional_rendered target' tokens stop).andMaybe fun t d _ shape left => ?_
    obtain ⟨s', ls, f, p, rfl, behind⟩ := past_of_tokens_cons left
    have assignable' : t.isAssignable = true := by
      rw [← Expr.isAssignable_bare, shape, Expr.isAssignable_bare]
      exact assignable
    simp only [assignOp?_of_sign signed]
    rw [if_pos assignable', reads_loosen, reads_behind]
    refine (expression_rendered value' behind ends).map fun v same => ?_
    rw [Expr.bare, Expr.bare, shape, same]
  | join level =>
    omega
termination_by 32 * ts.length + 20
decreasing_by
  all_goals subst_vars
  all_goals simp_wf
  all_goals omega

theorem conditional_rendered {e : Expr} {ts rest : List Token} {c : Cursor} (h : e.Rendered 1 ts)
    (tokens : c.tokens = ts ++ rest) (ends : Ends 1 rest) :
    (conditional c).Reads Expr.bare e.bare rest := by
  rw [conditional]
  cases h with
  | tighter _ h =>
    have left : c.ReadsLeft 1 e rest :=
      infixes_rendered h (by decide) (by decide) (by decide) tokens (ends.mono (by decide))
    refine (left.infixes (ends.mono (by decide))).andMaybe fun e' d _ shape left => ?_
    obtain ⟨ls, f, p⟩ := d
    cases ls with
    | nil => exact reads_stay_of shape left
    | cons sign ls =>
      have other : sign.token ≠ .symbol .question := by
        rw [← left] at ends
        exact ends.noQuestion
      simp only
      rw [if_neg other]
      exact reads_stay_of shape left
  | @conditional x t e s cs ts us x' t' e' =>
    simp only [List.append_assoc, List.cons_append] at tokens
    have stop : Ends 2 (.symbol .question :: (ts ++ .symbol .colon :: (us ++ rest))) :=
      ends_cons.2 (by decide)
    have left : c.ReadsLeft 1 x (.symbol .question :: (ts ++ .symbol .colon :: (us ++ rest))) :=
      infixes_rendered x' (by decide) (by decide) (by decide) tokens (stop.mono (by decide))
    refine (left.infixes stop).andMaybe fun test d _ shape left => ?_
    obtain ⟨s', ls, f, p, rfl, behind⟩ := past_of_tokens_cons left
    simp only [if_true]
    rw [reads_loosen, reads_behind]
    have colon : Ends 0 (.symbol .colon :: (us ++ rest)) := ends_cons.2 (by decide)
    refine (expression_rendered t' behind colon).andThen fun thenExpr d₁ _ same₁ left₁ => ?_
    refine (reads_expectSymbol left₁).andThen fun _ d₂ _ _ left₂ => ?_
    refine (conditional_rendered e' left₂ ends).map fun elseExpr same₂ => ?_
    rw [Expr.bare, Expr.bare, shape, same₁, same₂]
  | @join o _ _ _ _ _ _ level =>
    have bound := o.level_le
    omega
termination_by 32 * ts.length + 18
decreasing_by
  all_goals subst_vars
  all_goals simp_wf
  all_goals omega

/-- Operators of a level and above are read as a left operand. -/
theorem infixes_rendered {e : Expr} {p level : Nat} {ts rest : List Token} {c : Cursor}
    (h : e.Rendered p ts) (low : 2 ≤ p) (high : p ≤ 8) (below : level + 1 ≤ p)
    (tokens : c.tokens = ts ++ rest) (ends : Ends (p + 1) rest) : c.ReadsLeft level e rest := by
  by_cases top : p = 8
  · subst top
    exact .of_unary (unary_rendered h tokens ends) level
  · cases h with
    | tighter _ h =>
      exact infixes_rendered h (by omega) (by omega) (by omega) tokens (ends.mono (by omega))
    | @join o p l r s ts us exactly l' r' =>
      rw [List.append_assoc, List.cons_append] at tokens
      have stop : Ends (p + 1) (.symbol o.sign :: (us ++ rest)) := by
        rw [ends_cons, reach_sign]
        omega
      refine (infixes_rendered l' low high below tokens stop).join (by omega) fun d left => ?_
      have right : d.ReadsLeft (o.level + 1) r rest :=
        infixes_rendered r' (by omega) (by omega) (by omega) left (ends.mono (by omega))
      exact right.infixes (ends.mono (by omega))
    | _ => omega
termination_by 32 * ts.length + 17 - p
decreasing_by
  all_goals subst_vars
  all_goals simp_wf
  all_goals omega

theorem unary_rendered {e : Expr} {ts rest : List Token} {c : Cursor} (h : e.Rendered 8 ts)
    (tokens : c.tokens = ts ++ rest) (ends : Ends 9 rest) :
    (unary c).Reads Expr.bare e.bare rest := by
  cases h with
  | tighter _ h => exact (operand_rendered h tokens (ends.mono (by decide))).unary ends
  | @sign op e s ts h lone =>
    refine unary_sign tokens (fun negate n us same => ?_) fun d left =>
      unary_rendered h left ends
    exact noInt_append h.leftEdge (lone negate) same
  | @cast type e s ts h unsigned =>
    simp only [List.cons_append, List.append_assoc] at tokens
    have starts : type.isPrimitive = false → ∃ t more, ts ++ rest = t :: more ∧
        startsCastOperand t = true :=
      fun reference => startsOperand_append h.leftEdge (unsigned reference)
    exact unary_cast tokens (castAhead_tokens type starts)
      (typeAt?_tokens type ⟨by simp, by simp⟩) fun d left => unary_rendered h left ends
  | negative sign => exact unary_negative sign tokens ends.noDot
  | @join o _ _ _ _ _ _ level =>
    have bound := o.level_le
    omega
termination_by 32 * ts.length + 8
decreasing_by
  all_goals subst_vars
  all_goals simp_wf
  all_goals omega

theorem operand_rendered {e : Expr} {ts rest : List Token} {c : Cursor} (h : e.Rendered 9 ts)
    (tokens : c.tokens = ts ++ rest) (ends : Ends 10 rest) : c.ReadsOperand e rest := by
  cases h with
  | tighter below => omega
  | access target =>
    rw [List.append_assoc] at tokens
    exact (operand_rendered target tokens (ends_cons.2 (by decide))).access ends.noParen
  | call target args =>
    simp only [List.append_assoc, List.cons_append, List.nil_append] at tokens
    exact (operand_rendered target tokens (ends_cons.2 (by decide))).call fun d left =>
      arguments_rendered args left
  | @parens _ ts h =>
    simp only [List.append_assoc, List.cons_append, List.nil_append] at tokens
    refine readsOperand_parens tokens (h.leftEdge.castAhead ends.noOperand) fun d left => ?_
    exact expression_rendered h left (ends_cons.2 (by decide))
  | literal plain => exact readsOperand_literal plain tokens
  | name => exact readsOperand_name tokens ends.noParen
  | this => exact readsOperand_this tokens
  | ownCall args =>
    simp only [List.append_assoc, List.cons_append, List.nil_append] at tokens
    exact readsOperand_ownCall tokens fun d left => arguments_rendered args left
  | superCall args =>
    simp only [List.append_assoc, List.cons_append, List.nil_append] at tokens
    exact readsOperand_superCall tokens fun d left => arguments_rendered args left
  | @join o _ _ _ _ _ _ level =>
    have bound := o.level_le
    omega
termination_by 32 * ts.length + 6
decreasing_by
  all_goals subst_vars
  all_goals simp_wf
  all_goals omega

theorem arguments_rendered {args : List Expr} {us rest : List Token} {c : Cursor}
    (h : Expr.AllRendered args us)
    (tokens : c.tokens = .symbol .leftParen :: (us ++ .symbol .rightParen :: rest)) :
    (arguments c).Reads Expr.bareAll (Expr.bareAll args) rest := by
  refine arguments_behind tokens ?_ fun d some_ left => ⟨?_, argumentTail_rendered h some_ left⟩
  · rintro rfl
    cases h
    rfl
  · rw [left]
    exact noClose_allRendered h some_
termination_by 32 * us.length + 22
decreasing_by all_goals simp_wf

/-- Arguments are read through the parenthesis that closes them. -/
theorem argumentTail_rendered {args : List Expr} {us rest : List Token} {c : Cursor}
    (h : Expr.AllRendered args us) (some_ : args ≠ [])
    (tokens : c.tokens = us ++ .symbol .rightParen :: rest) :
    (argumentTail c).Reads Expr.bareAll (Expr.bareAll args) rest := by
  rw [argumentTail]
  cases h with
  | nil => exact absurd rfl some_
  | one first =>
    have stop : Ends 0 (.symbol .rightParen :: rest) := ends_cons.2 (by decide)
    refine (expression_rendered first tokens stop).andThen fun arg d _ shape left => ?_
    obtain ⟨s', ls, f, p, rfl, behind⟩ := past_of_tokens_cons left
    simp only
    rw [if_neg (by decide)]
    refine (reads_expectSymbol left).map fun _ _ => ?_
    rw [Expr.bareAll, Expr.bareAll, Expr.bareAll, Expr.bareAll, shape]
  | @more e e' es ts us first others =>
    rw [List.append_assoc, List.cons_append] at tokens
    have stop : Ends 0 (.symbol .comma :: (us ++ .symbol .rightParen :: rest)) :=
      ends_cons.2 (by decide)
    refine (expression_rendered first tokens stop).andThen fun arg d _ shape left => ?_
    obtain ⟨s', ls, f, p, rfl, behind⟩ := past_of_tokens_cons left
    simp only [if_true]
    rw [reads_behind]
    refine (argumentTail_rendered others (by simp) behind).map fun args same => ?_
    rw [Expr.bareAll, Expr.bareAll, shape, same]
termination_by 32 * us.length + 21
decreasing_by
  all_goals subst_vars
  all_goals simp_wf
  all_goals omega

end

end Cursor

end Classwright.Source
