import Classwright.Source.Cursor
import Classwright.Source.Tree

/-!
# Reading types and expressions

Binary operators climb six levels of precedence and group to the left; assignment and the
conditional stand above them and group to the right. A parenthesis opens a cast when a type fills
it and what follows could not go on after a parenthesized operand.
-/

namespace Classwright.Source

/-- The dots and names that continue a dotted name, as text, with the stretch of the last one. -/
def dottedTail (last : Span) : List Lexeme → List Char × Span × List Lexeme
  | ⟨.symbol .dot, _⟩ :: ⟨.identifier name, span⟩ :: ts =>
    let (text, final, rest) := dottedTail span ts
    ('.' :: name.toList ++ text, final, rest)
  | ts => ([], last, ts)

/-- Pairs of brackets: their number, the stretch of the last bracket and what follows. -/
def bracketPairs (last : Span) : List Lexeme → Nat × Span × List Lexeme
  | ⟨.symbol .leftBracket, _⟩ :: ⟨.symbol .rightBracket, span⟩ :: ts =>
    let (dims, final, rest) := bracketPairs span ts
    (dims + 1, final, rest)
  | ts => (0, last, ts)

theorem dottedTail_length (last : Span) (ts : List Lexeme) :
    (dottedTail last ts).2.2.length ≤ ts.length := by
  fun_induction dottedTail last ts with
  | case1 => simp_all; omega
  | case2 => exact Nat.le_refl _

theorem bracketPairs_length (last : Span) (ts : List Lexeme) :
    (bracketPairs last ts).2.2.length ≤ ts.length := by
  fun_induction bracketPairs last ts with
  | case1 => simp_all; omega
  | case2 => exact Nat.le_refl _

namespace Cursor

/-- Reads a dotted name, with its stretch. -/
def qualifiedName (c : Cursor) : Step (String × Span) c.remaining :=
  c.expectIdentifier.andMaybe fun (name, start) d _ =>
    let tail := dottedTail start d.rest
    .ok (String.ofList (name.toList ++ tail.1), start.through tail.2.1)
      ⟨tail.2.2, d.finish, tail.2.1⟩ (Nat.lt_succ_of_le (dottedTail_length start d.rest))

/-- The name of a type, before its brackets. -/
def typeBase (c : Cursor) : Step String c.remaining :=
  match h : c.rest with
  | ⟨.primitive kind, span⟩ :: rest =>
    .ok kind.keyword (c.past ⟨.primitive kind, span⟩ rest) (past_lt h)
  | ⟨.identifier _, _⟩ :: _ => c.qualifiedName.map Prod.fst
  | _ => .error { c.unexpected [.identifier ""] with suggestion := some .typeName } c

/-- Reads a type. -/
def typeName (c : Cursor) : Step TypeName c.remaining :=
  c.typeBase.andMaybe fun name d _ =>
    let tail := bracketPairs d.previous d.rest
    .ok ⟨name, tail.1, c.span.through tail.2.1⟩ ⟨tail.2.2, d.finish, tail.2.1⟩
      (Nat.lt_succ_of_le (bracketPairs_length d.previous d.rest))

/-- Whether a cast to a reference type may be followed by this token. -/
def startsCastOperand (t : Token) : Bool :=
  t.isLiteral || t.isIdentifier || t == .symbol .leftParen || t == .symbol .bang
    || t == .keyword .this || t == .keyword .super

/-- The tokens behind a type at the start of `ts`, and whether that type is a bare primitive. -/
def skipType? : List Lexeme → Option (Bool × List Lexeme)
  | ⟨.primitive _, s⟩ :: ts =>
    let (dims, _, rest) := bracketPairs s ts
    some (dims == 0, rest)
  | ⟨.identifier _, s⟩ :: ts =>
    some (false, (bracketPairs s (dottedTail s ts).2.2).2.2)
  | _ => none

/-- Whether the parenthesis before `ts` opens a cast. -/
def opensCast (ts : List Lexeme) : Bool :=
  match skipType? ts with
  | some (primitive, ⟨.symbol .rightParen, _⟩ :: rest) =>
    primitive || (rest.head?.map fun l => startsCastOperand l.token).getD false
  | _ => false

/-- Whether a declaration of a variable comes next: a type and a name. -/
def opensDeclaration (c : Cursor) : Bool :=
  match skipType? c.rest with
  | some (_, rest) => (rest.head?.map (·.token.isIdentifier)).getD false
  | none => false

end Cursor

/-- An operator between two operands. -/
inductive InfixOp
  | binary (op : BinaryOp)
  | logical (op : LogicalOp)
deriving DecidableEq

namespace InfixOp

def ofToken? : Token → Option InfixOp
  | .symbol .pipePipe => some (logical .or)
  | .symbol .ampAmp => some (logical .and)
  | .symbol .equalEqual => some (binary .eq)
  | .symbol .bangEqual => some (binary .ne)
  | .symbol .less => some (binary .lt)
  | .symbol .lessEqual => some (binary .le)
  | .symbol .greater => some (binary .gt)
  | .symbol .greaterEqual => some (binary .ge)
  | .symbol .plus => some (binary .add)
  | .symbol .minus => some (binary .sub)
  | .symbol .star => some (binary .mul)
  | .symbol .slash => some (binary .div)
  | .symbol .percent => some (binary .rem)
  | _ => none

/-- Level of precedence; the higher binds tighter. -/
def level : InfixOp → Nat
  | logical .or => 1
  | logical .and => 2
  | binary .eq | binary .ne => 3
  | binary .lt | binary .le | binary .gt | binary .ge => 4
  | binary .add | binary .sub => 5
  | binary .mul | binary .div | binary .rem => 6

def apply (o : InfixOp) (l r : Expr) : Expr :=
  match o with
  | binary op => .binary op l r (l.span.through r.span)
  | logical op => .logical op l r (l.span.through r.span)

end InfixOp

/-- The operator of an assignment sign; plain assignment has none. -/
def assignOp? : Token → Option (Option BinaryOp)
  | .symbol .equal => some none
  | .symbol .plusEqual => some (some .add)
  | .symbol .minusEqual => some (some .sub)
  | .symbol .starEqual => some (some .mul)
  | .symbol .slashEqual => some (some .div)
  | .symbol .percentEqual => some (some .rem)
  | _ => none

def signOp? : Token → Option SignOp
  | .symbol .bang => some .not
  | .symbol .minus => some .negate
  | .symbol .plus => some .plus
  | _ => none

/-- The literal that a token is, unless it is an `int` out of range. -/
def literal? : Token → Option Literal
  | .int n => if n < Nat.pow 2 31 then some (.int (Int32.ofNat n)) else none
  | .long v => some (.long v)
  | .float v => some (.float v)
  | .double v => some (.double v)
  | .char v => some (.char v)
  | .string v => some (.string v)
  | .keyword .true_ => some (.bool true)
  | .keyword .false_ => some (.bool false)
  | .keyword .null => some .null
  | _ => none

namespace Cursor

/-- A minus sign's operand that is an `int` literal and no receiver of a call, with its stretch and
the cursor behind it. -/
def negatedInt? (c : Cursor) : Option (Nat × Span × { d : Cursor // d.remaining < c.remaining }) :=
  match h : c.rest with
  | ⟨.int n, span⟩ :: rest =>
    if (rest.head?.map (·.token)) = some (.symbol .dot) then none
    else some (n, span, ⟨c.past ⟨.int n, span⟩ rest, past_lt h⟩)
  | _ => none

mutual

/-- Reads an expression. -/
def expression (c : Cursor) : Step Expr c.remaining :=
  (conditional c).andMaybe fun target d _ =>
    match h : d.rest with
    | [] => .stay target d
    | sign :: rest =>
      match assignOp? sign.token with
      | none => .stay target d
      | some op =>
        if target.isAssignable then
          have := rest_lt h
          let value := (expression (d.past sign rest)).map fun value =>
            Expr.assign op target value (target.span.through value.span)
          (value.behind h).loosen
        else .error ⟨.badTarget, target.span, none⟩ d
termination_by 8 * c.remaining + 5
decreasing_by
  · omega
  · simp only [remaining, past] at *; omega

def conditional (c : Cursor) : Step Expr c.remaining :=
  (infixes 1 c).andMaybe fun condition d _ =>
    match h : d.rest with
    | [] => .stay condition d
    | sign :: rest =>
      if sign.token = .symbol .question then
        have := rest_lt h
        let branches := (expression (d.past sign rest)).andThen fun thenExpr e _ =>
          (e.expectSymbol .colon).andThen fun _ f _ =>
            (conditional f).map fun elseExpr =>
              Expr.conditional condition thenExpr elseExpr (condition.span.through elseExpr.span)
        (branches.behind h).loosen
      else .stay condition d
termination_by 8 * c.remaining + 4
decreasing_by
  · omega
  · simp only [remaining, past] at *; omega
  · simp only [remaining, past] at *; omega

/-- Reads operands joined by operators of at least the given level. -/
def infixes (level : Nat) (c : Cursor) : Step Expr c.remaining :=
  (unary c).andMaybe fun left d _ => infixTail level left d
termination_by 8 * c.remaining + 3
decreasing_by
  · omega
  · omega

/-- Goes on behind the operand `left`. What is right of an operator binds one level tighter. -/
def infixTail (level : Nat) (left : Expr) (c : Cursor) : Step Expr (c.remaining + 1) :=
  match h : c.rest with
  | [] => .stay left c
  | sign :: rest =>
    match InfixOp.ofToken? sign.token with
    | none => .stay left c
    | some op =>
      if level ≤ op.level then
        have := rest_lt h
        let joined := (infixes (op.level + 1) (c.past sign rest)).andMaybe fun right d _ =>
          infixTail level (op.apply left right) d
        (joined.behind h).loosen
      else .stay left c
termination_by 8 * c.remaining + 7
decreasing_by
  · simp only [remaining, past] at *; omega
  · simp only [remaining, past] at *; omega

/-- Reads signs and casts and the operand behind them. A minus sign and an `int` literal are one
literal, so that the least `int` can be written. -/
def unary (c : Cursor) : Step Expr c.remaining :=
  match h : c.rest with
  | [] => postfixes c
  | first :: rest =>
    have := rest_lt h
    match signOp? first.token with
    | some op =>
      match op, negatedInt? (c.past first rest) with
      | .negate, some (n, span, ⟨d, hd⟩) =>
        (Step.ok (.literal (.int (Int32.ofInt (-n))) (first.span.through span)) d hd).behind h
      | op, _ =>
        ((unary (c.past first rest)).map fun operand =>
          Expr.unary op operand (first.span.through operand.span)).behind h
    | none =>
      if first.token = .symbol .leftParen ∧ opensCast rest then
        ((c.past first rest).typeName.andThen fun type d _ =>
          (d.expectSymbol .rightParen).andThen fun _ e _ =>
            (unary e).map fun operand =>
              Expr.cast type operand (first.span.through operand.span)).behind h
      else postfixes c
termination_by 8 * c.remaining + 2
decreasing_by
  · omega
  · simp only [remaining, past] at *; omega
  · simp only [remaining, past] at *; omega
  · omega

/-- Reads an operand and the calls and field accesses behind it. -/
def postfixes (c : Cursor) : Step Expr c.remaining :=
  (primary c).andMaybe fun target d _ => postfixTail target d
termination_by 8 * c.remaining + 1
decreasing_by
  · omega
  · omega

def postfixTail (target : Expr) (c : Cursor) : Step Expr (c.remaining + 1) :=
  match h : c.rest with
  | [] => .stay target c
  | sign :: rest =>
    if sign.token = .symbol .dot then
      have := rest_lt h
      let longer := (c.past sign rest).expectIdentifier.andMaybe fun (name, nameSpan) d _ =>
        if d.atSymbol .leftParen then
          ((arguments d).andMaybe fun args e _ =>
            postfixTail (.call target name args (target.span.through e.previous)) e).loosen
        else postfixTail (.access target name (target.span.through nameSpan)) d
      (longer.behind h).loosen
    else .stay target c
termination_by 8 * c.remaining + 7
decreasing_by
  · simp only [remaining, past] at *; omega
  · simp only [remaining, past] at *; omega
  · simp only [remaining, past] at *; omega

/-- Reads a literal, a name, a call on `this` or `super`, or a parenthesized expression, which
then covers the parentheses too. -/
def primary (c : Cursor) : Step Expr c.remaining :=
  match h : c.rest with
  | [] => .error { c.unexpected [] with suggestion := some .expression } c
  | first :: rest =>
    have hrest := rest_lt h
    match literal? first.token with
    | some value => .ok (.literal value first.span) (c.past first rest) hrest
    | none =>
      match first.token with
      | .int n => .error ⟨.numberTooLarge (toString n), first.span, none⟩ c
      | .keyword .this => .ok (.this first.span) (c.past first rest) hrest
      | .keyword .super =>
        (((c.past first rest).expectSymbol .dot).andThen fun _ d _ =>
          d.expectIdentifier.andThen fun (name, _) e _ =>
            if e.atSymbol .leftParen then
              (arguments e).mapAt fun args f =>
                Expr.superCall name args (first.span.through f.previous)
            else .error ⟨.bareSuper, first.span, none⟩ e).behind h
      | .identifier name =>
        if (c.past first rest).atSymbol .leftParen then
          ((arguments (c.past first rest)).mapAt fun args d =>
            Expr.ownCall name args (first.span.through d.previous)).behind h
        else .ok (.name name first.span) (c.past first rest) hrest
      | .symbol .leftParen =>
        ((expression (c.past first rest)).andThen fun inner d _ =>
          (d.expectSymbol .rightParen).mapAt fun _ e =>
            inner.withSpan (first.span.through e.previous)).behind h
      | _ => .error { c.unexpected [] with suggestion := some .expression } c
termination_by 8 * c.remaining
decreasing_by
  · simp only [remaining, past] at *; omega
  · simp only [remaining, past] at *; omega
  · simp only [remaining, past] at *; omega

/-- Reads arguments in parentheses. -/
def arguments (c : Cursor) : Step (List Expr) c.remaining :=
  (c.expectSymbol .leftParen).andThen fun _ d _ =>
    match h : d.rest with
    | [] => argumentTail d
    | sign :: rest =>
      if sign.token = .symbol .rightParen then .ok [] (d.past sign rest) (past_lt h)
      else argumentTail d
termination_by 8 * c.remaining
decreasing_by
  · omega
  · omega

/-- Reads an argument, those after it and the closing parenthesis. -/
def argumentTail (c : Cursor) : Step (List Expr) c.remaining :=
  (expression c).andThen fun arg d _ =>
    match h : d.rest with
    | [] => .error (d.unexpected [.symbol .rightParen]) d
    | sign :: rest =>
      if sign.token = .symbol .comma then
        have := rest_lt h
        ((argumentTail (d.past sign rest)).map fun args => arg :: args).behind h
      else (d.expectSymbol .rightParen).map fun _ => [arg]
termination_by 8 * c.remaining + 6
decreasing_by
  · omega
  · simp only [remaining, past] at *; omega

end

end Cursor

end Classwright.Source
