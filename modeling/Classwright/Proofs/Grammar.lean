import Classwright.Proofs.Places
import Classwright.Proofs.Synthesized

/-!
# The grammar

`Rendered` says which tokens a tree may be written as. Expressions come in levels, from assignments
at 0 over the conditional at 1 and the six levels of operators at 2 to 7 to signs and casts at 8 and
operands at 9; what stands at a level may stand at every lower one, and what stands in parentheses
stands at the highest. Parentheses may be put around any expression, modifiers may come in any order
and a variable may be declared `final`, so that most trees have many written forms. Every tree that
is as the grammar wants it has one.
-/

namespace Classwright

open Source Synthesis

/-! ### Signs -/

def SignOp.sign : SignOp → Symbol
  | negate => .minus
  | plus => .plus
  | not => .bang

namespace Source

namespace InfixOp

def sign : InfixOp → Symbol
  | logical .or => .pipePipe
  | logical .and => .ampAmp
  | binary .eq => .equalEqual
  | binary .ne => .bangEqual
  | binary .lt => .less
  | binary .le => .lessEqual
  | binary .gt => .greater
  | binary .ge => .greaterEqual
  | binary .add => .plus
  | binary .sub => .minus
  | binary .mul => .star
  | binary .div => .slash
  | binary .rem => .percent

/-- The operator on two operands. -/
def join (o : InfixOp) (l r : Expr) (s : Span) : Expr :=
  match o with
  | binary op => .binary op l r s
  | logical op => .logical op l r s

theorem ofToken?_sign (o : InfixOp) : ofToken? (.symbol o.sign) = some o := by
  cases o with
  | binary op => cases op <;> rfl
  | logical op => cases op <;> rfl

theorem level_le (o : InfixOp) : 1 ≤ o.level ∧ o.level ≤ 6 := by
  cases o with
  | binary op => cases op <;> decide
  | logical op => cases op <;> decide

theorem bare_join (o : InfixOp) (l r : Expr) (s : Span) :
    (o.join l r s).bare = o.join l.bare r.bare .blank := by
  cases o <;> rw [join, Expr.bare, join]

theorem bare_apply (o : InfixOp) (l r : Expr) :
    (o.apply l r).bare = o.join l.bare r.bare .blank := by
  cases o <;> rw [apply, Expr.bare, join]

end InfixOp

/-- The sign of an assignment; only arithmetic can be joined to it. -/
def assignSign? : Option BinaryOp → Option Symbol
  | none => some .equal
  | some .add => some .plusEqual
  | some .sub => some .minusEqual
  | some .mul => some .starEqual
  | some .div => some .slashEqual
  | some .rem => some .percentEqual
  | some _ => none

theorem assignOp?_of_sign {op : Option BinaryOp} {sign : Symbol} (h : assignSign? op = some sign) :
    assignOp? (.symbol sign) = some op := by
  cases op with
  | none =>
    cases h
    rfl
  | some op =>
    cases op <;> cases h <;> rfl

/-! ### Literals and types -/

/-- The token of a literal, without a minus sign. -/
def Literal.token : Literal → Token
  | .int v => .int v.toInt.natAbs
  | .long v => .long v
  | .float v => .float v
  | .double v => .double v
  | .char v => .char v
  | .string v => .string v
  | .bool true => .keyword .true_
  | .bool false => .keyword .false_
  | .null => .keyword .null

/-- Only `int` literals have a minus sign of their own. -/
def Literal.isNegative : Literal → Bool
  | .int v => decide (v.toInt < 0)
  | _ => false

def bracketTokens : Nat → List Token
  | 0 => []
  | dims + 1 => .symbol .leftBracket :: .symbol .rightBracket :: bracketTokens dims

/-- A primitive type or a dotted name, with brackets. -/
def TypeName.tokens (t : TypeName) : List Token :=
  (match Primitive.ofKeyword? t.name with
    | some kind => [.primitive kind]
    | none => nameTokens t.name) ++ bracketTokens t.dims

/-- A primitive type that is no array. -/
def TypeName.isPrimitive (t : TypeName) : Bool :=
  (Primitive.ofKeyword? t.name).isSome && t.dims == 0

/-! ### Expressions -/

/-- Whether the tokens start with a sign that could also stand between operands. -/
def startsSigned (ts : List Token) : Bool :=
  ts.head? == some (.symbol .plus) || ts.head? == some (.symbol .minus)

mutual

/-- The tokens are the expression at a level at least this high. -/
inductive Expr.Rendered : Nat → Expr → List Token → Prop
  | tighter {p : Nat} {e : Expr} {ts : List Token} : p < 9 → Expr.Rendered (p + 1) e ts →
      Expr.Rendered p e ts
  | assign {op : Option BinaryOp} {sign : Symbol} {target value : Expr} {s : Span}
      {ts us : List Token} : assignSign? op = some sign → target.isAssignable = true →
      Expr.Rendered 1 target ts → Expr.Rendered 0 value us →
      Expr.Rendered 0 (.assign op target value s) (ts ++ .symbol sign :: us)
  | conditional {c t e : Expr} {s : Span} {cs ts us : List Token} :
      Expr.Rendered 2 c cs → Expr.Rendered 0 t ts → Expr.Rendered 1 e us →
      Expr.Rendered 1 (.conditional c t e s)
        (cs ++ .symbol .question :: (ts ++ .symbol .colon :: us))
  | join {o : InfixOp} {p : Nat} {l r : Expr} {s : Span} {ts us : List Token} :
      o.level + 1 = p → Expr.Rendered p l ts → Expr.Rendered (p + 1) r us →
      Expr.Rendered p (o.join l r s) (ts ++ .symbol o.sign :: us)
  | sign {op : SignOp} {e : Expr} {s : Span} {ts : List Token} :
      Expr.Rendered 8 e ts → (op = .negate → ∀ n, ts ≠ [.int n]) →
      Expr.Rendered 8 (.unary op e s) (.symbol op.sign :: ts)
  | cast {type : TypeName} {e : Expr} {s : Span} {ts : List Token} :
      Expr.Rendered 8 e ts → (type.isPrimitive = false → startsSigned ts = false) →
      Expr.Rendered 8 (.cast type e s)
        (.symbol .leftParen :: (type.tokens ++ .symbol .rightParen :: ts))
  | negative {v : Literal} {s : Span} : v.isNegative = true →
      Expr.Rendered 8 (.literal v s) [.symbol .minus, v.token]
  | access {target : Expr} {name : String} {s : Span} {ts : List Token} :
      Expr.Rendered 9 target ts →
      Expr.Rendered 9 (.access target name s) (ts ++ [.symbol .dot, .identifier name])
  | call {target : Expr} {name : String} {args : List Expr} {s : Span} {ts us : List Token} :
      Expr.Rendered 9 target ts → Expr.AllRendered args us →
      Expr.Rendered 9 (.call target name args s)
        (ts ++ .symbol .dot :: .identifier name :: .symbol .leftParen
          :: (us ++ [.symbol .rightParen]))
  | parens {e : Expr} {ts : List Token} : Expr.Rendered 0 e ts →
      Expr.Rendered 9 e (.symbol .leftParen :: (ts ++ [.symbol .rightParen]))
  | literal {v : Literal} {s : Span} : v.isNegative = false →
      Expr.Rendered 9 (.literal v s) [v.token]
  | name {name : String} {s : Span} : Expr.Rendered 9 (.name name s) [.identifier name]
  | this {s : Span} : Expr.Rendered 9 (.this s) [.keyword .this]
  | ownCall {name : String} {args : List Expr} {s : Span} {us : List Token} :
      Expr.AllRendered args us →
      Expr.Rendered 9 (.ownCall name args s)
        (.identifier name :: .symbol .leftParen :: (us ++ [.symbol .rightParen]))
  | superCall {name : String} {args : List Expr} {s : Span} {us : List Token} :
      Expr.AllRendered args us →
      Expr.Rendered 9 (.superCall name args s)
        (.keyword .super :: .symbol .dot :: .identifier name :: .symbol .leftParen
          :: (us ++ [.symbol .rightParen]))

/-- The tokens are the expressions with commas between them. -/
inductive Expr.AllRendered : List Expr → List Token → Prop
  | nil : Expr.AllRendered [] []
  | one {e : Expr} {ts : List Token} : Expr.Rendered 0 e ts → Expr.AllRendered [e] ts
  | more {e e' : Expr} {es : List Expr} {ts us : List Token} : Expr.Rendered 0 e ts →
      Expr.AllRendered (e' :: es) us →
      Expr.AllRendered (e :: e' :: es) (ts ++ .symbol .comma :: us)

end

/-- An initial value behind an equals sign, if there is one. -/
inductive InitRendered : Option Expr → List Token → Prop
  | none : InitRendered none []
  | some {e : Expr} {ts : List Token} : e.Rendered 0 ts →
      InitRendered (some e) (.symbol .equal :: ts)

/-! ### Statements -/

/-- Whether an `else` behind the statement would belong to an `if` at its end. -/
def Stmt.endsOpen : Stmt → Bool
  | .ifThen _ _ _ => true
  | .ifElse _ _ e _ => e.endsOpen
  | .loop _ b _ => b.endsOpen
  | _ => false

mutual

/-- The tokens are the statement. -/
inductive Stmt.Rendered : Stmt → List Token → Prop
  | block {body : List Stmt} {s : Span} {ts : List Token} : Stmt.AllRendered body ts →
      Stmt.Rendered (.block body s) (.symbol .leftBrace :: (ts ++ [.symbol .rightBrace]))
  | declare {type : TypeName} {name : String} {init : Option Expr} {s : Span} {ts : List Token}
      (final : Bool) : InitRendered init ts →
      Stmt.Rendered (.declare type name init s)
        ((if final then [.keyword .final] else []) ++ (type.tokens
          ++ .identifier name :: (ts ++ [.symbol .semicolon])))
  | ret {s : Span} : Stmt.Rendered (.ret none s) [.keyword .return_, .symbol .semicolon]
  | retValue {e : Expr} {s : Span} {ts : List Token} : e.Rendered 0 ts →
      Stmt.Rendered (.ret (some e) s) (.keyword .return_ :: (ts ++ [.symbol .semicolon]))
  | ifThen {c : Expr} {t : Stmt} {s : Span} {cs ts : List Token} : c.Rendered 0 cs →
      Stmt.Rendered t ts →
      Stmt.Rendered (.ifThen c t s)
        (.keyword .if_ :: .symbol .leftParen :: (cs ++ .symbol .rightParen :: ts))
  | ifElse {c : Expr} {t e : Stmt} {s : Span} {cs ts us : List Token} : c.Rendered 0 cs →
      t.endsOpen = false → Stmt.Rendered t ts → Stmt.Rendered e us →
      Stmt.Rendered (.ifElse c t e s)
        (.keyword .if_ :: .symbol .leftParen
          :: (cs ++ .symbol .rightParen :: (ts ++ .keyword .else_ :: us)))
  | loop {c : Expr} {b : Stmt} {s : Span} {cs ts : List Token} : c.Rendered 0 cs →
      Stmt.Rendered b ts →
      Stmt.Rendered (.loop c b s)
        (.keyword .while_ :: .symbol .leftParen :: (cs ++ .symbol .rightParen :: ts))
  | throw {e : Expr} {s : Span} {ts : List Token} : e.Rendered 0 ts →
      Stmt.Rendered (.throw e s) (.keyword .throw :: (ts ++ [.symbol .semicolon]))
  | expr {e : Expr} {ts : List Token} : e.Rendered 0 ts →
      Stmt.Rendered (.expr e) (ts ++ [.symbol .semicolon])
  | empty {s : Span} : Stmt.Rendered (.empty s) [.symbol .semicolon]

/-- The tokens are the statements one behind the other. -/
inductive Stmt.AllRendered : List Stmt → List Token → Prop
  | nil : Stmt.AllRendered [] []
  | cons {s : Stmt} {ss : List Stmt} {ts us : List Token} : Stmt.Rendered s ts →
      Stmt.AllRendered ss us → Stmt.AllRendered (s :: ss) (ts ++ us)

end

/-- Statements in braces. -/
def Block.Rendered (b : Block) (ts : List Token) : Prop :=
  ∃ us, Stmt.AllRendered b.statements us ∧
    ts = .symbol .leftBrace :: (us ++ [.symbol .rightBrace])

/-! ### Members and units -/

/-- The visibility that a keyword gives. -/
def shownBy? : Keyword → Option Visibility
  | .public_ => some .visible
  | .protected_ => some .shielded
  | .private_ => some .hidden
  | _ => none

def isModifier (k : Keyword) : Bool := (shownBy? k).isSome || k == .static || k == .final

/-- The keywords give these modifiers: at most one says who sees the member. -/
structure Modifiers.Rendered (m : Modifiers) (ks : List Keyword) : Prop where
  modifiers : ∀ k ∈ ks, isModifier k = true
  visibility : ks.filterMap shownBy? = m.visibility.toList
  isStatic : m.isStatic = ks.contains .static
  isFinal : m.isFinal = ks.contains .final

def keywordTokens (ks : List Keyword) : List Token := ks.map .keyword

/-- Types with commas between them, behind a keyword; nothing without types. -/
def typeListTokens (k : Keyword) : List TypeName → List Token
  | [] => []
  | ts => .keyword k :: commaTokens (ts.map (·.tokens))

def Param.tokens (p : Param) : List Token := p.type.tokens ++ [.identifier p.name]

def paramsTokens (ps : List Param) : List Token :=
  .symbol .leftParen :: (commaTokens (ps.map Param.tokens) ++ [.symbol .rightParen])

/-- A return type; none is `void`. -/
def returnTokens : Option TypeName → List Token
  | none => [.keyword .void]
  | some t => t.tokens

/-- The tokens are the member of a class of this name. -/
inductive Member.Rendered (className : String) : Member → List Token → Prop
  | field {d : FieldDecl} {ks : List Keyword} {ts : List Token} : d.modifiers.Rendered ks →
      InitRendered d.init ts →
      Member.Rendered className (.field d)
        (keywordTokens ks ++ (d.type.tokens ++ .identifier d.name :: (ts ++ [.symbol .semicolon])))
  | method {d : MethodDecl} {ks : List Keyword} {ts : List Token} : d.modifiers.Rendered ks →
      d.body.Rendered ts →
      Member.Rendered className (.method d)
        (keywordTokens ks ++ (returnTokens d.returnType ++ .identifier d.name
          :: (paramsTokens d.params ++ (typeListTokens .throws d.throws ++ ts))))
  | constructor {d : ConstructorDecl} {ks : List Keyword} {ts : List Token} :
      d.modifiers.Rendered ks → d.name = className → d.body.Rendered ts →
      Member.Rendered className (.constructor d)
        (keywordTokens ks ++ .identifier d.name :: (paramsTokens d.params ++ ts))

/-- The tokens are the members one behind the other. -/
inductive Member.AllRendered (className : String) : List Member → List Token → Prop
  | nil : Member.AllRendered className [] []
  | cons {m : Member} {ms : List Member} {ts us : List Token} : m.Rendered className ts →
      Member.AllRendered className ms us → Member.AllRendered className (m :: ms) (ts ++ us)

/-- The tokens are the imports and the class. -/
inductive CompilationUnit.Rendered (u : CompilationUnit) : List Token → Prop
  | mk {ks : List Keyword} {ts : List Token} : u.decl.modifiers.Rendered ks →
      Member.AllRendered u.decl.name u.decl.members ts →
      CompilationUnit.Rendered u
        (u.imports.flatMap (fun i => importTokens i.path)
          ++ (keywordTokens ks ++ .keyword .class_ :: .identifier u.decl.name
            :: (typeListTokens .extends_ u.decl.superclass.toList
              ++ (typeListTokens .implements u.decl.interfaces
                ++ .symbol .leftBrace :: (ts ++ [.symbol .rightBrace])))))

/-! ### Trees that can be written -/

mutual

/-- Only variables and fields of `this` are assigned, and only arithmetic is joined to an
assignment. -/
def Expr.isProper : Expr → Bool
  | .literal _ _ | .name _ _ | .this _ => true
  | .access t _ _ => t.isProper
  | .call t _ args _ => t.isProper && Expr.allProper args
  | .ownCall _ args _ | .superCall _ args _ => Expr.allProper args
  | .unary _ e _ | .cast _ e _ => e.isProper
  | .binary _ l r _ | .logical _ l r _ => l.isProper && r.isProper
  | .assign op t v _ =>
    !(op.any BinaryOp.isComparison) && t.isAssignable && t.isProper && v.isProper
  | .conditional c t e _ => c.isProper && t.isProper && e.isProper

def Expr.allProper : List Expr → Bool
  | [] => true
  | e :: es => e.isProper && Expr.allProper es

end

mutual

/-- Moreover no `else` stands behind a statement that would take it for its own. -/
def Stmt.isProper : Stmt → Bool
  | .block body _ => Stmt.allProper body
  | .declare _ _ init _ => init.all Expr.isProper
  | .ret v _ => v.all Expr.isProper
  | .ifThen c t _ => c.isProper && t.isProper
  | .ifElse c t e _ => c.isProper && !t.endsOpen && t.isProper && e.isProper
  | .loop c b _ => c.isProper && b.isProper
  | .throw v _ => v.isProper
  | .expr v => v.isProper
  | .empty _ => true

def Stmt.allProper : List Stmt → Bool
  | [] => true
  | s :: ss => s.isProper && Stmt.allProper ss

end

/-- No keyword says that a member is seen in its package. -/
def Modifiers.isProper (m : Modifiers) : Bool := m.visibility != some .package

/-- Moreover constructors have the name of the class. -/
def Member.isProper (className : String) : Member → Bool
  | .field d => d.modifiers.isProper && d.init.all Expr.isProper
  | .method d => d.modifiers.isProper && Stmt.allProper d.body.statements
  | .constructor d =>
    d.modifiers.isProper && d.name == className && Stmt.allProper d.body.statements

/-- A tree that can be written. Its names may be any. -/
def CompilationUnit.isProper (u : CompilationUnit) : Bool :=
  u.decl.modifiers.isProper && u.decl.members.all (Member.isProper u.decl.name)

namespace Expr

theorem Rendered.lower {p q : Nat} {e : Expr} {ts : List Token} (h : e.Rendered p ts)
    (bound : p ≤ 9) (le : q ≤ p) : e.Rendered q ts := by
  induction p with
  | zero =>
    rw [Nat.le_zero.1 le]
    exact h
  | succ p ih =>
    by_cases same : q = p + 1
    · rw [same]
      exact h
    · have below : p < 9 := by omega
      exact ih (.tighter below h) (by omega) (by omega)

/-- An expression in parentheses, which may stand anywhere. -/
def InParens (e : Expr) : Prop :=
  ∃ ts, e.Rendered 9 (.symbol .leftParen :: (ts ++ [.symbol .rightParen]))

theorem Rendered.inParens {p : Nat} {e : Expr} {ts : List Token} (h : e.Rendered p ts)
    (bound : p ≤ 9) : e.InParens := ⟨ts, .parens (h.lower bound (Nat.zero_le p))⟩

theorem InParens.rendered {e : Expr} (h : e.InParens) {p : Nat} (bound : p ≤ 9) :
    ∃ ts, e.Rendered p ts := by
  obtain ⟨ts, h⟩ := h
  exact ⟨_, h.lower (Nat.le_refl 9) bound⟩

theorem InParens.join {l r : Expr} (hl : l.InParens) (hr : r.InParens) (o : InfixOp) (s : Span) :
    (o.join l r s).InParens := by
  have level := o.level_le
  obtain ⟨ts, left⟩ := hl.rendered (p := o.level + 1) (by omega)
  obtain ⟨us, right⟩ := hr.rendered (p := o.level + 1 + 1) (by omega)
  exact (Rendered.join (s := s) rfl left right).inParens (by omega)

mutual

theorem inParens (e : Expr) (proper : e.isProper = true) : e.InParens := by
  cases e with
  | literal v s =>
    cases sign : v.isNegative with
    | true => exact (Rendered.negative sign).inParens (by decide)
    | false => exact (Rendered.literal sign).inParens (by decide)
  | name n s => exact Rendered.name.inParens (by decide)
  | this s => exact Rendered.this.inParens (by decide)
  | access t n s =>
    rw [isProper] at proper
    obtain ⟨ts, target⟩ := (inParens t proper).rendered (Nat.le_refl 9)
    exact (Rendered.access target).inParens (by decide)
  | call t n args s =>
    rw [isProper, Bool.and_eq_true] at proper
    obtain ⟨ts, target⟩ := (inParens t proper.1).rendered (Nat.le_refl 9)
    obtain ⟨us, listed⟩ := allRendered args proper.2
    exact (Rendered.call target listed).inParens (by decide)
  | ownCall n args s =>
    rw [isProper] at proper
    obtain ⟨us, listed⟩ := allRendered args proper
    exact (Rendered.ownCall listed).inParens (by decide)
  | superCall n args s =>
    rw [isProper] at proper
    obtain ⟨us, listed⟩ := allRendered args proper
    exact (Rendered.superCall listed).inParens (by decide)
  | unary op e s =>
    rw [isProper] at proper
    obtain ⟨ts, operand⟩ := inParens e proper
    have lower := operand.lower (q := 8) (by decide) (by decide)
    refine (Rendered.sign lower fun _ n => ?_).inParens (by decide)
    simp
  | binary op l r s =>
    rw [isProper, Bool.and_eq_true] at proper
    exact (inParens l proper.1).join (inParens r proper.2) (.binary op) s
  | logical op l r s =>
    rw [isProper, Bool.and_eq_true] at proper
    exact (inParens l proper.1).join (inParens r proper.2) (.logical op) s
  | assign op t v s =>
    simp only [isProper, Bool.and_eq_true] at proper
    obtain ⟨⟨⟨arithmetic, assignable⟩, target⟩, value⟩ := proper
    obtain ⟨ts, target⟩ := (inParens t target).rendered (p := 1) (by decide)
    obtain ⟨us, value⟩ := (inParens v value).rendered (p := 0) (by decide)
    have signed : ∃ sign, assignSign? op = some sign := by
      cases op with
      | none => exact ⟨_, rfl⟩
      | some op => cases op <;> first | exact ⟨_, rfl⟩ | cases arithmetic
    obtain ⟨sign, signed⟩ := signed
    exact (Rendered.assign signed assignable target value).inParens (by decide)
  | conditional c t e s =>
    simp only [isProper, Bool.and_eq_true] at proper
    obtain ⟨cs, condition⟩ := (inParens c proper.1.1).rendered (p := 2) (by decide)
    obtain ⟨ts, thenExpr⟩ := (inParens t proper.1.2).rendered (p := 0) (by decide)
    obtain ⟨us, elseExpr⟩ := (inParens e proper.2).rendered (p := 1) (by decide)
    exact (Rendered.conditional condition thenExpr elseExpr).inParens (by decide)
  | cast t e s =>
    rw [isProper] at proper
    obtain ⟨ts, operand⟩ := inParens e proper
    have lower := operand.lower (q := 8) (by decide) (by decide)
    exact (Rendered.cast lower fun _ => rfl).inParens (by decide)

theorem allRendered (es : List Expr) (proper : allProper es = true) :
    ∃ ts, AllRendered es ts := by
  cases es with
  | nil => exact ⟨[], .nil⟩
  | cons e es =>
    rw [allProper, Bool.and_eq_true] at proper
    obtain ⟨ts, first⟩ := (inParens e proper.1).rendered (p := 0) (by decide)
    obtain ⟨us, others⟩ := allRendered es proper.2
    cases es with
    | nil => exact ⟨_, .one first⟩
    | cons e' es => exact ⟨_, .more first others⟩

end

theorem rendered {e : Expr} (proper : e.isProper = true) : ∃ ts, e.Rendered 0 ts :=
  (inParens e proper).rendered (Nat.zero_le 9)

end Expr

theorem initRendered {init : Option Expr} (proper : init.all Expr.isProper = true) :
    ∃ ts, InitRendered init ts := by
  cases init with
  | none => exact ⟨_, .none⟩
  | some e =>
    obtain ⟨ts, value⟩ := Expr.rendered (e := e) proper
    exact ⟨_, .some value⟩

namespace Stmt

mutual

theorem rendered (s : Stmt) (proper : s.isProper = true) : ∃ ts, s.Rendered ts := by
  cases s with
  | block body span =>
    rw [isProper] at proper
    obtain ⟨ts, body⟩ := allRendered body proper
    exact ⟨_, .block body⟩
  | declare type name init span =>
    rw [isProper] at proper
    obtain ⟨ts, init⟩ := initRendered proper
    exact ⟨_, .declare false init⟩
  | ret v span =>
    cases v with
    | none => exact ⟨_, .ret⟩
    | some e =>
      rw [isProper] at proper
      obtain ⟨ts, value⟩ := Expr.rendered (e := e) proper
      exact ⟨_, .retValue value⟩
  | ifThen c t span =>
    simp only [isProper, Bool.and_eq_true] at proper
    obtain ⟨cs, condition⟩ := Expr.rendered proper.1
    obtain ⟨ts, thenBranch⟩ := rendered t proper.2
    exact ⟨_, .ifThen condition thenBranch⟩
  | ifElse c t e span =>
    simp only [isProper, Bool.and_eq_true, Bool.not_eq_true'] at proper
    obtain ⟨⟨⟨condition, closed⟩, thenBranch⟩, elseBranch⟩ := proper
    obtain ⟨cs, condition⟩ := Expr.rendered condition
    obtain ⟨ts, thenBranch⟩ := rendered t thenBranch
    obtain ⟨us, elseBranch⟩ := rendered e elseBranch
    exact ⟨_, .ifElse condition closed thenBranch elseBranch⟩
  | loop c b span =>
    simp only [isProper, Bool.and_eq_true] at proper
    obtain ⟨cs, condition⟩ := Expr.rendered proper.1
    obtain ⟨ts, body⟩ := rendered b proper.2
    exact ⟨_, .loop condition body⟩
  | throw v span =>
    rw [isProper] at proper
    obtain ⟨ts, value⟩ := Expr.rendered proper
    exact ⟨_, .throw value⟩
  | expr v =>
    rw [isProper] at proper
    obtain ⟨ts, value⟩ := Expr.rendered proper
    exact ⟨_, .expr value⟩
  | empty span => exact ⟨_, .empty⟩

theorem allRendered (ss : List Stmt) (proper : allProper ss = true) :
    ∃ ts, AllRendered ss ts := by
  cases ss with
  | nil => exact ⟨[], .nil⟩
  | cons s ss =>
    rw [allProper, Bool.and_eq_true] at proper
    obtain ⟨ts, first⟩ := rendered s proper.1
    obtain ⟨us, others⟩ := allRendered ss proper.2
    exact ⟨_, .cons first others⟩

end

end Stmt

theorem Block.rendered {b : Block} (proper : Stmt.allProper b.statements = true) :
    ∃ ts, b.Rendered ts := by
  obtain ⟨ts, body⟩ := Stmt.allRendered b.statements proper
  exact ⟨_, ts, body, rfl⟩

/-- The keyword of a visibility, if it has one. -/
def visibilityKeywords : Option Visibility → List Keyword
  | some .visible => [.public_]
  | some .shielded => [.protected_]
  | some .hidden => [.private_]
  | _ => []

theorem Modifiers.rendered {m : Modifiers} (proper : m.isProper = true) :
    ∃ ks, m.Rendered ks := by
  refine ⟨visibilityKeywords m.visibility ++ (if m.isStatic then [.static] else [])
    ++ (if m.isFinal then [.final] else []), ?_⟩
  obtain ⟨visibility, isStatic, isFinal⟩ := m
  have seen : visibility ≠ some .package := by simpa [isProper] using proper
  clear proper
  cases isStatic <;> cases isFinal <;> rcases visibility with _ | (_ | _ | _ | _) <;>
    first
    | exact absurd rfl seen
    | exact ⟨by decide, rfl, by decide, by decide⟩

theorem Member.rendered {className : String} {m : Member} (proper : m.isProper className = true) :
    ∃ ts, m.Rendered className ts := by
  cases m with
  | field d =>
    simp only [isProper, Bool.and_eq_true] at proper
    obtain ⟨ks, modifiers⟩ := Modifiers.rendered proper.1
    obtain ⟨ts, init⟩ := initRendered proper.2
    exact ⟨_, .field modifiers init⟩
  | method d =>
    simp only [isProper, Bool.and_eq_true] at proper
    obtain ⟨ks, modifiers⟩ := Modifiers.rendered proper.1
    obtain ⟨ts, body⟩ := Block.rendered proper.2
    exact ⟨_, .method modifiers body⟩
  | constructor d =>
    simp only [isProper, Bool.and_eq_true, beq_iff_eq] at proper
    obtain ⟨ks, modifiers⟩ := Modifiers.rendered proper.1.1
    obtain ⟨ts, body⟩ := Block.rendered proper.2
    exact ⟨_, .constructor modifiers proper.1.2 body⟩

theorem Member.allRendered {className : String} {ms : List Member}
    (proper : ms.all (Member.isProper className) = true) :
    ∃ ts, Member.AllRendered className ms ts := by
  induction ms with
  | nil => exact ⟨[], .nil⟩
  | cons m ms ih =>
    rw [List.all_cons, Bool.and_eq_true] at proper
    obtain ⟨ts, first⟩ := Member.rendered proper.1
    obtain ⟨us, others⟩ := ih proper.2
    exact ⟨_, .cons first others⟩

/-- Every proper tree can be written. -/
theorem CompilationUnit.rendered {u : CompilationUnit} (proper : u.isProper = true) :
    ∃ ts, u.Rendered ts := by
  rw [isProper, Bool.and_eq_true] at proper
  obtain ⟨ks, modifiers⟩ := Modifiers.rendered proper.1
  obtain ⟨ts, members⟩ := Member.allRendered proper.2
  exact ⟨_, .mk modifiers members⟩

end Source

end Classwright
