import Classwright.Source.Expression

/-!
# Reading statements

A statement that starts with a type and a name declares a variable; the modifier `final` is
accepted in front of it and has no effect.
-/

namespace Classwright.Source.Cursor

/-- Reads a condition in parentheses. -/
def condition (c : Cursor) : Step Expr c.remaining :=
  (c.expectSymbol .leftParen).andThen fun _ d _ =>
    (expression d).andThen fun test e _ => (e.expectSymbol .rightParen).map fun _ => test

/-- Reads an initial value behind an equals sign, if there is one. -/
def initializer (c : Cursor) : Step (Option Expr) (c.remaining + 1) :=
  (c.eat (.symbol .equal)).andMaybe fun found d _ =>
    if found then ((expression d).map some).loosen else .stay none d

/-- Reads the declaration of a variable. -/
def declaration (c : Cursor) : Step Stmt c.remaining :=
  c.typeName.andThen fun type d _ =>
    d.expectIdentifier.andThen fun (name, _) e _ =>
      e.initializer.maybeThen fun init f _ =>
        f.expectSemicolon.mapAt fun _ g => .declare type name init (c.span.through g.previous)

/-- Reads an expression and a semicolon; `build` gets the stretch that both cover. -/
def terminated (start : Span) (build : Expr → Span → Stmt) (c : Cursor) : Step Stmt c.remaining :=
  (expression c).andThen fun value d _ =>
    d.expectSemicolon.mapAt fun _ e => build value (start.through e.previous)

mutual

/-- Reads a statement. -/
def statement (c : Cursor) : Step Stmt c.remaining :=
  match h : c.rest with
  | [] => c.terminated c.span fun e _ => .expr e
  | first :: rest =>
    have hrest := rest_lt h
    match first.token with
    | .symbol .leftBrace =>
      ((blockTail (c.past first rest)).mapAt fun body d =>
        Stmt.block body (first.span.through d.previous)).behind h
    | .symbol .semicolon => .ok (.empty first.span) (c.past first rest) hrest
    | .keyword .return_ =>
      (if (c.past first rest).atSymbol .semicolon then
        (c.past first rest).expectSemicolon.mapAt fun _ d =>
          Stmt.ret none (first.span.through d.previous)
      else (c.past first rest).terminated first.span fun e s => .ret (some e) s).behind h
    | .keyword .throw =>
      ((c.past first rest).terminated first.span fun e s => .throw e s).behind h
    | .keyword .if_ =>
      ((c.past first rest).condition.andThen fun test d _ =>
        (statement d).andMaybe fun thenBranch e _ =>
          (e.eat (.keyword .else_)).andMaybe fun found f _ =>
            if found then
              ((statement f).mapAt fun elseBranch g =>
                Stmt.ifElse test thenBranch elseBranch (first.span.through g.previous)).loosen
            else .stay (.ifThen test thenBranch (first.span.through f.previous)) f).behind h
    | .keyword .while_ =>
      ((c.past first rest).condition.andThen fun test d _ =>
        (statement d).mapAt fun body e =>
          Stmt.loop test body (first.span.through e.previous)).behind h
    | .keyword .final => (c.past first rest).declaration.behind h
    | _ =>
      if c.opensDeclaration then c.declaration
      else c.terminated c.span fun e _ => .expr e
termination_by 2 * c.remaining
decreasing_by
  · simp only [remaining, past] at *; omega
  · simp only [remaining, past] at *; omega
  · simp only [remaining, past] at *; omega
  · simp only [remaining, past] at *; omega

/-- Reads statements and the brace that closes them. -/
def blockTail (c : Cursor) : Step (List Stmt) c.remaining :=
  match h : c.rest with
  | [] => .error (c.unexpected [.symbol .rightBrace]) c
  | first :: rest =>
    if first.token = .symbol .rightBrace then .ok [] (c.past first rest) (past_lt h)
    else (statement c).andThen fun s d _ => (blockTail d).map fun ss => s :: ss
termination_by 2 * c.remaining + 1
decreasing_by
  · omega
  · omega

end

/-- Reads statements in braces. -/
def block (c : Cursor) : Step Block c.remaining :=
  (c.expectSymbol .leftBrace).andThen fun _ d _ =>
    (blockTail d).mapAt fun body e => ⟨body, c.span.through e.previous⟩

end Classwright.Source.Cursor
