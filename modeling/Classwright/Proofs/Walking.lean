import Classwright.Source.Declaration

/-!
# Walking along the tokens

The grammar once more, for a walker that knows no more than its position among the tokens. Nothing
in its types says that it gets anywhere. Behind the last token it stands still, a malformed member
takes it back to where the member began, and a loop goes on for as long as its test says, so that a
walk may have no end. Every lap, which is a round of a loop that leads to a further one, is put on
record with the positions where it began and where it ended.
-/

namespace Classwright.Source

/-- The loops that read a source. -/
inductive Loop
  | imports
  | members
  | passing
  | modifiers
  | types
  | names
  | brackets
  | params
  | statements
  | arguments
  | operators
  | postfixes
deriving DecidableEq, Repr

structure Lap where
  loop : Loop
  start : Nat
  finish : Nat
deriving DecidableEq, Repr

/-- Where the walker stands and how far it has been, and what it has put on record: the errors that
it went on from, the earliest first, and its laps, the latest first. -/
structure Walker where
  position : Nat := 0
  furthest : Nat := 0
  errors : List SyntaxError := []
  laps : List Lap := []

/-- A walk reads something, or fails, or goes on for ever. -/
abbrev Walk := ExceptT SyntaxError (StateT Walker Option)

/-- What a walker walks along. -/
abbrev Track := Lexed

namespace Track

variable (l : Track)

/-! ### Steps -/

def position : Walk Nat := return (← get).position

/-- The token so many places ahead. -/
def ahead (n : Nat) : Walk (Option Token) :=
  return l.tokens[(← get).position + n]?.map (·.token)

/-- The stretch of the current token. -/
def span : Walk Span := return (l.tokens[(← get).position]?.map (·.span)).getD l.finish

/-- The stretch of the token before the current one, or of the first. -/
def previous : Walk Span := return (l.tokens[(← get).position - 1]?.map (·.span)).getD l.finish

def moveTo (p : Nat) : Walk Unit :=
  modify fun w => { w with position := p, furthest := max w.furthest p }

/-- Moves past the current token, if there is one. -/
def advance : Walk Unit := do
  let p ← position
  if p < l.tokens.length then moveTo (p + 1)

/-- Puts on record that a lap ends here. -/
def lap (loop : Loop) (start : Nat) : Walk Unit :=
  modify fun w => { w with laps := ⟨loop, start, w.position⟩ :: w.laps }

/-- Puts an error on record and goes on. -/
def record (e : SyntaxError) : Walk Unit := modify fun w => { w with errors := w.errors ++ [e] }

/-- What comes of a walk, whether or not it fails. -/
def attempt {α : Type} (walk : Walk α) : Walk (Except SyntaxError α) := fun w =>
  (walk w).map fun (result, w) => (.ok result, w)

def refuse {α : Type} (expected : List Token) : Walk α := do
  match ← ahead l 0 with
  | none => throw ⟨.unexpectedEnd expected, ← span l, none⟩
  | some found => throw ⟨.unexpected expected found, ← span l, none⟩

def suggest {α : Type} (hint : Suggestion) (walk : Walk α) : Walk α :=
  tryCatch walk fun e => throw { e with suggestion := some hint }

def check (t : Token) : Walk Bool := return (← ahead l 0) == some t

def eat (t : Token) : Walk Bool := do
  if ← check l t then
    advance l
    return true
  else return false

def expect (t : Token) : Walk Unit := do
  if ← check l t then advance l else refuse l [t]

def semicolon : Walk Unit := suggest .semicolon (expect l (.symbol .semicolon))

def identifier : Walk (String × Span) := do
  let start ← span l
  match ← ahead l 0 with
  | some (.identifier name) =>
    advance l
    return (name, start)
  | _ => refuse l [.identifier ""]

/-! ### Types -/

def nameLoop (l : Track) (name : String) : Walk String := do
  let start ← position
  if (← check l (.symbol .dot)) && ((← ahead l 1).any (·.isIdentifier)) then
    advance l
    let (segment, _) ← identifier l
    lap .names start
    l |>.nameLoop (name ++ "." ++ segment)
  else return name
partial_fixpoint

def qualifiedName : Walk (String × Span) := do
  let (first, start) ← identifier l
  let name ← nameLoop l first
  return (name, start.through (← previous l))

def bracketLoop (l : Track) (dims : Nat) : Walk Nat := do
  let start ← position
  if (← check l (.symbol .leftBracket)) && ((← ahead l 1) == some (.symbol .rightBracket)) then
    advance l
    advance l
    lap .brackets start
    l |>.bracketLoop (dims + 1)
  else return dims
partial_fixpoint

def typeBase : Walk String := do
  match ← ahead l 0 with
  | some (.primitive kind) =>
    advance l
    return kind.keyword
  | some (.identifier _) =>
    let (name, _) ← qualifiedName l
    return name
  | _ => suggest .typeName (refuse l [.identifier ""])

def typeName : Walk TypeName := do
  let start ← span l
  let name ← typeBase l
  let dims ← bracketLoop l 0
  return ⟨name, dims, start.through (← previous l)⟩

/-! ### Looking ahead -/

/-- The place behind the dots and names that begin so many places ahead. -/
def namesAhead (l : Track) (n : Nat) : Walk Nat := do
  if ((← ahead l n) == some (.symbol .dot)) && ((← ahead l (n + 1)).any (·.isIdentifier)) then
    l |>.namesAhead (n + 2)
  else return n
partial_fixpoint

/-- The place behind the pairs of brackets that begin so many places ahead, and how many pairs there
are besides. -/
def bracketsAhead (l : Track) (n dims : Nat) : Walk (Nat × Nat) := do
  if ((← ahead l n) == some (.symbol .leftBracket))
      && ((← ahead l (n + 1)) == some (.symbol .rightBracket)) then
    l |>.bracketsAhead (n + 2) (dims + 1)
  else return (n, dims)
partial_fixpoint

/-- The place behind the type that begins so many places ahead, and whether it is a bare
primitive. -/
def typeAhead (n : Nat) : Walk (Option (Bool × Nat)) := do
  match ← ahead l n with
  | some (.primitive _) =>
    let (m, dims) ← bracketsAhead l (n + 1) 0
    return some (dims == 0, m)
  | some (.identifier _) =>
    let m ← namesAhead l (n + 1)
    let (m, _) ← bracketsAhead l m 0
    return some (false, m)
  | _ => return none

/-- Whether a type and a name come next. -/
def opensDeclaration : Walk Bool := do
  match ← typeAhead l 0 with
  | none => return false
  | some (_, n) => return (← ahead l n).any (·.isIdentifier)

/-- Whether the current parenthesis opens a cast. -/
def opensCast : Walk Bool := do
  match ← typeAhead l 1 with
  | none => return false
  | some (primitive, n) =>
    if (← ahead l n) == some (.symbol .rightParen) then
      return primitive || (← ahead l (n + 1)).any Cursor.startsCastOperand
    else return false

/-! ### Expressions -/

/-- The `int` literal that a sign belongs to: that of a minus sign, unless a call follows. -/
def signedInt? (op : SignOp) (operand after : Option Token) : Option Nat :=
  match op, operand with
  | .negate, some (.int n) => if after = some (.symbol .dot) then none else some n
  | _, _ => none

mutual

def expression (l : Track) : Walk Expr := do
  let target ← l |>.conditional
  match (← ahead l 0).bind assignOp? with
  | none => return target
  | some op =>
    if target.isAssignable then
      advance l
      let value ← l |>.expression
      return .assign op target value (target.span.through value.span)
    else throw ⟨.badTarget, target.span, none⟩
partial_fixpoint

def conditional (l : Track) : Walk Expr := do
  let condition ← l |>.infixes 1
  if ← eat l (.symbol .question) then
    let thenExpr ← l |>.expression
    expect l (.symbol .colon)
    let elseExpr ← l |>.conditional
    return .conditional condition thenExpr elseExpr (condition.span.through elseExpr.span)
  else return condition
partial_fixpoint

def infixes (l : Track) (level : Nat) : Walk Expr := do
  let left ← l |>.unary
  l |>.infixLoop level left
partial_fixpoint

def infixLoop (l : Track) (level : Nat) (left : Expr) : Walk Expr := do
  let start ← position
  match (← ahead l 0).bind InfixOp.ofToken? with
  | none => return left
  | some op =>
    if level ≤ op.level then
      advance l
      let right ← l |>.infixes (op.level + 1)
      lap .operators start
      l |>.infixLoop level (op.apply left right)
    else return left
partial_fixpoint

def unary (l : Track) : Walk Expr := do
  let start ← span l
  match (← ahead l 0).bind signOp? with
  | some op =>
    advance l
    match signedInt? op (← ahead l 0) (← ahead l 1) with
    | some n =>
      let last ← span l
      advance l
      return .literal (.int (Int32.ofInt (-n))) (start.through last)
    | none =>
      let operand ← l |>.unary
      return .unary op operand (start.through operand.span)
  | none =>
    if (← check l (.symbol .leftParen)) && (← opensCast l) then
      advance l
      let type ← typeName l
      expect l (.symbol .rightParen)
      let operand ← l |>.unary
      return .cast type operand (start.through operand.span)
    else l |>.postfixes
partial_fixpoint

def postfixes (l : Track) : Walk Expr := do
  let target ← l |>.primary
  l |>.postfixLoop target
partial_fixpoint

def postfixLoop (l : Track) (target : Expr) : Walk Expr := do
  let start ← position
  if ← eat l (.symbol .dot) then
    let (name, nameSpan) ← identifier l
    if ← check l (.symbol .leftParen) then
      let args ← l |>.arguments
      let last ← previous l
      lap .postfixes start
      l |>.postfixLoop (.call target name args (target.span.through last))
    else
      lap .postfixes start
      l |>.postfixLoop (.access target name (target.span.through nameSpan))
  else return target
partial_fixpoint

def primary (l : Track) : Walk Expr := do
  let start ← span l
  match ← ahead l 0 with
  | none => suggest .expression (refuse l [])
  | some first =>
    match literal? first with
    | some value =>
      advance l
      return .literal value start
    | none =>
      match first with
      | .int n => throw ⟨.numberTooLarge (toString n), start, none⟩
      | .keyword .this =>
        advance l
        return .this start
      | .keyword .super =>
        advance l
        expect l (.symbol .dot)
        let (name, _) ← identifier l
        if ← check l (.symbol .leftParen) then
          let args ← l |>.arguments
          return .superCall name args (start.through (← previous l))
        else throw ⟨.bareSuper, start, none⟩
      | .identifier name =>
        advance l
        if ← check l (.symbol .leftParen) then
          let args ← l |>.arguments
          return .ownCall name args (start.through (← previous l))
        else return .name name start
      | .symbol .leftParen =>
        advance l
        let inner ← l |>.expression
        expect l (.symbol .rightParen)
        return inner.withSpan (start.through (← previous l))
      | _ => suggest .expression (refuse l [])
partial_fixpoint

def arguments (l : Track) : Walk (List Expr) := do
  expect l (.symbol .leftParen)
  if ← eat l (.symbol .rightParen) then return [] else l |>.argumentLoop []
partial_fixpoint

/-- Arguments and the parenthesis that closes them. -/
def argumentLoop (l : Track) (args : List Expr) : Walk (List Expr) := do
  let start ← position
  let arg ← l |>.expression
  if ← eat l (.symbol .comma) then
    lap .arguments start
    l |>.argumentLoop (args ++ [arg])
  else
    expect l (.symbol .rightParen)
    return args ++ [arg]
partial_fixpoint

end

/-! ### Statements -/

def condition : Walk Expr := do
  expect l (.symbol .leftParen)
  let test ← expression l
  expect l (.symbol .rightParen)
  return test

def initializer : Walk (Option Expr) := do
  if ← eat l (.symbol .equal) then return some (← expression l) else return none

def declaration : Walk Stmt := do
  let start ← span l
  let type ← typeName l
  let (name, _) ← identifier l
  let init ← initializer l
  semicolon l
  return .declare type name init (start.through (← previous l))

def terminated (start : Span) (build : Expr → Span → Stmt) : Walk Stmt := do
  let value ← expression l
  semicolon l
  return build value (start.through (← previous l))

mutual

def statement (l : Track) : Walk Stmt := do
  let start ← span l
  match ← ahead l 0 with
  | some (.symbol .leftBrace) =>
    advance l
    let body ← l |>.statementLoop []
    return .block body (start.through (← previous l))
  | some (.symbol .semicolon) =>
    advance l
    return .empty start
  | some (.keyword .return_) =>
    advance l
    if ← check l (.symbol .semicolon) then
      semicolon l
      return .ret none (start.through (← previous l))
    else terminated l start fun e s => .ret (some e) s
  | some (.keyword .throw) =>
    advance l
    terminated l start fun e s => .throw e s
  | some (.keyword .if_) =>
    advance l
    let test ← condition l
    let thenBranch ← l |>.statement
    if ← eat l (.keyword .else_) then
      let elseBranch ← l |>.statement
      return .ifElse test thenBranch elseBranch (start.through (← previous l))
    else return .ifThen test thenBranch (start.through (← previous l))
  | some (.keyword .while_) =>
    advance l
    let test ← condition l
    let body ← l |>.statement
    return .loop test body (start.through (← previous l))
  | some (.keyword .final) =>
    advance l
    declaration l
  | _ =>
    if ← opensDeclaration l then declaration l
    else terminated l start fun e _ => .expr e
partial_fixpoint

/-- Statements and the brace that closes them. -/
def statementLoop (l : Track) (body : List Stmt) : Walk (List Stmt) := do
  let start ← position
  if (← check l (.symbol .rightBrace)) || (← ahead l 0).isNone then
    expect l (.symbol .rightBrace)
    return body
  else
    let s ← l |>.statement
    lap .statements start
    l |>.statementLoop (body ++ [s])
partial_fixpoint

end

def block : Walk Block := do
  let start ← span l
  expect l (.symbol .leftBrace)
  let body ← statementLoop l []
  return ⟨body, start.through (← previous l)⟩

/-! ### Declarations -/

/-- Passes a malformed declaration, while so many braces are open. -/
def passLoop (l : Track) (depth : Nat) : Walk Unit := do
  let start ← position
  match ← ahead l 0 with
  | none => return ()
  | some t =>
    match t, depth with
    | .symbol .leftBrace, depth =>
      advance l
      lap .passing start
      l |>.passLoop (depth + 1)
    | .symbol .rightBrace, 0 => return ()
    | .symbol .rightBrace, 1 => advance l
    | .symbol .rightBrace, depth + 2 =>
      advance l
      lap .passing start
      l |>.passLoop (depth + 1)
    | .symbol .semicolon, 0 => advance l
    | _, depth =>
      advance l
      lap .passing start
      l |>.passLoop depth
partial_fixpoint

def modifierLoop (l : Track) (m : Modifiers) : Walk Modifiers := do
  let start ← position
  let place ← span l
  match ← ahead l 0 with
  | some (.keyword k) =>
    match Cursor.applyModifier m k with
    | none => return m
    | some (.error cause) =>
      advance l
      throw ⟨cause, place, none⟩
    | some (.ok m) =>
      advance l
      lap .modifiers start
      l |>.modifierLoop m
  | _ => return m
partial_fixpoint

def typeLoop (l : Track) (types : List TypeName) : Walk (List TypeName) := do
  let start ← position
  let type ← typeName l
  if ← eat l (.symbol .comma) then
    lap .types start
    l |>.typeLoop (types ++ [type])
  else return types ++ [type]
partial_fixpoint

def typesAfter (k : Keyword) : Walk (List TypeName) := do
  if ← eat l (.keyword k) then typeLoop l [] else return []

/-- Parameters and the parenthesis that closes them. -/
def paramLoop (l : Track) (params : List Param) : Walk (List Param) := do
  let start ← position
  let type ← typeName l
  let (name, nameSpan) ← identifier l
  let param : Param := ⟨type, name, type.span.through nameSpan⟩
  if ← eat l (.symbol .comma) then
    lap .params start
    l |>.paramLoop (params ++ [param])
  else
    expect l (.symbol .rightParen)
    return params ++ [param]
partial_fixpoint

def params : Walk (List Param) := do
  expect l (.symbol .leftParen)
  if ← eat l (.symbol .rightParen) then return [] else paramLoop l []

def returnType : Walk (Option TypeName) := do
  if ← eat l (.keyword .void) then return none else return some (← typeName l)

def member (className : String) : Walk Member := do
  let start ← span l
  let modifiers ← modifierLoop l {}
  if (← check l (.identifier className)) && ((← ahead l 1) == some (.symbol .leftParen)) then
    let (name, _) ← identifier l
    let params ← params l
    let body ← block l
    return .constructor ⟨modifiers, name, params, body, start.through body.span⟩
  else
    let type ← returnType l
    let (name, nameSpan) ← identifier l
    if ← check l (.symbol .leftParen) then
      let params ← params l
      let throws ← typesAfter l .throws
      let body ← block l
      return .method ⟨modifiers, type, name, params, throws, body, start.through body.span⟩
    else
      match type with
      | none => throw ⟨.voidField name, nameSpan, none⟩
      | some type =>
        let init ← initializer l
        expect l (.symbol .semicolon)
        return .field ⟨modifiers, type, name, init, start.through (← previous l)⟩

/-- Members up to a closing brace or the end. A malformed one is passed from where it began. -/
def memberLoop (l : Track) (className : String) (members : List Member) : Walk (List Member) := do
  let start ← position
  if (← check l (.symbol .rightBrace)) || (← ahead l 0).isNone then return members
  else
    match ← attempt (member l className) with
    | .ok m =>
      lap .members start
      l |>.memberLoop className (members ++ [m])
    | .error e =>
      record e
      moveTo start
      passLoop l 0
      lap .members start
      l |>.memberLoop className members
partial_fixpoint

def extended : Walk (Option TypeName) := do
  if ← eat l (.keyword .extends_) then return some (← typeName l) else return none

def header : Walk Cursor.Header := do
  let modifiers ← modifierLoop l {}
  expect l (.keyword .class_)
  let (name, _) ← identifier l
  let superclass ← extended l
  let interfaces ← typesAfter l .implements
  expect l (.symbol .leftBrace)
  return ⟨modifiers, name, superclass, interfaces⟩

def classDecl : Walk ClassDecl := do
  let start ← span l
  let head ← header l
  let members ← memberLoop l head.name []
  expect l (.symbol .rightBrace)
  return ⟨head.modifiers, head.name, head.superclass, head.interfaces, members,
    start.through (← previous l)⟩

def importDecl : Walk Import := do
  let start ← span l
  expect l (.keyword .import_)
  let (path, _) ← qualifiedName l
  expect l (.symbol .semicolon)
  return ⟨path, start.through (← previous l)⟩

/-- Imports. A malformed one is passed from where reading it stopped. -/
def importLoop (l : Track) (imports : List Import) : Walk (List Import) := do
  let start ← position
  if ← check l (.keyword .import_) then
    match ← attempt (importDecl l) with
    | .ok i =>
      lap .imports start
      l |>.importLoop (imports ++ [i])
    | .error e =>
      record e
      passLoop l 0
      lap .imports start
      l |>.importLoop imports
  else return imports
partial_fixpoint

/-- The unit, unless errors are on record. -/
def unlessErrors (unit : CompilationUnit) :
    List SyntaxError → Except (List SyntaxError) CompilationUnit
  | [] => .ok unit
  | errors => .error errors

/-- The syntax tree of a source, or every error found in it. -/
def unit : Walk (Except (List SyntaxError) CompilationUnit) := do
  let imports ← importLoop l []
  match ← attempt (classDecl l) with
  | .ok decl =>
    if (← ahead l 0).isSome then record ⟨.secondClass, ← span l, none⟩
    return unlessErrors ⟨imports, decl⟩ (← get).errors
  | .error e =>
    record e
    return .error (← get).errors

end Track

end Classwright.Source
