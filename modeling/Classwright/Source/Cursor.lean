import Classwright.Source.Lexeme

/-!
# Cursors and steps

A cursor stands between the tokens of a source. A parsing step either reads something and moves
the cursor forward, or fails where it stands; the type of a step bounds the tokens that are left,
so that parsers end because they run out of tokens.
-/

namespace Classwright.Source

/-- What a reader may be told to write instead. -/
inductive Suggestion
  | semicolon
  | typeName
  | expression
deriving DecidableEq, Repr

def Suggestion.text : Suggestion → String
  | semicolon => "Add a semicolon at the end of the statement"
  | typeName => "Expected a type name"
  | expression => "Expected an expression"

inductive SyntaxCause
  | unexpected (expected : List Token) (found : Token)
  | unexpectedEnd (expected : List Token)
  | numberTooLarge (text : String)
  | secondClass
  | voidField (name : String)
  | repeatedVisibility
  | badTarget
  | bareSuper
deriving DecidableEq

structure SyntaxError where
  cause : SyntaxCause
  span : Span
  suggestion : Option Suggestion := none
deriving DecidableEq

namespace SyntaxError

def describe (expected : List Token) : String :=
  match expected.map fun t => "'" ++ t.text ++ "'" with
  | [] => "more input"
  | [one] => one
  | several => "one of " ++ String.intercalate ", " several

/-- What is wrong with a program whose tokens could stand where they are. -/
def reason? : SyntaxCause → Option String
  | .secondClass => some "only one class may be declared per unit"
  | .voidField name => some ("field '" ++ name ++ "' cannot have type void")
  | .repeatedVisibility => some "multiple visibility modifiers"
  | .badTarget => some "left side of an assignment must be a variable or this.field"
  | .bareSuper => some "super may only be used to call a method"
  | _ => none

def message (e : SyntaxError) : String :=
  match e.cause with
  | .unexpected expected found =>
    "Expected " ++ describe expected ++ ", found '" ++ found.text ++ "'"
  | .unexpectedEnd expected => "Unexpected end of file, expected " ++ describe expected
  | .numberTooLarge text => "Integer number too large: " ++ text
  | other => "Invalid syntax: " ++ (reason? other).getD ""

/-- The message with its place and the suggestion. -/
def report (e : SyntaxError) : String :=
  "Parse error at " ++ e.span.text ++ ": " ++ e.message
    ++ (match e.suggestion with
      | none => ""
      | some s => "\n  Suggestion: " ++ s.text)

end SyntaxError

/-- The tokens still to read, the stretch behind the last of them and the one read last. -/
structure Cursor where
  rest : List Lexeme
  finish : Span
  previous : Span

namespace Cursor

def ofLexed (l : Lexed) : Cursor :=
  ⟨l.tokens, l.finish, (l.tokens.head?.map (·.span)).getD l.finish⟩

def remaining (c : Cursor) : Nat := c.rest.length

def current? (c : Cursor) : Option Token := c.rest.head?.map (·.token)

/-- The token after the current one. -/
def next? (c : Cursor) : Option Token := c.rest[1]?.map (·.token)

def span (c : Cursor) : Span := (c.rest.head?.map (·.span)).getD c.finish

/-- Moves past the first token `t` of `ts = t :: rest`. -/
def past (c : Cursor) (t : Lexeme) (rest : List Lexeme) : Cursor := ⟨rest, c.finish, t.span⟩

def at_ (c : Cursor) (t : Token) : Bool := c.current? == some t

theorem rest_lt {c : Cursor} {t : Lexeme} {rest : List Lexeme} (h : c.rest = t :: rest) :
    rest.length < c.remaining := by
  rw [remaining, h]
  exact Nat.lt_succ_self _

theorem past_lt {c : Cursor} {t : Lexeme} {rest : List Lexeme} (h : c.rest = t :: rest) :
    (c.past t rest).remaining < c.remaining := rest_lt h

def atSymbol (c : Cursor) (s : Symbol) : Bool := c.at_ (.symbol s)

def unexpected (c : Cursor) (expected : List Token) : SyntaxError :=
  match c.current? with
  | none => ⟨.unexpectedEnd expected, c.span, none⟩
  | some found => ⟨.unexpected expected found, c.span, none⟩

end Cursor

/-- A step that reads an `α` and leaves fewer than `n` tokens, or fails where `stop` stands. -/
inductive Step (α : Type) (n : Nat)
  | ok (value : α) (next : Cursor) (shorter : next.remaining < n)
  | error (e : SyntaxError) (stop : Cursor)

namespace Step

variable {α β : Type} {m n : Nat}

/-- The same step under a weaker bound. -/
def upTo (h : m ≤ n) : Step α m → Step α n
  | ok a d hd => ok a d (Nat.lt_of_lt_of_le hd h)
  | error e d => error e d

/-- Counts as a step that may read nothing. -/
def loosen (s : Step α m) : Step α (m + 1) := s.upTo (Nat.le_succ m)

/-- Reads nothing. -/
def stay (a : α) (c : Cursor) : Step α (c.remaining + 1) := ok a c (Nat.lt_succ_self _)

def map (f : α → β) : Step α m → Step β m
  | ok a d hd => ok (f a) d hd
  | error e d => error e d

/-- The value may depend on where the step stopped. -/
def mapAt (f : α → Cursor → β) : Step α m → Step β m
  | ok a d hd => ok (f a d) d hd
  | error e d => error e d

/-- Goes on where the first step stopped. -/
def andThen (s : Step α m) (k : (a : α) → (d : Cursor) → d.remaining < m → Step β d.remaining) :
    Step β m :=
  match s with
  | ok a d hd => (k a d hd).upTo (Nat.le_of_lt hd)
  | error e d => error e d

/-- Goes on with a step that may read nothing. -/
def andMaybe (s : Step α m)
    (k : (a : α) → (d : Cursor) → d.remaining < m → Step β (d.remaining + 1)) : Step β m :=
  match s with
  | ok a d hd => (k a d hd).upTo hd
  | error e d => error e d

/-- Goes on behind a step that may have read nothing. -/
def maybeThen (s : Step α (m + 1))
    (k : (a : α) → (d : Cursor) → d.remaining ≤ m → Step β d.remaining) : Step β m :=
  match s with
  | ok a d hd => (k a d (Nat.le_of_lt_succ hd)).upTo (Nat.le_of_lt_succ hd)
  | error e d => error e d

/-- A step that started behind the first token. -/
def behind {c : Cursor} {t : Lexeme} {rest : List Lexeme} (h : c.rest = t :: rest)
    (s : Step α (c.past t rest).remaining) : Step α c.remaining :=
  s.upTo (Nat.le_of_lt (Cursor.past_lt h))

/-- A step that started behind the first token and may have read nothing from there. -/
def behindMaybe {c : Cursor} {t : Lexeme} {rest : List Lexeme} (h : c.rest = t :: rest)
    (s : Step α ((c.past t rest).remaining + 1)) : Step α c.remaining :=
  s.upTo (Cursor.past_lt h)

def suggest (hint : Suggestion) : Step α n → Step α n
  | ok a c h => ok a c h
  | error e c => error { e with suggestion := some hint } c

/-- The value or the error, without the cursor. -/
def result : Step α n → Except SyntaxError α
  | ok a _ _ => .ok a
  | error e _ => .error e

/-- Where the step stopped. -/
def cursor : Step α n → Cursor
  | ok _ c _ => c
  | error _ c => c

end Step

namespace Cursor

/-- Reads the token `t`. -/
def expect (c : Cursor) (t : Token) : Step Unit c.remaining :=
  match h : c.rest with
  | [] => .error (c.unexpected [t]) c
  | l :: rest =>
    if l.token = t then .ok () (c.past l rest) (past_lt h)
    else .error (c.unexpected [t]) c

def expectSymbol (c : Cursor) (s : Symbol) : Step Unit c.remaining := c.expect (.symbol s)

def expectKeyword (c : Cursor) (k : Keyword) : Step Unit c.remaining := c.expect (.keyword k)

def expectSemicolon (c : Cursor) : Step Unit c.remaining :=
  (c.expectSymbol .semicolon).suggest .semicolon

/-- Reads an identifier, with its stretch. -/
def expectIdentifier (c : Cursor) : Step (String × Span) c.remaining :=
  match h : c.rest with
  | ⟨.identifier name, span⟩ :: rest =>
    .ok (name, span) (c.past ⟨.identifier name, span⟩ rest) (past_lt h)
  | _ => .error (c.unexpected [.identifier ""]) c

/-- Reads `t` if it comes next, and says whether it did. -/
def eat (c : Cursor) (t : Token) : Step Bool (c.remaining + 1) :=
  match h : c.rest with
  | [] => .stay false c
  | l :: rest =>
    if l.token = t then (Step.ok true (c.past l rest) (past_lt h)).loosen
    else .stay false c

end Cursor

end Classwright.Source
