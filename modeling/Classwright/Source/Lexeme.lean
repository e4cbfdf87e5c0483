import Classwright.Source.Span
import Classwright.Source.Token

/-!
# Reading tokens

`Source.scan` cuts a text into tokens with their places. At each point the longest token wins; white
space and comments are passed over. A text with any malformed token has errors instead of tokens.
-/

namespace Classwright

/-- A token and where it stands. -/
structure Lexeme where
  token : Token
  span : Span
deriving DecidableEq

/-- Why a stretch of a source is no token. -/
inductive LexCause
  | unexpectedCharacter (c : Char)
  | unterminatedString
  | unterminatedComment
  | invalidNumber (text : String)
  | invalidEscape (text : String)
  | invalidCharacter (text : String)
deriving DecidableEq

structure LexError where
  cause : LexCause
  span : Span
deriving DecidableEq

namespace LexError

def description (e : LexError) : String :=
  match e.cause with
  | .unexpectedCharacter c => "Unexpected character '" ++ String.singleton c ++ "'"
  | .unterminatedString => "Unterminated string literal"
  | .unterminatedComment => "Unterminated block comment"
  | .invalidNumber text => "Invalid number '" ++ text ++ "'"
  | .invalidEscape text => "Invalid escape sequence '" ++ text ++ "'"
  | .invalidCharacter text => "Invalid character literal " ++ text

def hint? (e : LexError) : Option String :=
  match e.cause with
  | .unexpectedCharacter _ => none
  | .unterminatedString => some "Add a closing quote to terminate the string"
  | .unterminatedComment => some "Close the comment with */"
  | .invalidNumber _ => some "int literals must fit in 32 bits; add an L suffix for long"
  | .invalidEscape _ =>
    some "Valid escape sequences are: \\n \\t \\r \\b \\f \\0 \\\\ \\\" \\' \\uXXXX"
  | .invalidCharacter _ => some "A character literal holds exactly one character"

def message (e : LexError) : String := e.description ++ " at " ++ e.span.text

/-- The description with the line of the source it is about, and the hint. -/
def report (source : String) (e : LexError) : String :=
  "Error at " ++ e.span.text ++ ": " ++ e.description ++ "\n" ++ e.span.excerpt source
    ++ (match e.hint? with
      | none => ""
      | some hint => "\nHint: " ++ hint ++ "\n")

def reportAll (source : String) (errors : List LexError) : String :=
  String.intercalate "\n" (errors.map (report source))

end LexError

namespace Source

def isLayout (c : Char) : Bool :=
  c == ' ' || c == '\t' || c == '\r' || c == '\n' || c == '\x0c'

def isNameStart (c : Char) : Bool :=
  ('a' ≤ c && c ≤ 'z') || ('A' ≤ c && c ≤ 'Z') || c == '_' || c == '$'

def isDigit (c : Char) : Bool := '0' ≤ c && c ≤ '9'

def isNamePart (c : Char) : Bool := isNameStart c || isDigit c

def digitsValue (cs : List Char) : Nat :=
  cs.foldl (fun acc c => 10 * acc + (c.toNat - '0'.toNat)) 0

/-- What a stretch of text is. -/
inductive Piece
  | blank
  | token (t : Token)
  | bad (cause : LexCause)

/-- The word as keyword, primitive type or identifier. -/
def wordToken (word : String) : Token :=
  match Keyword.all.find? (·.text == word) with
  | some k => .keyword k
  | none =>
    match Primitive.ofKeyword? word with
    | some p => .primitive p
    | none => .identifier word

/-- The parts of a decimal number: digits, digits after the point, exponent, suffix. -/
structure Numeral where
  whole : List Char
  places : List Char
  exponentMark : List Char
  exponentDigits : List Char
  suffix : List Char

namespace Numeral

/-- Point and digits at the start of a text. -/
def takePlaces : List Char → List Char
  | '.' :: cs => cs.takeWhile isDigit
  | _ => []

/-- Mark, sign and digits of an exponent at the start of a text. -/
def takeExponent : List Char → List Char × List Char
  | e :: s :: cs =>
    if e = 'e' ∨ e = 'E' then
      if isDigit s then ([e], (s :: cs).takeWhile isDigit)
      else if (s = '+' ∨ s = '-') ∧ (cs.takeWhile isDigit) ≠ [] then ([e, s], cs.takeWhile isDigit)
      else ([], [])
    else ([], [])
  | _ => ([], [])

def takeSuffix (integral : Bool) : List Char → List Char
  | c :: _ =>
    if c ∈ ['f', 'F', 'd', 'D'] ∨ (integral ∧ c ∈ ['l', 'L']) then [c] else []
  | [] => []

/-- The longest number at the start of a text that starts with a digit. -/
def read (cs : List Char) : Numeral :=
  let whole := cs.takeWhile isDigit
  let afterWhole := cs.drop whole.length
  let places := takePlaces afterWhole
  let afterPlaces := if places.isEmpty then afterWhole else afterWhole.drop (places.length + 1)
  let (mark, digits) := takeExponent afterPlaces
  let afterExponent := afterPlaces.drop (mark.length + digits.length)
  ⟨whole, places, mark, digits, takeSuffix (places.isEmpty && mark.isEmpty) afterExponent⟩

/-- The characters it was read from. -/
def chars (n : Numeral) : List Char :=
  n.whole ++ (if n.places.isEmpty then [] else '.' :: n.places) ++ n.exponentMark
    ++ n.exponentDigits ++ n.suffix

def exponent (n : Numeral) : Int :=
  if n.exponentMark.contains '-' then -(digitsValue n.exponentDigits : Int)
  else digitsValue n.exponentDigits

def decimal (n : Numeral) : Decimal :=
  ⟨digitsValue (n.whole ++ n.places), n.exponent - n.places.length⟩

/-- The literal, unless its value is out of range. -/
def token? (n : Numeral) : Option Token :=
  let real := !n.places.isEmpty || !n.exponentMark.isEmpty
  match n.suffix with
  | ['f'] | ['F'] =>
    let value : Binary32 := n.decimal.toBinary false
    if value.isFinite then some (.float value) else none
  | ['l'] | ['L'] =>
    let value := digitsValue n.whole
    if value < Nat.pow 2 63 then some (.long (Int64.ofNat value)) else none
  | suffix =>
    if real || !suffix.isEmpty then
      let value : Binary64 := n.decimal.toBinary false
      if value.isFinite then some (.double value) else none
    else
      let value := digitsValue n.whole
      if value ≤ Nat.pow 2 31 then some (.int value) else none

end Numeral

/-- How many characters belong to the body of a literal that `quote` closes. -/
def quotedLength (quote : Char) : List Char → Nat
  | '\\' :: c :: cs => if c = '\n' then 0 else 2 + quotedLength quote cs
  | c :: cs => if c = quote ∨ c = '\n' ∨ c = '\\' then 0 else 1 + quotedLength quote cs
  | [] => 0

/-- How many characters there are through the first `*/`. -/
def commentLength? : List Char → Option Nat
  | '*' :: '/' :: _ => some 2
  | _ :: cs => (commentLength? cs).map (· + 1)
  | [] => none

def stringPiece (body : List Char) : Piece :=
  match Text.unescape body with
  | .ok cs => .token (.string (String.ofList cs))
  | .error e => .bad (.invalidEscape (String.ofList e))

def charPiece (body : List Char) : Piece :=
  match Text.unescape body with
  | .ok [c] => .token (.char c)
  | .ok _ => .bad (.invalidCharacter (String.ofList ('\x27' :: body ++ ['\x27'])))
  | .error e => .bad (.invalidEscape (String.ofList e))

/-- A literal behind an opening quote: how many characters it takes and what it is. Without a
closing quote the whole stretch is `unclosed`. -/
def quotedPiece (quote : Char) (closed : List Char → Piece) (unclosed : Piece) (cs : List Char) :
    Nat × Piece :=
  let n := quotedLength quote cs
  if (cs.drop n).head? = some quote then (n + 1, closed (cs.take n)) else (n, unclosed)

/-- The longest sign that starts with `c`. -/
def symbolAt (c : Char) (cs : List Char) : Nat × Piece :=
  match cs.head?.bind (fun d => Symbol.all.find? (·.chars == [c, d])) with
  | some s => (1, .token (.symbol s))
  | none =>
    match Symbol.all.find? (·.chars == [c]) with
    | some s => (0, .token (.symbol s))
    | none => (0, .bad (.unexpectedCharacter c))

/-- The piece of a text that starts with `c` and goes on with `cs`, and how many characters of `cs`
belong to it. -/
def pieceAt (c : Char) (cs : List Char) : Nat × Piece :=
  if isLayout c then ((cs.takeWhile isLayout).length, .blank)
  else if c = '/' ∧ cs.head? = some '/' then ((cs.takeWhile (· ≠ '\n')).length, .blank)
  else if c = '/' ∧ cs.head? = some '*' then
    match commentLength? (cs.drop 1) with
    | some n => (n + 1, .blank)
    | none => (cs.length, .bad .unterminatedComment)
  else if isNameStart c then
    let word := c :: cs.takeWhile isNamePart
    (word.length - 1, .token (wordToken (String.ofList word)))
  else if isDigit c then
    let n := Numeral.read (c :: cs)
    (n.chars.length - 1, match n.token? with
      | some t => .token t
      | none => .bad (.invalidNumber (String.ofList n.chars)))
  else if c = '"' then quotedPiece c stringPiece (.bad .unterminatedString) cs
  else if c = '\x27' then quotedPiece c charPiece (.bad (.unexpectedCharacter c)) cs
  else symbolAt c cs

/-- What there is between two offsets of a source. -/
structure Stretch (α : Type) where
  what : α
  start : Nat
  stop : Nat

/-- Tokens and errors of a text that starts at an offset, in order; the last part is the offset at
which it ends. -/
def stretchesFrom (start : Nat) : List Char → List (Stretch Token) × List (Stretch LexCause) × Nat
  | [] => ([], [], start)
  | c :: cs =>
    let (n, piece) := pieceAt c cs
    let stop := start + Text.byteSize (c :: cs.take n)
    let (tokens, errors, last) := stretchesFrom stop (cs.drop n)
    match piece with
    | .blank => (tokens, errors, last)
    | .token t => (⟨t, start, stop⟩ :: tokens, errors, last)
    | .bad cause => (tokens, ⟨cause, start, stop⟩ :: errors, last)
termination_by cs => cs.length
decreasing_by simp only [List.length_drop, List.length_cons]; omega

end Source

/-- The tokens of a source and the empty stretch behind the last character. -/
structure Lexed where
  tokens : List Lexeme
  finish : Span
deriving DecidableEq

/-- The tokens of a source, or everything in it that is no token. -/
def Source.scan (source : String) : Except (List LexError) Lexed :=
  let text := Text.chars source
  let index := LineIndex.ofText text
  match stretchesFrom 0 text with
  | (tokens, [], last) =>
    .ok ⟨tokens.map fun t => ⟨t.what, index.span t.start t.stop⟩, index.span last last⟩
  | (_, errors, _) => .error (errors.map fun e => ⟨e.what, index.span e.start e.stop⟩)

end Classwright
