import Classwright.Text.Escape

/-!
# TOML scalars

Strings in their four notations, and the words that stand for numbers, truth values and moments.
Each reader takes characters from the front of a text and gives what is left.
-/

namespace Classwright.Toml

inductive Scalar
  | text (value : String)
  | integer (value : Int)
  | fraction (word : String)
  | boolean (value : Bool)
  | moment (word : String)
deriving DecidableEq, Repr

/-- What a reader has read, and the rest of the text. -/
abbrev Reads (α : Type) := Option (α × List Char)

/-- Characters that no text or comment may hold as they are. -/
def isControl (c : Char) : Bool := (c.toNat < 0x20 && c != '\t') || c.toNat = 0x7f

def isSpace (c : Char) : Bool := c == ' ' || c == '\t'

def skipSpace (cs : List Char) : List Char := cs.dropWhile isSpace

/-- The rest after a line end. -/
def lineEnd? : List Char → Option (List Char)
  | '\n' :: cs => some cs
  | '\r' :: '\n' :: cs => some cs
  | _ => none

/-- The character of an escape of one letter. -/
def shortEscape? : Char → Option Char
  | 'b' => some '\x08'
  | 't' => some '\t'
  | 'n' => some '\n'
  | 'f' => some '\x0c'
  | 'r' => some '\r'
  | '"' => some '"'
  | '\\' => some '\\'
  | _ => none

/-- The character whose code has this many hexadecimal digits at the front. -/
def codeEscape? (digits : Nat) (cs : List Char) : Option Char :=
  if digits ≤ cs.length then (Text.hexNumeral (cs.take digits)).bind Text.charOfCode? else none

def putFront (c : Char) (r : Reads (List Char)) : Reads (List Char) :=
  r.map fun (read, rest) => (c :: read, rest)

/-- The rest of a string in double quotes. -/
def basic : List Char → Reads (List Char)
  | [] => none
  | '"' :: cs => some ([], cs)
  | '\\' :: 'u' :: cs => (codeEscape? 4 cs).bind fun c => putFront c (basic (cs.drop 4))
  | '\\' :: 'U' :: cs => (codeEscape? 8 cs).bind fun c => putFront c (basic (cs.drop 8))
  | '\\' :: e :: cs => (shortEscape? e).bind fun c => putFront c (basic cs)
  | c :: cs => if isControl c then none else putFront c (basic cs)
termination_by cs => cs.length

/-- The rest of a string in single quotes, in which nothing is escaped. -/
def literal : List Char → Reads (List Char)
  | [] => none
  | '\x27' :: cs => some ([], cs)
  | c :: cs => if isControl c then none else putFront c (literal cs)

/-- What follows a run of quotes inside a string of several lines: three of them end the string, and
up to two more belong to it. -/
inductive QuoteRun
  | inside (count : Nat)
  | closing (count : Nat)
  | tooMany

def quoteRun (quote : Char) (cs : List Char) : QuoteRun :=
  let n := (cs.takeWhile (· == quote)).length
  if n < 3 then .inside n else if n ≤ 5 then .closing n else .tooMany

/-- The rest after a backslash that ends a line: white space up to the next character. -/
def joinedLine? (cs : List Char) : Option (List Char) :=
  (lineEnd? (skipSpace cs)).map fun rest =>
    rest.dropWhile fun c => isSpace c || c == '\n' || c == '\r'

theorem length_dropWhile_le (p : Char → Bool) (cs : List Char) :
    (cs.dropWhile p).length ≤ cs.length := (List.dropWhile_sublist p).length_le

theorem length_lineEnd {cs rest : List Char} (h : lineEnd? cs = some rest) :
    rest.length < cs.length := by
  unfold lineEnd? at h
  split at h <;> grind

theorem length_joinedLine {cs rest : List Char} (h : joinedLine? cs = some rest) :
    rest.length < cs.length := by
  simp only [joinedLine?, Option.map_eq_some_iff] at h
  obtain ⟨r, hr, rfl⟩ := h
  have := length_lineEnd hr
  have := length_dropWhile_le isSpace cs
  have := length_dropWhile_le (fun c => isSpace c || c == '\n' || c == '\r') r
  simp only [skipSpace] at *
  omega

/-- The rest of a string in three double quotes. -/
def basicLines : List Char → Reads (List Char)
  | [] => none
  | '\\' :: 'u' :: cs => (codeEscape? 4 cs).bind fun c => putFront c (basicLines (cs.drop 4))
  | '\\' :: 'U' :: cs => (codeEscape? 8 cs).bind fun c => putFront c (basicLines (cs.drop 8))
  | '\\' :: e :: cs =>
    match h : joinedLine? (e :: cs) with
    | some rest =>
      have := length_joinedLine h
      basicLines rest
    | none => (shortEscape? e).bind fun c => putFront c (basicLines cs)
  | '\r' :: '\n' :: cs => putFront '\n' (basicLines cs)
  | '"' :: cs =>
    match quoteRun '"' ('"' :: cs) with
    | .inside _ => putFront '"' (basicLines cs)
    | .closing n => some (List.replicate (n - 3) '"', cs.drop (n - 1))
    | .tooMany => none
  | c :: cs => if isControl c && c != '\n' then none else putFront c (basicLines cs)
termination_by cs => cs.length
decreasing_by all_goals simp_all; try omega

/-- The rest of a string in three single quotes. -/
def literalLines : List Char → Reads (List Char)
  | [] => none
  | '\r' :: '\n' :: cs => putFront '\n' (literalLines cs)
  | '\x27' :: cs =>
    match quoteRun '\x27' ('\x27' :: cs) with
    | .inside _ => putFront '\x27' (literalLines cs)
    | .closing n => some (List.replicate (n - 3) '\x27', cs.drop (n - 1))
    | .tooMany => none
  | c :: cs => if isControl c && c != '\n' then none else putFront c (literalLines cs)

/-- A line end right behind the opening quotes is no part of the string. -/
def dropLineEnd (cs : List Char) : List Char := (lineEnd? cs).getD cs

/-- A string on one line, as keys may be. -/
def quoted : List Char → Reads String
  | '"' :: cs => (basic cs).map fun (read, rest) => (String.ofList read, rest)
  | '\x27' :: cs => (literal cs).map fun (read, rest) => (String.ofList read, rest)
  | _ => none

def string : List Char → Reads String
  | '"' :: '"' :: '"' :: cs =>
    (basicLines (dropLineEnd cs)).map fun (read, rest) => (String.ofList read, rest)
  | '\x27' :: '\x27' :: '\x27' :: cs =>
    (literalLines (dropLineEnd cs)).map fun (read, rest) => (String.ofList read, rest)
  | cs => quoted cs

/-! ## Numbers and moments -/

def isDigit (c : Char) : Bool := '0' ≤ c && c ≤ '9'

/-- Digits that single underscores may separate. -/
def grouped (isDigit : Char → Bool) : List Char → Option (List Char)
  | [] => none
  | [c] => if isDigit c then some [c] else none
  | c :: '_' :: cs => if isDigit c then (grouped isDigit cs).map (c :: ·) else none
  | c :: cs => if isDigit c then (grouped isDigit cs).map (c :: ·) else none

def unsigned : List Char → Bool × List Char
  | '+' :: cs => (false, cs)
  | '-' :: cs => (true, cs)
  | cs => (false, cs)

def natOfDigits (base : Nat) (ds : List Char) : Nat :=
  ds.foldl (fun n c => base * n + (Text.hexValue c).getD 0) 0

/-- Decimal digits without a zero in front of others. -/
def decimalDigits (cs : List Char) : Option (List Char) :=
  (grouped isDigit cs).filter fun ds => ds.length = 1 || ds.head? != some '0'

def inBase (base : Nat) (cs : List Char) : Option Int :=
  (grouped (fun c => decide ((Text.hexValue c).getD base < base)) cs).map
    fun ds => natOfDigits base ds

def integer? (word : List Char) : Option Int :=
  let value := match word with
    | '0' :: 'x' :: cs => inBase 16 cs
    | '0' :: 'o' :: cs => inBase 8 cs
    | '0' :: 'b' :: cs => inBase 2 cs
    | word =>
      let (negative, cs) := unsigned word
      (decimalDigits cs).map fun ds =>
        if negative then -(natOfDigits 10 ds : Int) else natOfDigits 10 ds
  value.filter fun i => Int64.minValue.toInt ≤ i && i ≤ Int64.maxValue.toInt

def isExponent (cs : List Char) : Bool := (grouped isDigit (unsigned cs).2).isSome

/-- Whether a word is a number with a point or an exponent, or one that is none. -/
def isFraction (word : List Char) : Bool :=
  let cs := (unsigned word).2
  if cs = ['i', 'n', 'f'] ∨ cs = ['n', 'a', 'n'] then true
  else
    let isMark (c : Char) : Bool := c == 'e' || c == 'E'
    let mantissa := cs.takeWhile fun c => !isMark c
    let exponent := (cs.dropWhile fun c => !isMark c).drop 1
    let hasExponent := mantissa.length < cs.length
    let whole := mantissa.takeWhile (· != '.')
    let places := (mantissa.dropWhile (· != '.')).drop 1
    let hasPlaces := whole.length < mantissa.length
    (hasExponent || hasPlaces) && (decimalDigits whole).isSome
      && (!hasPlaces || (grouped isDigit places).isSome) && (!hasExponent || isExponent exponent)

/-- The number of two digits, if it lies in the bounds. -/
def twoDigits? (lo hi : Nat) : List Char → Option Nat
  | [a, b] =>
    if isDigit a && isDigit b then (some (natOfDigits 10 [a, b])).filter fun n => lo ≤ n && n ≤ hi
    else none
  | _ => none

def isLeapYear (year : Nat) : Bool := year % 4 = 0 && (year % 100 != 0 || year % 400 = 0)

def daysInMonth (year month : Nat) : Nat :=
  if month = 2 then (if isLeapYear year then 29 else 28)
  else if [4, 6, 9, 11].contains month then 30 else 31

def isDate (cs : List Char) : Bool :=
  match cs with
  | [y1, y2, y3, y4, '-', m1, m2, '-', d1, d2] =>
    [y1, y2, y3, y4].all isDigit &&
      match twoDigits? 1 12 [m1, m2] with
      | none => false
      | some month =>
        (twoDigits? 1 (daysInMonth (natOfDigits 10 [y1, y2, y3, y4]) month) [d1, d2]).isSome
  | _ => false

def isTime (cs : List Char) : Bool :=
  match cs with
  | h1 :: h2 :: ':' :: m1 :: m2 :: ':' :: s1 :: s2 :: places =>
    (twoDigits? 0 23 [h1, h2]).isSome && (twoDigits? 0 59 [m1, m2]).isSome
      && (twoDigits? 0 60 [s1, s2]).isSome
      && (match places with
        | [] => true
        | '.' :: ds => !ds.isEmpty && ds.all isDigit
        | _ => false)
  | _ => false

/-- The distance of a clock from universal time. -/
def isOffset : List Char → Bool
  | ['Z'] => true
  | ['z'] => true
  | [sign, h1, h2, ':', m1, m2] =>
    (sign == '+' || sign == '-') && (twoDigits? 0 24 [h1, h2]).isSome
      && (twoDigits? 0 59 [m1, m2]).isSome
  | _ => false

/-- A time that an offset may follow. -/
def isZonedTime (cs : List Char) : Bool :=
  let clock := cs.takeWhile fun c => isDigit c || c == ':' || c == '.'
  let offset := cs.drop clock.length
  isTime clock && (offset.isEmpty || isOffset offset)

def isMoment (word : List Char) : Bool :=
  isDate word || isTime word ||
    (isDate (word.take 10) &&
      match word.drop 10 with
      | 'T' :: time => isZonedTime time
      | 't' :: time => isZonedTime time
      | ' ' :: time => isZonedTime time
      | _ => false)

def isWordChar (c : Char) : Bool :=
  isDigit c || ('a' ≤ c && c ≤ 'z') || ('A' ≤ c && c ≤ 'Z') || ['+', '-', '_', '.', ':'].contains c

/-- A word; that of a moment may have a blank between date and time. -/
def word (cs : List Char) : List Char × List Char :=
  let first := cs.takeWhile isWordChar
  match cs.drop first.length with
  | ' ' :: d :: rest =>
    if isDate first && isDigit d then
      let time := (d :: rest).takeWhile isWordChar
      (first ++ ' ' :: time, (d :: rest).drop time.length)
    else (first, ' ' :: d :: rest)
  | rest => (first, rest)

def scalar (cs : List Char) : Reads Scalar :=
  match cs with
  | '"' :: _ => (string cs).map fun (s, rest) => (.text s, rest)
  | '\x27' :: _ => (string cs).map fun (s, rest) => (.text s, rest)
  | cs =>
    let (w, rest) := word cs
    if w = "true".toList then some (.boolean true, rest)
    else if w = "false".toList then some (.boolean false, rest)
    else
      match integer? w with
      | some i => some (.integer i, rest)
      | none =>
        if isFraction w then some (.fraction (String.ofList w), rest)
        else if isMoment w then some (.moment (String.ofList w), rest)
        else none

end Classwright.Toml
