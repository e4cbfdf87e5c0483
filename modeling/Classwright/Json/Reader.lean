import Classwright.Json.Basic

/-!
# Reading JSON

`Json.parse?` reads a whole document. Each function returns what it read and the rest of the text,
which is shorter.
-/

namespace Classwright.Json

/-- The result of reading at the start of `s`. -/
abbrev Read (α : Type) (s : List Char) := Option (α × { rest : List Char // rest.length < s.length })

def isSpace (c : Char) : Bool := c == ' ' || c == '\n' || c == '\t' || c == '\r'

def skipSpace (s : List Char) : { rest : List Char // rest.length ≤ s.length } :=
  ⟨s.dropWhile isSpace, List.Sublist.length_le (List.dropWhile_sublist _)⟩

def isDigit (c : Char) : Bool := '0' ≤ c && c ≤ '9'

/-- Exponent at the start of a text: the sign and at least one digit. The number of characters
comes with it. -/
def takeExponent (s : List Char) : Option (Bool × List Char × Nat) :=
  let signed := s.head? == some '-' || s.head? == some '+'
  let digits := (if signed then s.drop 1 else s).takeWhile isDigit
  if digits.isEmpty then none
  else some (s.head? == some '-', digits, digits.length + (if signed then 1 else 0))

/-- Point and digits at the start of a text; a point without digits is wrong. -/
def takePlaces (s : List Char) : Option (List Char) :=
  match s with
  | '.' :: cs => if (cs.takeWhile isDigit).isEmpty then none else some (cs.takeWhile isDigit)
  | _ => some []

/-- The number at the start of a text, and how many characters it takes. No digit follows a
leading zero, and digits follow point and exponent. -/
def readNumber (s : List Char) : Option (JsonNumber × Nat) :=
  let negative := s.head? == some '-'
  let signLength := if negative then 1 else 0
  let whole := (s.drop signLength).takeWhile isDigit
  if whole.isEmpty || (1 < whole.length && whole.head? == some '0') then none
  else
    let afterWhole := s.drop (signLength + whole.length)
    (takePlaces afterWhole).bind fun places =>
      let placesLength := if places.isEmpty then 0 else places.length + 1
      let length := signLength + whole.length + placesLength
      match afterWhole.drop placesLength with
      | c :: cs =>
        if c = 'e' ∨ c = 'E' then
          (takeExponent cs).map fun (below, digits, n) =>
            (⟨negative, whole, places, some (below, digits)⟩, length + 1 + n)
        else some (⟨negative, whole, places, none⟩, length)
      | [] => some (⟨negative, whole, places, none⟩, length)

/-- Sixteen bits from four hexadecimal digits. -/
def unit16? (s : List Char) : Option Nat :=
  if (s.take 4).length = 4 then Text.hexNumeral (s.take 4) else none

def isHighSurrogate (u : Nat) : Bool := 0xD800 ≤ u && u < 0xDC00

def isLowSurrogate (u : Nat) : Bool := 0xDC00 ≤ u && u < 0xE000

/-- The unit written as `\uXXXX` at the start of a text. -/
def escapedUnit? : List Char → Option Nat
  | '\\' :: 'u' :: cs => unit16? cs
  | _ => none

/-- The character behind a backslash that stands for one other character. -/
def simpleEscape? (c : Char) : Option Char :=
  match c with
  | '"' => some '"'
  | '\\' => some '\\'
  | '/' => some '/'
  | 'b' => some '\x08'
  | 'f' => some '\x0c'
  | 'n' => some '\n'
  | 'r' => some '\r'
  | 't' => some '\t'
  | _ => none

/-- The character of a string at the start of a text and how many characters spell it. The
character is missing where the escapes name half of a surrogate pair. -/
def readChar (s : List Char) : Option (Option Char × Nat) :=
  match s with
  | '\\' :: 'u' :: cs =>
    (unit16? cs).bind fun u =>
      if isHighSurrogate u then
        match escapedUnit? (cs.drop 4) with
        | some v =>
          if isLowSurrogate v then
            some (some (Char.ofNat (0x10000 + (u - 0xD800) * 0x400 + (v - 0xDC00))), 12)
          else some (none, 6)
        | none => some (none, 6)
      else if isLowSurrogate u then some (none, 6)
      else some (some (Char.ofNat u), 6)
  | '\\' :: c :: _ => (simpleEscape? c).map fun d => (some d, 2)
  | c :: _ => if c.toNat < 0x20 ∨ c = '\\' then none else some (some c, 1)
  | [] => none

theorem length_lt_cons (c : Char) (cs : List Char) : cs.length < (c :: cs).length :=
  Nat.lt_succ_self _

/-- What is left behind some characters is shorter than the text that they start. -/
theorem length_lt_of_drop {rest cs : List Char} {n : Nat} (c : Char)
    (h : rest.length < (cs.drop (n - 1)).length) : rest.length < (c :: cs).length := by
  rw [List.length_drop] at h
  rw [List.length_cons]
  omega

/-- The characters of a string behind its opening quote. -/
def readString (s : List Char) : Read (Option (List Char)) s :=
  match s with
  | [] => none
  | c :: cs =>
    if c = '"' then some (some [], ⟨cs, length_lt_cons c cs⟩)
    else
      (readChar (c :: cs)).bind fun (d, n) =>
        (readString (cs.drop (n - 1))).map fun (text, ⟨rest, h⟩) =>
          (do return (← d) :: (← text), ⟨rest, length_lt_of_drop c h⟩)
termination_by s.length
decreasing_by simp only [List.length_drop, List.length_cons]; omega

mutual

/-- Reads a value; white space may stand before it. -/
def readValue (s : List Char) : Read Json s :=
  match h : (skipSpace s).val with
  | [] => none
  | c :: cs =>
    have hc : cs.length < s.length := by
      have := (skipSpace s).property
      simp [h] at this; omega
    if c = '"' then
      (readString cs).map fun (text, ⟨rest, hr⟩) =>
        (.string (text.map String.ofList), ⟨rest, by omega⟩)
    else if c = '[' then
      match h' : (skipSpace cs).val with
      | ']' :: rest =>
        some (.array [], ⟨rest, by have := (skipSpace cs).property; simp [h'] at this; omega⟩)
      | _ => (readItems cs).map fun (items, ⟨rest, hr⟩) => (.array items, ⟨rest, by omega⟩)
    else if c = '{' then
      match h' : (skipSpace cs).val with
      | '}' :: rest =>
        some (.object [], ⟨rest, by have := (skipSpace cs).property; simp [h'] at this; omega⟩)
      | _ => (readFields cs).map fun (fields, ⟨rest, hr⟩) => (.object fields, ⟨rest, by omega⟩)
    else if c = 't' ∧ ['r', 'u', 'e'].isPrefixOf cs then
      some (.bool true, ⟨cs.drop 3, by simp; omega⟩)
    else if c = 'f' ∧ ['a', 'l', 's', 'e'].isPrefixOf cs then
      some (.bool false, ⟨cs.drop 4, by simp; omega⟩)
    else if c = 'n' ∧ ['u', 'l', 'l'].isPrefixOf cs then
      some (.null, ⟨cs.drop 3, by simp; omega⟩)
    else
      (readNumber (c :: cs)).map fun (n, length) =>
        (.number n, ⟨cs.drop (length - 1), by simp; omega⟩)
termination_by 2 * s.length
decreasing_by all_goals omega

/-- Reads the values of a list and its closing bracket. -/
def readItems (s : List Char) : Read (List Json) s :=
  (readValue s).bind fun (item, ⟨rest, hr⟩) =>
    match h : (skipSpace rest).val with
    | ',' :: more =>
      have hm : more.length < s.length := by
        have := (skipSpace rest).property
        simp [h] at this; omega
      (readItems more).map fun (items, ⟨last, hl⟩) => (item :: items, ⟨last, by omega⟩)
    | ']' :: more =>
      some ([item], ⟨more, by have := (skipSpace rest).property; simp [h] at this; omega⟩)
    | _ => none
termination_by 2 * s.length + 1
decreasing_by all_goals omega

/-- Reads the fields of an object and its closing brace. -/
def readFields (s : List Char) : Read (List (Option String × Json)) s :=
  match h : (skipSpace s).val with
  | '"' :: cs =>
    have hc : cs.length < s.length := by
      have := (skipSpace s).property
      simp [h] at this; omega
    (readString cs).bind fun (key, ⟨afterKey, hk⟩) =>
      match h' : (skipSpace afterKey).val with
      | ':' :: afterColon =>
        have ha : afterColon.length < s.length := by
          have := (skipSpace afterKey).property
          simp [h'] at this; omega
        (readValue afterColon).bind fun (value, ⟨rest, hr⟩) =>
          match h'' : (skipSpace rest).val with
          | ',' :: more =>
            have hm : more.length < s.length := by
              have := (skipSpace rest).property
              simp [h''] at this; omega
            (readFields more).map fun (fields, ⟨last, hl⟩) =>
              ((key.map String.ofList, value) :: fields, ⟨last, by omega⟩)
          | '}' :: more =>
            some ([(key.map String.ofList, value)],
              ⟨more, by have := (skipSpace rest).property; simp [h''] at this; omega⟩)
          | _ => none
      | _ => none
  | _ => none
termination_by 2 * s.length + 1
decreasing_by all_goals omega

end

/-- The document that a text is, if it is one and nothing else. -/
def parse? (text : String) : Option Json :=
  (readValue text.toList).bind fun (j, ⟨rest, _⟩) =>
    if rest.all isSpace then some j else none

end Classwright.Json
