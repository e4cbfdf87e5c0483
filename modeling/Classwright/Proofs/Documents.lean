import Classwright.Json.Reader
import Classwright.Json.Writer
import Mathlib.Algebra.Group.Int.Defs
import Mathlib.Data.List.TakeWhile

/-!
# A document is read as it was written

Reading the pretty form of a document gives the document back, as deep as its lists and objects
nest. Only the numbers and texts in it have to be such as are written: digits of the usual form, and
no half of a surrogate pair.
-/

namespace Classwright

namespace Json

/-- What was read and the rest of the text. -/
def outcome {α : Type} {s : List Char} (r : Read α s) : Option (α × List Char) :=
  r.map fun p => (p.1, p.2.val)

theorem outcome_eq_some {α : Type} {s : List Char} {r : Read α s} {a : α} {rest : List Char}
    (h : outcome r = some (a, rest)) : ∃ shorter, r = some (a, ⟨rest, shorter⟩) := by
  obtain ⟨⟨a', ⟨rest', shorter⟩⟩, rfl, same⟩ := Option.map_eq_some_iff.1 h
  cases same
  exact ⟨shorter, rfl⟩

/-! ### Texts -/

theorem unit16?_control : ∀ n < 32, unit16? ['0', '0', Nat.digitChar (n / 16),
    Nat.digitChar (n % 16)] = some n := by
  decide

/-- A unit that is no half of a pair is a character. -/
theorem readChar_escape {cs : List Char} {u : Nat} (unit : unit16? cs = some u)
    (noHigh : isHighSurrogate u = false) (noLow : isLowSurrogate u = false) :
    readChar ('\\' :: 'u' :: cs) = some (some (Char.ofNat u), 6) := by
  simp [readChar, unit, noHigh, noLow]

/-- A character inside quotes is read as the character that was quoted. -/
theorem readChar_quoteChar (c : Char) (rest : List Char) :
    readChar (quoteChar c ++ rest) = some (some c, (quoteChar c).length) := by
  unfold quoteChar
  split
  iterate 7 rfl
  rename_i notQuote notBackslash _ _ _ _ _
  split
  · rename_i control
    have unit := unit16?_control c.toNat control
    have small : isHighSurrogate c.toNat = false ∧ isLowSurrogate c.toNat = false := by
      simp only [isHighSurrogate, isLowSurrogate, Bool.and_eq_false_iff, decide_eq_false_iff_not]
      omega
    have escaped : unit16? (['0', '0', Nat.digitChar (c.toNat / 16),
        Nat.digitChar (c.toNat % 16)] ++ rest) = some c.toNat := unit
    have same := readChar_escape escaped small.1 small.2
    rw [Char.ofNat_toNat] at same
    exact same
  · rename_i printed
    rw [List.singleton_append]
    unfold readChar
    split
    · rename_i same
      exact absurd (List.cons.inj same).1 notBackslash
    · rename_i same
      exact absurd (List.cons.inj same).1 notBackslash
    · rename_i same
      cases same
      rw [if_neg (not_or.2 ⟨printed, notBackslash⟩)]
      rfl
    · rename_i same
      cases same

theorem quoteChar_eq_cons (c : Char) : ∃ k ks, quoteChar c = k :: ks ∧ k ≠ '"' := by
  unfold quoteChar
  split
  iterate 7 exact ⟨_, _, rfl, by decide⟩
  rename_i notQuote _ _ _ _ _ _
  split
  · exact ⟨_, _, rfl, by decide⟩
  · exact ⟨_, _, rfl, notQuote⟩

theorem outcome_readString_cons {k : Char} {ks : List Char} (more : k ≠ '"') {d : Option Char}
    {n : Nat} (first : readChar (k :: ks) = some (d, n)) :
    outcome (readString (k :: ks)) = (outcome (readString (ks.drop (n - 1)))).map fun p =>
      (do return (← d) :: (← p.1), p.2) := by
  rw [readString]
  simp only [more, if_false, first, Option.bind_some]
  cases readString (ks.drop (n - 1)) with
  | none => rfl
  | some p => rfl

/-- The characters between quotes are those that were quoted. -/
theorem readString_quote (cs rest : List Char) :
    outcome (readString (cs.flatMap quoteChar ++ '"' :: rest)) = some (some cs, rest) := by
  induction cs with
  | nil =>
    rw [List.flatMap_nil, List.nil_append, readString]
    rfl
  | cons c cs ih =>
    obtain ⟨k, ks, quoted, more⟩ := quoteChar_eq_cons c
    have first := readChar_quoteChar c (cs.flatMap quoteChar ++ '"' :: rest)
    rw [List.flatMap_cons, List.append_assoc]
    rw [quoted, List.cons_append] at first ⊢
    rw [outcome_readString_cons more first, List.length_cons, Nat.add_sub_cancel,
      List.drop_left, ih]
    rfl

/-! ### Numbers -/

/-- The text goes on with nothing that belongs to a number in front of it. -/
def EndsNumber (rest : List Char) : Prop :=
  ∀ c ∈ rest.head?, isDigit c = false ∧ c ≠ '.' ∧ c ≠ 'e' ∧ c ≠ 'E'

end Json

/-- Digits as they are written: at least one, no zero in front of others, and none missing behind
an exponent. -/
structure JsonNumber.Written (n : JsonNumber) : Prop where
  whole : ∀ c ∈ n.whole, Json.isDigit c = true
  nonempty : n.whole ≠ []
  leading : n.whole.head? = some '0' → n.whole.length = 1
  places : ∀ c ∈ n.places, Json.isDigit c = true
  exponent : ∀ e ∈ n.exponent, e.2 ≠ [] ∧ ∀ c ∈ e.2, Json.isDigit c = true

namespace Json

theorem takeWhile_digits {ds rest : List Char} (digits : ∀ c ∈ ds, isDigit c = true)
    (ends : ∀ c ∈ rest.head?, isDigit c = false) : (ds ++ rest).takeWhile isDigit = ds := by
  rw [List.takeWhile_append_of_pos digits]
  cases rest with
  | nil => simp
  | cons c rest => rw [List.takeWhile_cons_of_neg (by simp [ends c rfl]), List.append_nil]

theorem takePlaces_written {places rest : List Char} (digits : ∀ c ∈ places, isDigit c = true)
    (ends : ∀ c ∈ rest.head?, isDigit c = false ∧ c ≠ '.') :
    takePlaces ((if places.isEmpty then [] else '.' :: places) ++ rest) = some places := by
  cases places with
  | nil =>
    cases rest with
    | nil => rfl
    | cons c rest =>
      have notPoint := (ends c rfl).2
      unfold takePlaces
      split
      · rename_i same
        exact absurd (List.cons.inj same).1 notPoint
      · rfl
  | cons d ds =>
    have taken := takeWhile_digits digits fun c member => (ends c member).1
    simp only [List.isEmpty_cons, Bool.false_eq_true, if_false, List.cons_append] at taken ⊢
    simp [takePlaces, taken]

theorem takeExponent_written {below : Bool} {ds rest : List Char} (nonempty : ds ≠ [])
    (digits : ∀ c ∈ ds, isDigit c = true) (ends : ∀ c ∈ rest.head?, isDigit c = false) :
    takeExponent ((if below then ['-'] else []) ++ ds ++ rest)
      = some (below, ds, ds.length + if below then 1 else 0) := by
  have taken := takeWhile_digits digits ends
  cases below with
  | true => simp [takeExponent, taken, nonempty]
  | false =>
    cases ds with
    | nil => exact absurd rfl nonempty
    | cons d ds =>
      have isOne := digits d List.mem_cons_self
      have unsigned : d ≠ '-' ∧ d ≠ '+' := by
        constructor <;> rintro rfl <;> cases isOne
      simp only [List.cons_append] at taken
      simp [takeExponent, taken, unsigned.1, unsigned.2]

/-- Sign, whole digits and all that may stand behind them. -/
theorem readNumber_parts {negative : Bool} {whole places tail : List Char}
    (digits : ∀ c ∈ whole, isDigit c = true) (nonempty : whole ≠ [])
    (leading : whole.head? = some '0' → whole.length = 1)
    (ends : ∀ c ∈ tail.head?, isDigit c = false) (found : takePlaces tail = some places) :
    readNumber ((if negative then ['-'] else []) ++ whole ++ tail) =
      let length := (if negative then 1 else 0) + whole.length
        + if places.isEmpty then 0 else places.length + 1
      match tail.drop (if places.isEmpty then 0 else places.length + 1) with
      | c :: cs =>
        if c = 'e' ∨ c = 'E' then
          (takeExponent cs).map fun (below, digits, n) =>
            (⟨negative, whole, places, some (below, digits)⟩, length + 1 + n)
        else some (⟨negative, whole, places, none⟩, length)
      | [] => some (⟨negative, whole, places, none⟩, length) := by
  have taken := takeWhile_digits digits ends
  have usual : (whole.isEmpty || (1 < whole.length && whole.head? == some '0')) = false := by
    cases whole with
    | nil => exact absurd rfl nonempty
    | cons d ds =>
      by_cases zero : d = '0'
      · have one := leading (by rw [zero]; rfl)
        simp only [List.length_cons] at one
        simp [one]
      · simp [zero]
  have sign : (((if negative then ['-'] else []) ++ whole ++ tail).head? == some '-')
      = negative := by
    cases negative with
    | true => rfl
    | false =>
      cases whole with
      | nil => exact absurd rfl nonempty
      | cons d ds =>
        have isOne := digits d List.mem_cons_self
        simp only [Bool.false_eq_true, if_false, List.nil_append, List.cons_append,
          List.head?_cons, beq_eq_false_iff_ne, ne_eq, Option.some.injEq]
        rintro rfl
        cases isOne
  have behindSign : ((if negative then ['-'] else []) ++ whole ++ tail).drop
      (if negative then 1 else 0) = whole ++ tail := by
    cases negative <;> rfl
  unfold readNumber
  cases behind : tail.drop (if places.isEmpty then 0 else places.length + 1) <;>
    simp only [sign, behindSign, taken, usual, Bool.false_eq_true, if_false, ← List.drop_drop,
      List.drop_left, found, Option.bind_some, behind]

theorem length_chars (negative : Bool) (whole places : List Char)
    (exponent : Option (Bool × List Char)) :
    (JsonNumber.chars ⟨negative, whole, places, exponent⟩).length
      = (if negative then 1 else 0) + whole.length
        + (if places.isEmpty then 0 else places.length + 1)
        + (match exponent with
          | none => 0
          | some (below, ds) => 1 + (ds.length + if below then 1 else 0)) := by
  rcases exponent with _ | ⟨below, ds⟩
  · cases negative <;> cases places <;> simp [JsonNumber.chars] <;> omega
  · cases negative <;> cases places <;> cases below <;> simp [JsonNumber.chars] <;> omega

/-- A number is read as it was written, wherever the text goes on with something else. -/
theorem readNumber_chars {n : JsonNumber} (written : n.Written) {rest : List Char}
    (ends : EndsNumber rest) : readNumber (n.chars ++ rest) = some (n, n.chars.length) := by
  obtain ⟨negative, whole, places, exponent⟩ := n
  obtain ⟨wholeDigits, nonempty, leading, placeDigits, exponentDigits⟩ := written
  -- What stands behind the places: an exponent, or what ends the number.
  have assembled : ∀ power : List Char, (∀ c ∈ power.head?, isDigit c = false ∧ c ≠ '.') →
      readNumber ((if negative then ['-'] else []) ++ whole
        ++ ((if places.isEmpty then [] else '.' :: places) ++ power)) =
      let length := (if negative then 1 else 0) + whole.length
        + if places.isEmpty then 0 else places.length + 1
      match power with
      | c :: cs =>
        if c = 'e' ∨ c = 'E' then
          (takeExponent cs).map fun (below, digits, n) =>
            (⟨negative, whole, places, some (below, digits)⟩, length + 1 + n)
        else some (⟨negative, whole, places, none⟩, length)
      | [] => some (⟨negative, whole, places, none⟩, length) := by
    intro power apart
    have found := takePlaces_written placeDigits apart
    rw [readNumber_parts wholeDigits nonempty leading ?_ found]
    · cases places with
      | nil => rfl
      | cons d ds => simp
    · cases places with
      | nil => exact fun c member => (apart c member).1
      | cons d ds =>
        rintro c ⟨⟩
        rfl
  cases exponent with
  | none =>
    have plain := assembled rest fun c member => ⟨(ends c member).1, (ends c member).2.1⟩
    have text : JsonNumber.chars ⟨negative, whole, places, none⟩ ++ rest
        = (if negative then ['-'] else []) ++ whole
          ++ ((if places.isEmpty then [] else '.' :: places) ++ rest) := by
      simp [JsonNumber.chars]
    rw [text, plain, length_chars]
    cases rest with
    | nil => rfl
    | cons c rest => exact if_neg (not_or.2 (ends c rfl).2.2)
  | some e =>
    obtain ⟨below, ds⟩ := e
    obtain ⟨some_, digits⟩ := exponentDigits _ rfl
    have scaled := assembled ('e' :: ((if below then ['-'] else []) ++ ds ++ rest))
      (by rintro c ⟨⟩; decide)
    have power : takeExponent ((if below then ['-'] else []) ++ ds ++ rest)
        = some (below, ds, ds.length + if below then 1 else 0) :=
      takeExponent_written some_ digits fun c member => (ends c member).1
    have text : JsonNumber.chars ⟨negative, whole, places, some (below, ds)⟩ ++ rest
        = (if negative then ['-'] else []) ++ whole
          ++ ((if places.isEmpty then [] else '.' :: places)
            ++ 'e' :: ((if below then ['-'] else []) ++ ds ++ rest)) := by
      simp [JsonNumber.chars]
    rw [text, scaled, length_chars]
    simp only [true_or, if_true, power, Option.map_some, Nat.add_assoc]

/-! ### Values -/

mutual

/-- A document whose numbers and texts are such as are written. -/
def Written : Json → Prop
  | null | bool _ => True
  | number n => n.Written
  | string s => s.isSome = true
  | array items => AllWritten items
  | object fields => FieldsWritten fields

def AllWritten : List Json → Prop
  | [] => True
  | item :: items => item.Written ∧ AllWritten items

def FieldsWritten : List (Option String × Json) → Prop
  | [] => True
  | (k, v) :: fields => k.isSome = true ∧ v.Written ∧ FieldsWritten fields

end

section Steps

variable {s cs rest more : List Char}

theorem readValue_string (start : s.dropWhile isSpace = '"' :: cs) :
    outcome (readValue s) = (outcome (readString cs)).map fun p =>
      (string (p.1.map String.ofList), p.2) := by
  rw [readValue]
  split
  · rename_i none_
    cases none_.symm.trans start
  · rename_i c cs' found
    cases found.symm.trans start
    rw [if_pos rfl]
    cases readString cs with
    | none => rfl
    | some p => rfl

theorem readValue_emptyArray (start : s.dropWhile isSpace = '[' :: cs)
    (close : cs.dropWhile isSpace = ']' :: rest) :
    outcome (readValue s) = some (array [], rest) := by
  rw [readValue]
  split
  · rename_i none_
    cases none_.symm.trans start
  · rename_i c cs' found
    cases found.symm.trans start
    rw [if_neg (by decide), if_pos rfl]
    split
    · rename_i closed
      cases closed.symm.trans close
      rfl
    · rename_i other
      exact absurd close (other _)

theorem readValue_array (start : s.dropWhile isSpace = '[' :: cs)
    (opened : ∀ rest, cs.dropWhile isSpace ≠ ']' :: rest) :
    outcome (readValue s) = (outcome (readItems cs)).map fun p => (array p.1, p.2) := by
  rw [readValue]
  split
  · rename_i none_
    cases none_.symm.trans start
  · rename_i c cs' found
    cases found.symm.trans start
    rw [if_neg (by decide), if_pos rfl]
    split
    · rename_i closed
      exact absurd closed (opened _)
    · cases readItems cs with
      | none => rfl
      | some p => rfl

theorem readValue_emptyObject (start : s.dropWhile isSpace = '{' :: cs)
    (close : cs.dropWhile isSpace = '}' :: rest) :
    outcome (readValue s) = some (object [], rest) := by
  rw [readValue]
  split
  · rename_i none_
    cases none_.symm.trans start
  · rename_i c cs' found
    cases found.symm.trans start
    rw [if_neg (by decide), if_neg (by decide), if_pos rfl]
    split
    · rename_i closed
      cases closed.symm.trans close
      rfl
    · rename_i other
      exact absurd close (other _)

theorem readValue_object (start : s.dropWhile isSpace = '{' :: cs)
    (opened : ∀ rest, cs.dropWhile isSpace ≠ '}' :: rest) :
    outcome (readValue s) = (outcome (readFields cs)).map fun p => (object p.1, p.2) := by
  rw [readValue]
  split
  · rename_i none_
    cases none_.symm.trans start
  · rename_i c cs' found
    cases found.symm.trans start
    rw [if_neg (by decide), if_neg (by decide), if_pos rfl]
    split
    · rename_i closed
      exact absurd closed (opened _)
    · cases readFields cs with
      | none => rfl
      | some p => rfl

theorem readValue_true (start : s.dropWhile isSpace = 't' :: 'r' :: 'u' :: 'e' :: rest) :
    outcome (readValue s) = some (bool true, rest) := by
  rw [readValue]
  split
  · rename_i none_
    cases none_.symm.trans start
  · rename_i c cs' found
    cases found.symm.trans start
    rfl

theorem readValue_false (start : s.dropWhile isSpace = 'f' :: 'a' :: 'l' :: 's' :: 'e' :: rest) :
    outcome (readValue s) = some (bool false, rest) := by
  rw [readValue]
  split
  · rename_i none_
    cases none_.symm.trans start
  · rename_i c cs' found
    cases found.symm.trans start
    rfl

theorem readValue_null (start : s.dropWhile isSpace = 'n' :: 'u' :: 'l' :: 'l' :: rest) :
    outcome (readValue s) = some (null, rest) := by
  rw [readValue]
  split
  · rename_i none_
    cases none_.symm.trans start
  · rename_i c cs' found
    cases found.symm.trans start
    rfl

/-- A number starts with none of the characters that are neither its sign nor a digit. -/
theorem ne_of_first {c : Char} (first : c = '-' ∨ isDigit c = true) {others : List Char}
    (apart : others.all (fun d => d != '-' && !isDigit d) = true) : ∀ d ∈ others, c ≠ d := by
  rintro d member rfl
  have neither := List.all_eq_true.1 apart c member
  rcases first with rfl | digit
  · cases neither
  · simp [digit] at neither

theorem readValue_number {c : Char} (start : s.dropWhile isSpace = c :: cs)
    (first : c = '-' ∨ isDigit c = true) :
    outcome (readValue s) = (readNumber (c :: cs)).map fun p =>
      (number p.1, cs.drop (p.2 - 1)) := by
  have other : ∀ d ∈ ['"', '[', '{', 't', 'f', 'n'], c ≠ d := ne_of_first first rfl
  simp only [List.mem_cons, List.not_mem_nil, or_false, forall_eq_or_imp, forall_eq] at other
  obtain ⟨h₁, h₂, h₃, h₄, h₅, h₆⟩ := other
  rw [readValue]
  split
  · rename_i none_
    cases none_.symm.trans start
  · rename_i c' cs' found
    cases found.symm.trans start
    rw [if_neg h₁, if_neg h₂, if_neg h₃, if_neg fun h => h₄ h.1, if_neg fun h => h₅ h.1,
      if_neg fun h => h₆ h.1]
    cases readNumber (c :: cs) with
    | none => rfl
    | some p => rfl

theorem readItems_more {item : Json} (first : outcome (readValue s) = some (item, rest))
    (comma : rest.dropWhile isSpace = ',' :: more) :
    outcome (readItems s) = (outcome (readItems more)).map fun p => (item :: p.1, p.2) := by
  obtain ⟨shorter, first⟩ := outcome_eq_some first
  rw [readItems, first, Option.bind_some]
  dsimp only
  split
  · rename_i more' found
    cases found.symm.trans comma
    cases readItems more with
    | none => rfl
    | some p => rfl
  · rename_i more' found
    cases found.symm.trans comma
  · rename_i other _
    exact absurd comma (other _)

theorem readItems_last {item : Json} (first : outcome (readValue s) = some (item, rest))
    (close : rest.dropWhile isSpace = ']' :: more) :
    outcome (readItems s) = some ([item], more) := by
  obtain ⟨shorter, first⟩ := outcome_eq_some first
  rw [readItems, first, Option.bind_some]
  dsimp only
  split
  · rename_i more' found
    cases found.symm.trans close
  · rename_i more' found
    cases found.symm.trans close
    rfl
  · rename_i other
    exact absurd close (other _)

/-- The key of a field and its value. -/
theorem readFields_more {key : Option (List Char)} {value : Json} {afterKey afterColon : List Char}
    (start : s.dropWhile isSpace = '"' :: cs)
    (first : outcome (readString cs) = some (key, afterKey))
    (colon : afterKey.dropWhile isSpace = ':' :: afterColon)
    (second : outcome (readValue afterColon) = some (value, rest))
    (comma : rest.dropWhile isSpace = ',' :: more) :
    outcome (readFields s) = (outcome (readFields more)).map fun p =>
      ((key.map String.ofList, value) :: p.1, p.2) := by
  obtain ⟨shorter, first⟩ := outcome_eq_some first
  obtain ⟨shorter', second⟩ := outcome_eq_some second
  rw [readFields]
  split
  · rename_i cs' found
    cases found.symm.trans start
    rw [first, Option.bind_some]
    dsimp only
    split
    · rename_i afterColon' found
      cases found.symm.trans colon
      rw [second, Option.bind_some]
      dsimp only
      split
      · rename_i more' found
        cases found.symm.trans comma
        cases readFields more with
        | none => rfl
        | some p => rfl
      · rename_i more' found
        cases found.symm.trans comma
      · rename_i other _
        exact absurd comma (other _)
    · rename_i other
      exact absurd colon (other _)
  · rename_i other
    exact absurd start (other _)

theorem readFields_last {key : Option (List Char)} {value : Json} {afterKey afterColon : List Char}
    (start : s.dropWhile isSpace = '"' :: cs)
    (first : outcome (readString cs) = some (key, afterKey))
    (colon : afterKey.dropWhile isSpace = ':' :: afterColon)
    (second : outcome (readValue afterColon) = some (value, rest))
    (close : rest.dropWhile isSpace = '}' :: more) :
    outcome (readFields s) = some ([(key.map String.ofList, value)], more) := by
  obtain ⟨shorter, first⟩ := outcome_eq_some first
  obtain ⟨shorter', second⟩ := outcome_eq_some second
  rw [readFields]
  split
  · rename_i cs' found
    cases found.symm.trans start
    rw [first, Option.bind_some]
    dsimp only
    split
    · rename_i afterColon' found
      cases found.symm.trans colon
      rw [second, Option.bind_some]
      dsimp only
      split
      · rename_i more' found
        cases found.symm.trans close
      · rename_i more' found
        cases found.symm.trans close
        rfl
      · rename_i other
        exact absurd close (other _)
    · rename_i other
      exact absurd colon (other _)
  · rename_i other
    exact absurd start (other _)

end Steps

/-! ### The pretty form -/

theorem dropWhile_space {blank cs : List Char} {c : Char} (spaces : ∀ b ∈ blank, isSpace b = true)
    (start : isSpace c = false) : (blank ++ c :: cs).dropWhile isSpace = c :: cs := by
  rw [List.dropWhile_append_of_pos spaces, List.dropWhile_cons_of_neg (by simp [start])]

theorem dropWhile_start {c : Char} (start : isSpace c = false) (cs : List Char) :
    (c :: cs).dropWhile isSpace = c :: cs :=
  List.dropWhile_cons_of_neg (by simp [start])

theorem space_newline (depth : Nat) : ∀ b ∈ newline depth, isSpace b = true := by
  intro b member
  rcases List.mem_cons.1 member with rfl | member
  · rfl
  · rw [(List.mem_replicate.1 member).2]
    rfl

theorem endsNumber_cons {c : Char} (apart : isDigit c = false ∧ c ≠ '.' ∧ c ≠ 'e' ∧ c ≠ 'E')
    (rest : List Char) : EndsNumber (c :: rest) := by
  rintro d ⟨⟩
  exact apart

theorem endsNumber_blank {blank rest : List Char} {c : Char}
    (spaces : ∀ b ∈ blank, isSpace b = true)
    (apart : isDigit c = false ∧ c ≠ '.' ∧ c ≠ 'e' ∧ c ≠ 'E') :
    EndsNumber (blank ++ c :: rest) := by
  cases blank with
  | nil => exact endsNumber_cons apart rest
  | cons b blank =>
    refine endsNumber_cons ?_ _
    have isBlank := spaces b List.mem_cons_self
    simp only [isSpace, Bool.or_eq_true, beq_iff_eq] at isBlank
    rcases isBlank with ((rfl | rfl) | rfl) | rfl <;> decide

theorem chars_eq_cons {n : JsonNumber} (written : n.Written) :
    ∃ c cs, n.chars = c :: cs ∧ (c = '-' ∨ isDigit c = true) := by
  obtain ⟨negative, whole, places, exponent⟩ := n
  obtain ⟨digits, nonempty, _, _, _⟩ := written
  cases negative with
  | true => exact ⟨'-', _, rfl, .inl rfl⟩
  | false =>
    cases whole with
    | nil => exact absurd rfl nonempty
    | cons d ds => exact ⟨d, _, rfl, .inr (digits d List.mem_cons_self)⟩

theorem first_of_number {c : Char} (first : c = '-' ∨ isDigit c = true) :
    isSpace c = false ∧ c ≠ ']' := by
  have other : ∀ d ∈ [' ', '\n', '\t', '\r', ']'], c ≠ d := ne_of_first first rfl
  simp only [List.mem_cons, List.not_mem_nil, or_false, forall_eq_or_imp, forall_eq] at other
  simp [isSpace, other]

/-- A value starts with a character of its own. -/
theorem prettyBefore_eq_cons {j : Json} (written : j.Written) (depth : Nat) (rest : List Char) :
    ∃ c cs, prettyBefore depth rest j = c :: cs ∧ isSpace c = false ∧ c ≠ ']' := by
  cases j with
  | null => exact ⟨_, _, rfl, by decide, by decide⟩
  | bool b => cases b <;> exact ⟨_, _, rfl, by decide, by decide⟩
  | string s => exact ⟨_, _, rfl, by decide, by decide⟩
  | array items => cases items <;> exact ⟨'[', _, rfl, by decide, by decide⟩
  | object fields => cases fields <;> exact ⟨'{', _, rfl, by decide, by decide⟩
  | number n =>
    obtain ⟨c, cs, chars, first⟩ := chars_eq_cons written
    refine ⟨c, cs ++ rest, ?_, first_of_number first⟩
    rw [prettyBefore, chars, List.cons_append]

theorem quoted_some (text : String) (rest : List Char) :
    quoted (some text) ++ rest = '"' :: (text.toList.flatMap quoteChar ++ '"' :: rest) := by
  simp [quoted, quote]

theorem prettyItems_eq (depth : Nat) (rest : List Char) (item : Json) (items : List Json) :
    ∃ tail, prettyItems depth rest (item :: items)
      = newline depth ++ prettyBefore depth tail item := by
  cases items with
  | nil => exact ⟨rest, by rw [prettyItems]⟩
  | cons item' items => exact ⟨_, by rw [prettyItems]; simp⟩

theorem prettyFields_eq (depth : Nat) (rest : List Char) (text : String) (v : Json)
    (fields : List (Option String × Json)) :
    ∃ tail, prettyFields depth rest ((some text, v) :: fields)
      = newline depth ++ '"' :: (text.toList.flatMap quoteChar
        ++ '"' :: ':' :: ' ' :: prettyBefore depth tail v) := by
  cases fields with
  | nil => exact ⟨rest, by rw [prettyFields, List.append_assoc, quoted_some]⟩
  | cons field fields =>
    refine ⟨',' :: prettyFields depth rest (field :: fields), ?_⟩
    rw [prettyFields, List.append_assoc, quoted_some]
    exact nofun

mutual

/-- The pretty form of a value is read as the value, behind white space and whatever follows. -/
theorem readValue_pretty (blank : List Char) (spaces : ∀ b ∈ blank, isSpace b = true)
    (depth : Nat) (rest : List Char) (ends : EndsNumber rest) : (j : Json) → j.Written →
    outcome (readValue (blank ++ prettyBefore depth rest j)) = some (j, rest)
  | null, _ => readValue_null (dropWhile_space spaces rfl)
  | bool true, _ => readValue_true (dropWhile_space spaces rfl)
  | bool false, _ => readValue_false (dropWhile_space spaces rfl)
  | number n, written => by
    obtain ⟨c, cs, chars, first⟩ := chars_eq_cons written
    have taken := readNumber_chars written ends
    rw [prettyBefore]
    rw [chars, List.cons_append] at taken ⊢
    rw [readValue_number (dropWhile_space spaces (first_of_number first).1) first, taken,
      Option.map_some, List.length_cons, Nat.add_sub_cancel, List.drop_left]
  | string s, written => by
    obtain ⟨text, rfl⟩ := Option.isSome_iff_exists.1 written
    rw [prettyBefore, quoted_some, readValue_string (dropWhile_space spaces rfl), readString_quote]
    simp
  | array [], _ =>
    readValue_emptyArray (dropWhile_space spaces rfl) (dropWhile_start rfl _)
  | array (item :: items), written => by
    obtain ⟨tail, text⟩ := prettyItems_eq (depth + 1) (newline depth ++ ']' :: rest) item items
    obtain ⟨c, cs, starts, noSpace, opened⟩ := prettyBefore_eq_cons written.1 (depth + 1) tail
    rw [prettyBefore]
    · rw [readValue_array (dropWhile_space spaces rfl),
        readItems_pretty (newline depth) (space_newline depth) (depth + 1) rest (item :: items)
          (List.cons_ne_nil _ _) written]
      · rfl
      · intro more closed
        rw [text, starts, dropWhile_space (space_newline _) noSpace] at closed
        exact opened (List.cons.inj closed).1
    · exact nofun
  | object [], _ =>
    readValue_emptyObject (dropWhile_space spaces rfl) (dropWhile_start rfl _)
  | object ((k, v) :: fields), written => by
    obtain ⟨text, rfl⟩ := Option.isSome_iff_exists.1 written.1
    obtain ⟨tail, starts⟩ :=
      prettyFields_eq (depth + 1) (newline depth ++ '}' :: rest) text v fields
    rw [prettyBefore]
    · rw [readValue_object (dropWhile_space spaces rfl),
        readFields_pretty (newline depth) (space_newline depth) (depth + 1) rest
          ((some text, v) :: fields) (List.cons_ne_nil _ _) written]
      · rfl
      · intro more closed
        rw [starts, dropWhile_space (space_newline _) (by decide)] at closed
        exact absurd (List.cons.inj closed).1 (by decide)
    · exact nofun

theorem readItems_pretty (blank : List Char) (spaces : ∀ b ∈ blank, isSpace b = true)
    (depth : Nat) (rest : List Char) : (items : List Json) → items ≠ [] → AllWritten items →
    outcome (readItems (prettyItems depth (blank ++ ']' :: rest) items)) = some (items, rest)
  | [], some_, _ => absurd rfl some_
  | [item], _, written => by
    rw [prettyItems]
    refine readItems_last ?_ (dropWhile_space spaces (by decide))
    exact readValue_pretty (newline depth) (space_newline depth) depth _
      (endsNumber_blank spaces (by decide)) item written.1
  | item :: item' :: items, _, written => by
    rw [prettyItems]
    · rw [readItems_more (readValue_pretty (newline depth) (space_newline depth) depth _
        (endsNumber_cons (by decide) _) item written.1)
        (dropWhile_start (by decide) _),
        readItems_pretty blank spaces depth rest (item' :: items) (List.cons_ne_nil _ _) written.2]
      rfl
    · exact nofun

theorem readFields_pretty (blank : List Char) (spaces : ∀ b ∈ blank, isSpace b = true)
    (depth : Nat) (rest : List Char) : (fields : List (Option String × Json)) → fields ≠ [] →
    FieldsWritten fields →
    outcome (readFields (prettyFields depth (blank ++ '}' :: rest) fields)) = some (fields, rest)
  | [], some_, _ => absurd rfl some_
  | [(k, v)], _, written => by
    obtain ⟨text, rfl⟩ := Option.isSome_iff_exists.1 written.1
    rw [prettyFields, List.append_assoc, quoted_some]
    have value : outcome (readValue (' ' :: prettyBefore depth (blank ++ '}' :: rest) v))
        = some (v, blank ++ '}' :: rest) :=
      readValue_pretty [' '] (List.forall_mem_singleton.2 rfl) depth _
        (endsNumber_blank spaces (by decide)) v written.2.1
    rw [readFields_last (dropWhile_space (space_newline depth) (by decide)) (readString_quote _ _)
      (dropWhile_start (by decide) _) value
      (dropWhile_space spaces (by decide))]
    simp
  | (k, v) :: field :: fields, _, written => by
    obtain ⟨text, rfl⟩ := Option.isSome_iff_exists.1 written.1
    rw [prettyFields, List.append_assoc, quoted_some]
    · have value := readValue_pretty [' '] (List.forall_mem_singleton.2 rfl) depth
        (',' :: prettyFields depth (blank ++ '}' :: rest) (field :: fields))
        (endsNumber_cons (by decide) _) v written.2.1
      rw [List.singleton_append] at value
      rw [readFields_more (dropWhile_space (space_newline depth) (by decide)) (readString_quote _ _)
        (dropWhile_start (by decide) _) value
        (dropWhile_start (by decide) _),
        readFields_pretty blank spaces depth rest (field :: fields) (List.cons_ne_nil _ _)
          written.2.2]
      simp
    · exact nofun

end

theorem parse?_eq (text : String) : parse? text = (outcome (readValue text.toList)).bind fun p =>
    if p.2.all isSpace then some p.1 else none := by
  unfold parse?
  cases readValue text.toList <;> rfl

/-- The pretty form of a document is read as the document. -/
theorem parse?_pretty {j : Json} (written : j.Written) : parse? (pretty j) = some j := by
  rw [parse?_eq, pretty, String.toList_ofList, ← List.nil_append (prettyBefore 0 [] j),
    readValue_pretty [] nofun 0 [] nofun j written]
  rfl

end Json

/-! ### Integers -/

namespace JsonNumber

theorem digitList_eq (n : Nat) : Decimal.digitList n = Nat.toDigits 10 n := by
  rw [Decimal.digitList, Nat.toString_eq_ofList_toDigits, String.toList_ofList]

theorem isDigit_of_mem_digitList {n : Nat} : ∀ c ∈ Decimal.digitList n, Json.isDigit c = true := by
  intro c member
  rw [digitList_eq] at member
  have digit := Nat.isDigit_of_mem_toDigits (by decide) (by decide) member
  simpa [Json.isDigit, Char.isDigit, Char.le_def] using digit

/-- Only zero starts with a zero. -/
theorem eq_zero_of_leading_zero {n : Nat} (leading : (Nat.toDigits 10 n).head? = some '0') :
    n = 0 := by
  induction n using Nat.strongRecOn with
  | _ n ih =>
    by_cases small : n < 10
    · have digits : ∀ m < 10, Nat.digitChar m = '0' → m = 0 := by decide
      rw [Nat.toDigits_of_lt_base small] at leading
      exact digits n small (Option.some.inj leading)
    · rw [Nat.toDigits_of_base_le (by decide) (Nat.le_of_not_lt small),
        List.head?_append, Option.or_of_isSome (by simp [Nat.toDigits_ne_nil])] at leading
      have := ih (n / 10) (by omega) leading
      omega

theorem written_ofInt (i : Int) : (ofInt i).Written where
  whole := isDigit_of_mem_digitList
  nonempty := by
    rw [ofInt, digitList_eq]
    exact Nat.toDigits_ne_nil
  leading := by
    rw [ofInt, digitList_eq]
    intro leading
    rw [eq_zero_of_leading_zero leading]
    rfl
  places := nofun
  exponent := nofun

theorem gather_of_le (cs : List Char) (significand : Nat)
    (fits : Nat.ofDigitChars 10 cs significand ≤ maxSignificand) :
    gather significand cs = (Nat.ofDigitChars 10 cs significand, 0) := by
  induction cs generalizing significand with
  | nil => rfl
  | cons c cs ih =>
    rw [Nat.ofDigitChars_cons] at fits ⊢
    have below : 10 * significand + digitValue c ≤ maxSignificand := by
      refine Nat.le_trans ?_ fits
      rw [Nat.ofDigitChars_eq_ofDigitChars_zero]
      exact Nat.le_add_right_of_le (Nat.le_mul_of_pos_left _ (Nat.pow_pos (by decide)))
    rw [gather]
    simp only [below, if_true]
    exact ih _ fits

/-- An integer of 64 bits is the integer of its digits. -/
theorem toInt?_ofInt {i : Int} (low : -2 ^ 63 ≤ i) (high : i < 2 ^ 64) :
    (ofInt i).toInt? = some i := by
  have size : i.natAbs ≤ maxSignificand := by
    rw [maxSignificand, UInt64.size]
    omega
  have gathered : gather 0 (Decimal.digitList i.natAbs) = (i.natAbs, 0) := by
    rw [digitList_eq, gather_of_le _ _ (by rwa [Nat.ofDigitChars_ten_toDigits]),
      Nat.ofDigitChars_ten_toDigits]
  have integral : (ofInt i).isIntegral = true := rfl
  rw [toInt?, integral]
  simp only [ofInt, gathered, Bool.not_true, Bool.false_eq_true, if_false]
  by_cases negative : i < 0
  · have notHuge : ¬(i.natAbs = 0 ∨ Nat.pow 2 63 < i.natAbs) := by
      have : Nat.pow 2 63 = 2 ^ 63 := rfl
      omega
    simp only [negative, decide_true, Bool.not_true, Bool.false_eq_true, if_false, notHuge,
      Option.some.injEq]
    omega
  · simp only [negative, decide_false, Bool.not_false, if_true, Option.some.injEq]
    omega

end JsonNumber

end Classwright
