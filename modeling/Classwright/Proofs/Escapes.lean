import Mathlib.Data.List.Forall2
import Mathlib.Data.Nat.Digits.Defs
import Classwright.Proofs.Scanning

/-!
# Escapes in literals

`Decodes` is the grammar of escapes: which text a literal's body stands for. It leaves open which
four characters behind `\u` are the code of a character. They should be hexadecimal digits; what is
accepted besides is a plus and three of them.
-/

namespace Classwright

namespace Text

/-- The escapes of two characters: what stands behind the backslash and what it means. -/
def simpleEscapes : List (Char × Char) :=
  [('n', '\n'), ('t', '\t'), ('r', '\r'), ('b', '\x08'), ('f', '\x0c'), ('0', '\x00'),
    ('\\', '\\'), ('"', '"'), ('\x27', '\x27')]

/-- A hexadecimal digit, small or capital, and its value. -/
def IsHexDigit (c : Char) (v : Nat) : Prop :=
  v < 16 ∧ (c = v.digitChar ∨ c = v.digitChar.toUpper)

/-- A numeral of so many hexadecimal digits and its value. -/
def IsHexNumeral (length : Nat) (hex : List Char) (n : Nat) : Prop :=
  ∃ vs, List.Forall₂ IsHexDigit hex vs ∧ vs.length = length ∧ n = Nat.ofDigits 16 vs.reverse

/-- A sequence of ordinary characters and escapes, and the text it stands for. -/
inductive Decodes (code : List Char → Nat → Prop) : List Char → List Char → Prop
  | nil : Decodes code [] []
  | ordinary {c : Char} {cs ds : List Char} :
      c ≠ '\\' → Decodes code cs ds → Decodes code (c :: cs) (c :: ds)
  | simple {e c : Char} {cs ds : List Char} :
      (e, c) ∈ simpleEscapes → Decodes code cs ds → Decodes code ('\\' :: e :: cs) (c :: ds)
  | unicode {c : Char} {hex cs ds : List Char} :
      code hex c.toNat → Decodes code cs ds → Decodes code ('\\' :: 'u' :: (hex ++ cs)) (c :: ds)

/-- Codes as they are documented. -/
abbrev Documented : List Char → Nat → Prop := IsHexNumeral 4

/-- Codes as they are read. -/
def Accepted (hex : List Char) (n : Nat) : Prop :=
  Documented hex n ∨ ∃ ds, hex = '+' :: ds ∧ IsHexNumeral 3 ds n

/-- In one of the escapes a plus stands behind `\u`. -/
def hasSigned : List Char → Bool
  | '\\' :: 'u' :: '+' :: _ => true
  | '\\' :: _ :: cs => hasSigned cs
  | _ :: cs => hasSigned cs
  | [] => false

/-! ### Numerals -/

theorem hexValue_digit : ∀ v < 16, hexValue v.digitChar = some v ∧
    hexValue v.digitChar.toUpper = some v := by
  decide

theorem digit_ofNat : (∀ v < 10, Char.ofNat (48 + v) = v.digitChar) ∧
    (∀ v < 6, Char.ofNat (97 + v) = (v + 10).digitChar) ∧
    ∀ v < 6, Char.ofNat (65 + v) = (v + 10).digitChar.toUpper := by
  decide

theorem hexValue_eq_some_iff {c : Char} {v : Nat} : hexValue c = some v ↔ IsHexDigit c v := by
  constructor
  · intro value
    obtain ⟨decimal, small, capital⟩ := digit_ofNat
    have range : ∀ {a b : Char}, (a ≤ c && c ≤ b) = true → a.toNat ≤ c.toNat ∧ c.toNat ≤ b.toNat := by
      intro a b h
      rw [Bool.and_eq_true, decide_eq_true_eq, decide_eq_true_eq] at h
      exact h
    have self : ∀ {k}, k ≤ c.toNat → c = Char.ofNat (k + (c.toNat - k)) := by
      intro k le
      rw [Nat.add_sub_cancel' le, Char.ofNat_toNat]
    unfold hexValue at value
    split at value
    · rename_i inside
      have inside : 48 ≤ c.toNat ∧ c.toNat ≤ 57 := range inside
      cases value
      have := (self inside.1).trans (decimal (c.toNat - 48) (by omega))
      exact ⟨show c.toNat - 48 < 16 by omega, .inl this⟩
    · split at value
      · rename_i inside
        have inside : 97 ≤ c.toNat ∧ c.toNat ≤ 102 := range inside
        cases value
        have := (self inside.1).trans (small (c.toNat - 97) (by omega))
        exact ⟨show c.toNat - 97 + 10 < 16 by omega, .inl this⟩
      · split at value
        · rename_i inside
          have inside : 65 ≤ c.toNat ∧ c.toNat ≤ 70 := range inside
          cases value
          have := (self inside.1).trans (capital (c.toNat - 65) (by omega))
          exact ⟨show c.toNat - 65 + 10 < 16 by omega, .inr this⟩
        · cases value
  · rintro ⟨lt, rfl | rfl⟩
    · exact (hexValue_digit v lt).1
    · exact (hexValue_digit v lt).2

/-- No digit is one of the characters that matter elsewhere. -/
theorem IsHexDigit.ne {c : Char} {v : Nat} (h : IsHexDigit c v) : c ≠ '\\' ∧ c ≠ '+' := by
  have value := hexValue_eq_some_iff.2 h
  constructor <;> (rintro rfl; cases value)

theorem foldl_none (cs : List Char) :
    cs.foldl (fun acc c => do return 16 * (← acc) + (← hexValue c)) none = none := by
  induction cs with
  | nil => rfl
  | cons c cs ih => exact ih

/-- The digits are read from left to right behind the value read so far. -/
theorem foldl_hexValue {cs : List Char} {a n : Nat} :
    cs.foldl (fun acc c => do return 16 * (← acc) + (← hexValue c)) (some a) = some n ↔
      ∃ vs, List.Forall₂ IsHexDigit cs vs ∧ n = Nat.ofDigits 16 (vs.reverse ++ [a]) := by
  induction cs generalizing a with
  | nil =>
    constructor
    · rintro ⟨⟩
      exact ⟨[], .nil, by simp⟩
    · rintro ⟨vs, ⟨⟩, rfl⟩
      simp
  | cons c cs ih =>
    have shift : ∀ (vs : List Nat) v, Nat.ofDigits 16 ((v :: vs).reverse ++ [a])
        = Nat.ofDigits 16 (vs.reverse ++ [16 * a + v]) := by
      intro vs v
      simp only [List.reverse_cons, List.append_assoc, Nat.ofDigits_append, List.singleton_append,
        Nat.ofDigits_cons, Nat.ofDigits_nil]
      ring
    rw [List.foldl_cons]
    cases value : hexValue c with
    | none =>
      refine iff_of_false (fun read => ?_) ?_
      · rw [show (do return 16 * (← some a) + (← (none : Option Nat))) = none from rfl,
          foldl_none] at read
        cases read
      · rintro ⟨_, _ | ⟨digit, -⟩, -⟩
        rw [hexValue_eq_some_iff.2 digit] at value
        cases value
    | some v =>
      rw [show (do return 16 * (← some a) + (← some v)) = some (16 * a + v) from rfl, ih]
      constructor
      · rintro ⟨vs, digits, rfl⟩
        exact ⟨v :: vs, .cons (hexValue_eq_some_iff.1 value) digits, (shift vs v).symm⟩
      · rintro ⟨_, _ | @⟨_, w, _, vs, digit, digits⟩, rfl⟩
        obtain rfl : v = w := by
          rw [hexValue_eq_some_iff.2 digit] at value
          exact (Option.some.inj value).symm
        exact ⟨vs, digits, shift vs v⟩

theorem hexNumeral_eq_some_iff {cs : List Char} {n : Nat} (some_ : cs ≠ []) :
    hexNumeral cs = some n ↔ IsHexNumeral cs.length cs n := by
  have zero : ∀ vs : List Nat, Nat.ofDigits 16 (vs ++ [0]) = Nat.ofDigits 16 vs := by
    intro vs
    rw [Nat.ofDigits_append, Nat.ofDigits_singleton, Nat.mul_zero, Nat.add_zero]
  have read : hexNumeral cs
      = cs.foldl (fun acc c => do return 16 * (← acc) + (← hexValue c)) (some 0) := by
    cases cs with
    | nil => exact absurd rfl some_
    | cons c cs => rfl
  rw [read, foldl_hexValue]
  simp only [zero]
  constructor
  · rintro ⟨vs, digits, value⟩
    exact ⟨vs, digits, digits.length_eq.symm, value⟩
  · rintro ⟨vs, digits, -, value⟩
    exact ⟨vs, digits, value⟩

theorem IsHexNumeral.length_eq {length : Nat} {hex : List Char} {n : Nat}
    (h : IsHexNumeral length hex n) : hex.length = length := by
  obtain ⟨vs, digits, count, -⟩ := h
  rw [digits.length_eq, count]

theorem IsHexNumeral.ne {length : Nat} {hex : List Char} {n : Nat} (h : IsHexNumeral length hex n) :
    ∀ c ∈ hex, c ≠ '\\' ∧ c ≠ '+' := by
  obtain ⟨vs, digits, -⟩ := h
  clear * - digits
  induction digits with
  | nil => exact nofun
  | cons digit _ ih => exact List.forall_mem_cons.2 ⟨digit.ne, ih⟩

/-- Four characters are read as a code if they are four digits, or a plus and three digits. -/
theorem unicodeCode_eq_some_iff {hex : List Char} {n : Nat} :
    unicodeCode hex = some n ↔ Accepted hex n := by
  unfold unicodeCode
  split
  · rename_i four
    split
    · rename_i ds
      have three : ds.length = 3 := by simpa using four
      rw [hexNumeral_eq_some_iff (List.ne_nil_of_length_pos (by omega)), three]
      constructor
      · exact fun numeral => .inr ⟨ds, rfl, numeral⟩
      · rintro (documented | ⟨_, same, numeral⟩)
        · exact absurd rfl (documented.ne '+' List.mem_cons_self).2
        · cases same
          exact numeral
    · rename_i unsigned
      rw [hexNumeral_eq_some_iff (List.ne_nil_of_length_pos (by omega)), four]
      constructor
      · exact .inl
      · rintro (documented | ⟨ds, rfl, -⟩)
        · exact documented
        · exact absurd rfl (unsigned ds)
  · rename_i notFour
    refine iff_of_false nofun ?_
    rintro (documented | ⟨ds, rfl, numeral⟩)
    · exact notFour documented.length_eq
    · exact notFour (congrArg (· + 1) numeral.length_eq)

theorem Accepted.length_eq {hex : List Char} {n : Nat} (h : Accepted hex n) : hex.length = 4 := by
  obtain documented | ⟨ds, rfl, numeral⟩ := h
  · exact documented.length_eq
  · exact congrArg (· + 1) numeral.length_eq

theorem Accepted.plain {hex : List Char} {n : Nat} (h : Accepted hex n) : '\\' ∉ hex := by
  intro member
  obtain documented | ⟨ds, rfl, numeral⟩ := h
  · exact (documented.ne _ member).1 rfl
  · rcases List.mem_cons.1 member with same | member
    · cases same
    · exact (numeral.ne _ member).1 rfl

theorem charOfCode?_eq_some_iff {n : Nat} {c : Char} : charOfCode? n = some c ↔ n = c.toNat := by
  unfold charOfCode?
  constructor
  · intro found
    split at found
    · rename_i valid
      cases found
      rw [Char.ofNat, dif_pos valid]
      rfl
    · cases found
  · rintro rfl
    have valid : c.toNat.isValidChar := c.valid
    rw [if_pos valid, Char.ofNat_toNat]

/-- Where four characters are the code of a character. -/
theorem unicode_eq_some_iff {hex : List Char} {c : Char} :
    (unicodeCode hex).bind charOfCode? = some c ↔ Accepted hex c.toNat := by
  rw [Option.bind_eq_some_iff]
  constructor
  · rintro ⟨n, read, valid⟩
    rw [charOfCode?_eq_some_iff] at valid
    exact valid ▸ unicodeCode_eq_some_iff.1 read
  · intro accepted
    exact ⟨c.toNat, unicodeCode_eq_some_iff.2 accepted, charOfCode?_eq_some_iff.2 rfl⟩

theorem simpleEscape_eq_some_iff {e c : Char} :
    simpleEscape e = some c ↔ (e, c) ∈ simpleEscapes := by
  constructor
  · intro found
    unfold simpleEscape at found
    split at found <;> cases found <;> decide
  · intro member
    have table : ∀ p ∈ simpleEscapes, simpleEscape p.1 = some p.2 := by decide
    exact table _ member

/-! ### Decoding -/

theorem unescape_ordinary {c : Char} {cs : List Char} (ordinary : c ≠ '\\') :
    unescape (c :: cs) = (unescape cs).map (c :: ·) := by
  rw [unescape]
  all_goals intros; simp_all

theorem unescape_simple {e c : Char} {cs : List Char} (escape : (e, c) ∈ simpleEscapes) :
    unescape ('\\' :: e :: cs) = (unescape cs).map (c :: ·) := by
  have found := simpleEscape_eq_some_iff.2 escape
  have notCode : e ≠ 'u' := by
    rintro rfl
    cases found
  rw [unescape, found]
  exact notCode

theorem unescape_unicode {c : Char} {hex cs : List Char} (accepted : Accepted hex c.toNat) :
    unescape ('\\' :: 'u' :: (hex ++ cs)) = (unescape cs).map (c :: ·) := by
  rw [unescape, List.take_left' accepted.length_eq, List.drop_left' accepted.length_eq,
    unicode_eq_some_iff.2 accepted]

theorem Decodes.unescape {cs ds : List Char} (h : Decodes Accepted cs ds) :
    unescape cs = .ok ds := by
  induction h with
  | nil => rw [Text.unescape]
  | ordinary ordinary _ ih => rw [unescape_ordinary ordinary, ih]; rfl
  | simple escape _ ih => rw [unescape_simple escape, ih]; rfl
  | unicode accepted _ ih => rw [unescape_unicode accepted, ih]; rfl

/-- A text in which a character stands behind every backslash that starts an escape. -/
inductive Paired : List Char → Prop
  | nil : Paired []
  | ordinary {c : Char} {cs : List Char} : c ≠ '\\' → Paired cs → Paired (c :: cs)
  | escape (e : Char) {cs : List Char} : Paired cs → Paired ('\\' :: e :: cs)

theorem Paired.of_ordinary {c : Char} {cs : List Char} (h : Paired (c :: cs))
    (ordinary : c ≠ '\\') : Paired cs := by
  cases h with
  | ordinary _ h => exact h
  | escape => exact absurd rfl ordinary

theorem Paired.of_escape {e : Char} {cs : List Char} (h : Paired ('\\' :: e :: cs)) :
    Paired cs := by
  cases h with
  | ordinary ordinary _ => exact absurd rfl ordinary
  | escape _ h => exact h

theorem Paired.of_append {hex cs : List Char} (plain : '\\' ∉ hex) (h : Paired (hex ++ cs)) :
    Paired cs := by
  induction hex with
  | nil => exact h
  | cons c hex ih =>
    obtain ⟨ordinary, plain⟩ := not_or.1 (mt List.mem_cons.2 plain)
    exact ih plain (h.of_ordinary (Ne.symm ordinary))

theorem map_eq_ok_iff {e : Except (List Char) (List Char)} {c : Char} {ds : List Char} :
    e.map (c :: ·) = .ok ds ↔ ∃ rest, e = .ok rest ∧ ds = c :: rest := by
  cases e with
  | error => simp [Except.map]
  | ok rest => simp [Except.map, eq_comm]

theorem decodes_of_unescape {cs ds : List Char} (paired : Paired cs)
    (decoded : unescape cs = .ok ds) : Decodes Accepted cs ds := by
  induction cs using unescape.induct generalizing ds with
  | case1 =>
    rw [unescape] at decoded
    cases decoded
    exact .nil
  | case2 cs c code ih =>
    have accepted := unicode_eq_some_iff.1 code
    rw [← List.take_append_drop 4 cs] at paired decoded ⊢
    rw [unescape_unicode accepted, map_eq_ok_iff] at decoded
    obtain ⟨rest, decoded, rfl⟩ := decoded
    exact .unicode accepted (ih (paired.of_escape.of_append accepted.plain) decoded)
  | case3 cs noCode =>
    rw [unescape, noCode] at decoded
    cases decoded
  | case4 e cs notCode c found ih =>
    have escape := simpleEscape_eq_some_iff.1 found
    rw [unescape_simple escape, map_eq_ok_iff] at decoded
    obtain ⟨rest, decoded, rfl⟩ := decoded
    exact .simple escape (ih paired.of_escape decoded)
  | case5 e cs notCode notFound =>
    rw [unescape, notFound] at decoded
    · cases decoded
    · exact notCode
  | case6 c cs _ notEscape ih =>
    cases paired with
    | ordinary ordinary behind =>
      rw [unescape_ordinary ordinary, map_eq_ok_iff] at decoded
      obtain ⟨rest, decoded, rfl⟩ := decoded
      exact .ordinary ordinary (ih behind decoded)
    | escape e _ => exact absurd rfl (notEscape e _ rfl)

/-- What is decoded is a sequence of ordinary characters and escapes. -/
theorem unescape_eq_ok_iff {cs ds : List Char} (paired : Paired cs) :
    unescape cs = .ok ds ↔ Decodes Accepted cs ds :=
  ⟨decodes_of_unescape paired, Decodes.unescape⟩

/-! ### Signed codes -/

theorem hasSigned_ordinary {c : Char} {cs : List Char} (ordinary : c ≠ '\\') :
    hasSigned (c :: cs) = hasSigned cs := by
  rw [hasSigned]
  all_goals intros; simp_all

theorem hasSigned_append {hex cs : List Char} (plain : '\\' ∉ hex) :
    hasSigned (hex ++ cs) = hasSigned cs := by
  induction hex with
  | nil => rfl
  | cons c hex ih =>
    obtain ⟨ordinary, plain⟩ := not_or.1 (mt List.mem_cons.2 plain)
    rw [List.cons_append, hasSigned_ordinary (Ne.symm ordinary), ih plain]

theorem hasSigned_escape {e : Char} {cs : List Char} (unsigned : e = 'u' → cs.head? ≠ some '+') :
    hasSigned ('\\' :: e :: cs) = hasSigned cs :=
  hasSigned.eq_2 e cs fun _ code sign => unsigned code (sign ▸ rfl)

theorem hasSigned_simple {e c : Char} {cs : List Char} (escape : (e, c) ∈ simpleEscapes) :
    hasSigned ('\\' :: e :: cs) = hasSigned cs := by
  refine hasSigned_escape ?_
  rintro rfl
  cases simpleEscape_eq_some_iff.2 escape

theorem hasSigned_unicode {hex cs : List Char} {n : Nat} (documented : Documented hex n) :
    hasSigned ('\\' :: 'u' :: (hex ++ cs)) = hasSigned cs := by
  have plain : '\\' ∉ hex := fun member => (documented.ne _ member).1 rfl
  refine (hasSigned_escape fun _ signed => ?_).trans (hasSigned_append plain)
  cases hex with
  | nil => cases documented.length_eq
  | cons c hex => exact (documented.ne c List.mem_cons_self).2 (Option.some.inj signed)

/-- The documented escapes are those that are accepted, apart from the signed ones. -/
theorem decodes_documented_iff {cs ds : List Char} :
    Decodes Documented cs ds ↔ Decodes Accepted cs ds ∧ hasSigned cs = false := by
  constructor
  · intro h
    induction h with
    | nil => exact ⟨.nil, rfl⟩
    | ordinary ordinary _ ih =>
      exact ⟨.ordinary ordinary ih.1, (hasSigned_ordinary ordinary).trans ih.2⟩
    | simple escape _ ih => exact ⟨.simple escape ih.1, (hasSigned_simple escape).trans ih.2⟩
    | unicode documented _ ih =>
      exact ⟨.unicode (.inl documented) ih.1, (hasSigned_unicode documented).trans ih.2⟩
  · rintro ⟨h, unsigned⟩
    induction h with
    | nil => exact .nil
    | ordinary ordinary _ ih =>
      exact .ordinary ordinary (ih ((hasSigned_ordinary ordinary).symm.trans unsigned))
    | simple escape _ ih =>
      exact .simple escape (ih ((hasSigned_simple escape).symm.trans unsigned))
    | unicode accepted _ ih =>
      obtain documented | ⟨_, rfl, -⟩ := accepted
      · exact .unicode documented (ih ((hasSigned_unicode documented).symm.trans unsigned))
      · cases unsigned

end Text

/-! ### Literals -/

namespace Source

open Text

/-- The body of a closed literal between two quotes of this kind. -/
def IsBody (quote : Char) (body : List Char) : Prop :=
  ∃ cs : List Char, (cs.drop (quotedLength quote cs)).head? = some quote ∧
    body = cs.take (quotedLength quote cs)

theorem quotedLength_ordinary {quote c : Char} {cs : List Char}
    (ordinary : ¬(c = quote ∨ c = '\n' ∨ c = '\\')) :
    quotedLength quote (c :: cs) = quotedLength quote cs + 1 := by
  rw [quotedLength, if_neg ordinary, Nat.add_comm]
  rintro _ _ rfl
  exact absurd (.inr (.inr rfl)) ordinary

theorem quotedLength_escape {quote e : Char} {cs : List Char} (oneLine : e ≠ '\n') :
    quotedLength quote ('\\' :: e :: cs) = quotedLength quote cs + 2 := by
  rw [quotedLength, if_neg oneLine, Nat.add_comm]

theorem IsBody.paired {quote : Char} {body : List Char} (noEscape : quote ≠ '\\')
    (h : IsBody quote body) : Paired body := by
  obtain ⟨cs, closed, rfl⟩ := h
  induction cs using quotedLength.induct quote with
  | case1 cs => 
    rw [quotedLength, if_pos rfl] at closed
    exact absurd (Option.some.inj closed).symm noEscape
  | case2 c cs oneLine ih =>
    rw [quotedLength_escape oneLine] at closed ⊢
    exact .escape c (ih closed)
  | case3 c cs notEscape stop =>
    rw [quotedLength, if_pos stop] 
    · exact .nil
    · exact notEscape
  | case4 c cs notEscape ordinary ih =>
    rw [quotedLength_ordinary ordinary] at closed ⊢
    exact .ordinary (fun same => ordinary (.inr (.inr same))) (ih closed)
  | case5 => cases closed

/-- A character of a text as it is written between quotes. -/
def writtenChar : Char → List Char
  | '"' => ['\\', '"']
  | '\\' => ['\\', '\\']
  | '\n' => ['\\', 'n']
  | c => [c]

/-- The literal of a text: quotes, backslashes and line feeds are escaped. -/
def stringLiteral (s : String) : String :=
  String.ofList ('"' :: (s.toList.flatMap writtenChar ++ ['"']))

theorem writtenChar_cases (c : Char) :
    (∃ e, (e, c) ∈ simpleEscapes ∧ e ≠ '\n' ∧ writtenChar c = ['\\', e]) ∨
      (c ≠ '"' ∧ c ≠ '\n' ∧ c ≠ '\\') ∧ writtenChar c = [c] := by
  unfold writtenChar
  split
  · exact .inl ⟨_, by decide, by decide, rfl⟩
  · exact .inl ⟨_, by decide, by decide, rfl⟩
  · exact .inl ⟨_, by decide, by decide, rfl⟩
  · rename_i notQuote notEscape notFeed
    exact .inr ⟨⟨notQuote, notFeed, notEscape⟩, rfl⟩

theorem decodes_written (code : List Char → Nat → Prop) (cs : List Char) :
    Decodes code (cs.flatMap writtenChar) cs := by
  induction cs with
  | nil => exact .nil
  | cons c cs ih =>
    rw [List.flatMap_cons]
    obtain ⟨e, escape, -, written⟩ | ⟨ordinary, written⟩ := writtenChar_cases c
    · rw [written]
      exact .simple escape ih
    · rw [written]
      exact .ordinary ordinary.2.2 ih

theorem quotedLength_written (cs rest : List Char) :
    quotedLength '"' (cs.flatMap writtenChar ++ '"' :: rest)
      = (cs.flatMap writtenChar).length := by
  induction cs with
  | nil =>
    rw [List.flatMap_nil, List.nil_append, quotedLength, if_pos (.inl rfl)]
    · rfl
    · intro _ _ same
      exact absurd same (by decide)
  | cons c cs ih =>
    rw [List.flatMap_cons, List.append_assoc, List.length_append, Nat.add_comm, ← ih]
    obtain ⟨e, -, oneLine, written⟩ | ⟨ordinary, written⟩ := writtenChar_cases c
    · rw [written]
      exact quotedLength_escape oneLine
    · rw [written]
      refine quotedLength_ordinary ?_
      simpa only [not_or] using ordinary

/-- The literal of a text is read as this text. -/
theorem scan_stringLiteral (s : String) :
    ∃ l, scan (stringLiteral s) = .ok l ∧ l.tokens.map (·.token) = [.string s] := by
  have body : stringPiece (s.toList.flatMap writtenChar) = .token (.string s) := by
    rw [stringPiece, (decodes_written Accepted s.toList).unescape]
    dsimp only
    rw [String.ofList_toList]
  have piece : pieceAt '"' (s.toList.flatMap writtenChar ++ ['"'])
      = ((s.toList.flatMap writtenChar).length + 1, .token (.string s)) := by
    rw [show pieceAt '"' _ = quotedPiece '"' stringPiece (.bad .unterminatedString) _ from rfl,
      quotedPiece, quotedLength_written]
    rw [List.drop_left, List.take_left, List.head?_cons, if_pos rfl, body]
  rw [← words?_eq_some_iff, stringLiteral, String.toList_ofList, words?_token piece]
  rw [← List.length_singleton (a := '"'), ← List.length_append, List.drop_length, words?]
  rfl

end Source

open Text Source

/-- The body of a literal is decoded just if it is a sequence of ordinary characters and escapes, to
the text these stand for. It is then one of documented escapes exactly if in no escape a plus stands
behind `\u`. In particular the literal of any text is read as one token, a string with this text. -/
theorem escapes_decoded {quote : Char} (quotes : quote = '"' ∨ quote = '\x27') {body : List Char}
    (isBody : IsBody quote body) :
    (∀ ds, (unescape body = .ok ds ↔ Decodes Accepted body ds) ∧
      (Decodes Documented body ds ↔ unescape body = .ok ds ∧ hasSigned body = false)) ∧
    ∀ s, ∃ l, scan (stringLiteral s) = .ok l ∧ l.tokens.map (·.token) = [.string s] := by
  refine ⟨fun ds => ?_, scan_stringLiteral⟩
  have noEscape : quote ≠ '\\' := by
    rcases quotes with rfl | rfl <;> decide
  have decoded : unescape body = .ok ds ↔ Decodes Accepted body ds :=
    unescape_eq_ok_iff (isBody.paired noEscape)
  exact ⟨decoded, decodes_documented_iff.trans (and_congr_left' decoded.symm)⟩

namespace Sample

/-- A sign counts as a digit. -/
theorem signed_escape : ¬∀ quote body, quote = '"' ∨ quote = '\x27' → IsBody quote body → ∀ ds,
    unescape body = .ok ds ↔ Decodes Documented body ds := by
  intro documented
  have decoded : unescape "\\u+041".toList = .ok ['A'] := by decide +kernel
  have decodes := (documented '"' "\\u+041".toList (.inl rfl) ⟨"\\u+041\"".toList, rfl, rfl⟩
    ['A']).1 decoded
  cases (decodes_documented_iff.1 decodes).2

/-- A small and a capital digit and an escaped quote. -/
theorem letter_escape : IsBody '"' "\\u00eD\\\"".toList ∧
    Decodes Documented "\\u00eD\\\"".toList ['í', '"'] := by
  have isBody : IsBody '"' "\\u00eD\\\"".toList := ⟨"\\u00eD\\\"\"".toList, rfl, rfl⟩
  have decoded : unescape "\\u00eD\\\"".toList = .ok ['í', '"'] := by decide +kernel
  exact ⟨isBody, (((escapes_decoded (.inl rfl) isBody).1 _).2).2 ⟨decoded, rfl⟩⟩

end Sample

end Classwright
