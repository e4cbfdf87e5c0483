import Classwright.Proofs.Placing
import Classwright.Text.Case

/-!
# Tokens of a text without their places

`words?` reads the tokens of a text as `scan` does, places apart. What a token is depends on the
characters of the token and on a few that follow it, none of which is white space; so texts that
differ in their white space only have the same tokens.
-/

namespace Classwright.Source

open Text

/-! ### Classes of characters -/

theorem isBlank_iff (c : Char) : isBlank c = true ↔
    (9 ≤ c.toNat ∧ c.toNat ≤ 13) ∨ c.toNat = 0x20 ∨ c.toNat = 0x85 ∨ c.toNat = 0xA0
      ∨ c.toNat = 0x1680 ∨ (0x2000 ≤ c.toNat ∧ c.toNat ≤ 0x200A)
      ∨ (0x2028 ≤ c.toNat ∧ c.toNat ≤ 0x2029) ∨ c.toNat = 0x202F ∨ c.toNat = 0x205F
      ∨ c.toNat = 0x3000 := by
  simp [isBlank, CaseTable.inRanges, CaseTable.blank]
  omega

theorem isDigit_iff (c : Char) : isDigit c = true ↔ 48 ≤ c.toNat ∧ c.toNat ≤ 57 := by
  simp only [isDigit, Char.le_def, UInt32.le_iff_toNat_le, Bool.and_eq_true, decide_eq_true_eq]
  exact Iff.rfl

theorem isNameStart_iff (c : Char) : isNameStart c = true ↔
    (97 ≤ c.toNat ∧ c.toNat ≤ 122) ∨ (65 ≤ c.toNat ∧ c.toNat ≤ 90) ∨ c.toNat = 95
      ∨ c.toNat = 36 := by
  have same : ∀ d : Char, c = d ↔ c.toNat = d.toNat := fun d =>
    ⟨congrArg _, Char.toNat_inj.1⟩
  simp only [isNameStart, Char.le_def, UInt32.le_iff_toNat_le, Bool.or_eq_true, Bool.and_eq_true,
    beq_iff_eq, decide_eq_true_eq, same, or_assoc]
  exact Iff.rfl

theorem blank_of_isLayout {c : Char} (h : isLayout c = true) : isBlank c = true := by
  simp only [isLayout, Bool.or_eq_true, beq_iff_eq] at h
  rcases h with (((rfl | rfl) | rfl) | rfl) | rfl <;> decide

theorem solid_of_isNamePart {c : Char} (h : isNamePart c = true) : isBlank c = false := by
  rw [isNamePart, Bool.or_eq_true, isNameStart_iff, isDigit_iff] at h
  rw [Bool.eq_false_iff, ne_eq, isBlank_iff]
  omega

theorem solid_of_isDigit {c : Char} (h : isDigit c = true) : isBlank c = false :=
  solid_of_isNamePart (by rw [isNamePart, h, Bool.or_true])

theorem drop_takeWhile (p : Char → Bool) (s : List Char) :
    s.drop (s.takeWhile p).length = s.dropWhile p := by
  have split : s.takeWhile p ++ s.dropWhile p = s := List.takeWhile_append_dropWhile
  calc s.drop (s.takeWhile p).length
      = (s.takeWhile p ++ s.dropWhile p).drop (s.takeWhile p).length := by rw [split]
    _ = s.dropWhile p := List.drop_left

/-! ### Texts that go on alike -/

/-- The text is empty or starts with white space. -/
def Gap (s : List Char) : Prop := ∀ c ∈ s.head?, isBlank c = true

/-- The texts are the same until both come to white space or to their ends. -/
inductive Similar : List Char → List Char → Prop
  | gap {s s' : List Char} : Gap s → Gap s' → Similar s s'
  | cons {c : Char} {s s' : List Char} : Similar s s' → Similar (c :: s) (c :: s')

theorem gap_nil : Gap [] := fun _ h => nomatch h

theorem gap_cons {c : Char} {s : List Char} : Gap (c :: s) ↔ isBlank c = true := by
  simp [Gap]

namespace Similar

theorem refl (s : List Char) : Similar s s := by
  induction s with
  | nil => exact .gap gap_nil gap_nil
  | cons c s ih => exact .cons ih

theorem append (q : List Char) {s s' : List Char} (h : Similar s s') :
    Similar (q ++ s) (q ++ s') := by
  induction q with
  | nil => exact h
  | cons c q ih => exact .cons ih

variable {s s' : List Char} {p : Char → Bool}

/-- A character that is no white space stands at the head of both or of neither. -/
theorem head (h : Similar s s') {d : Char} (solid : isBlank d = false) :
    s.head? = some d ↔ s'.head? = some d := by
  cases h with
  | gap blank blank' =>
    constructor
    · intro first
      rw [blank d first] at solid
      cases solid
    · intro first
      rw [blank' d first] at solid
      cases solid
  | cons h => exact Iff.rfl

theorem takeWhile (h : Similar s s') (solid : ∀ c, p c = true → isBlank c = false) :
    s'.takeWhile p = s.takeWhile p := by
  have stops : ∀ {t : List Char}, Gap t → t.takeWhile p = [] := by
    intro t blank
    cases t with
    | nil => rfl
    | cons c t =>
      rw [List.takeWhile_cons_of_neg]
      intro passes
      have := solid c passes
      rw [gap_cons.1 blank] at this
      cases this
  induction h with
  | gap blank blank' => rw [stops blank, stops blank']
  | cons h ih => rw [List.takeWhile_cons, List.takeWhile_cons, ih]

/-- What stands behind the same characters, none of them white space. -/
theorem drop {n : Nat} (h : Similar s s') (inside : n ≤ s.length)
    (solid : ∀ c ∈ s.take n, isBlank c = false) :
    s'.take n = s.take n ∧ Similar (s.drop n) (s'.drop n) := by
  induction n generalizing s s' with
  | zero => exact ⟨rfl, h⟩
  | succ n ih =>
    cases h with
    | gap blank blank' =>
      cases s with
      | nil => cases inside
      | cons c s =>
        have := solid c (by simp)
        rw [gap_cons.1 blank] at this
        cases this
    | @cons c s s' h =>
      have rest := ih h (by simpa using inside) fun d member => solid d (by simp [member])
      exact ⟨by rw [List.take_succ_cons, List.take_succ_cons, rest.1], rest.2⟩

end Similar

/-! ### Numbers -/

namespace Numeral

theorem solid_of_mem_takeWhile {s : List Char} {c : Char} (h : c ∈ s.takeWhile isDigit) :
    isBlank c = false :=
  solid_of_isDigit (List.mem_takeWhile_imp h)

theorem takePlaces_similar {s s' : List Char} (h : Similar s s') :
    takePlaces s' = takePlaces s := by
  cases h with
  | gap blank blank' =>
    have none_ : ∀ {t}, Gap t → takePlaces t = [] := by
      intro t blank
      unfold takePlaces
      split
      · have := gap_cons.1 blank
        cases this
      · rfl
    rw [none_ blank, none_ blank']
  | @cons c s s' h =>
    by_cases point : c = '.'
    · subst point
      exact h.takeWhile fun c => solid_of_isDigit
    · unfold takePlaces
      split
      · rename_i same
        exact absurd (List.cons.inj same).1 point
      · split
        · rename_i same
          exact absurd (List.cons.inj same).1 point
        · rfl

/-- A point and digits behind it are characters of the text. -/
theorem takePlaces_spec {s : List Char} (some_ : (takePlaces s).isEmpty = false) :
    ∃ t, s = '.' :: takePlaces s ++ t ∧ ∀ c ∈ takePlaces s, isBlank c = false := by
  unfold takePlaces at *
  split at some_
  · rename_i cs
    exact ⟨cs.dropWhile isDigit, by rw [List.cons_append, List.takeWhile_append_dropWhile],
      fun c => solid_of_mem_takeWhile⟩
  · cases some_

theorem takeExponent_gap {e : Char} {s : List Char} (blank : Gap s) :
    takeExponent (e :: s) = ([], []) := by
  cases s with
  | nil => rfl
  | cons c s =>
    have isBlank_ := gap_cons.1 blank
    have noDigit : isDigit c = false := by
      refine Bool.eq_false_iff.2 fun digit => ?_
      rw [solid_of_isDigit digit] at isBlank_
      cases isBlank_
    have noSign : ¬ (c = '+' ∨ c = '-') := by
      rintro (rfl | rfl) <;> cases isBlank_
    simp [takeExponent, noDigit, noSign]

theorem takeExponent_similar {s s' : List Char} (h : Similar s s') :
    takeExponent s' = takeExponent s := by
  have none_ : ∀ {t}, Gap t → takeExponent t = ([], []) := by
    intro t blank
    unfold takeExponent
    split
    · rename_i e c cs
      have noMark : ¬ (e = 'e' ∨ e = 'E') := by
        rintro (rfl | rfl) <;> cases gap_cons.1 blank
      rw [if_neg noMark]
    · rfl
  cases h with
  | gap blank blank' => rw [none_ blank, none_ blank']
  | @cons e s s' h =>
    cases h with
    | gap blank blank' => rw [takeExponent_gap blank, takeExponent_gap blank']
    | @cons c s s' h =>
      have digits := h.takeWhile fun d => solid_of_isDigit (c := d)
      have more := (Similar.cons (c := c) h).takeWhile fun d => solid_of_isDigit (c := d)
      simp only [takeExponent, digits, more]

/-- The parts of an exponent are characters of the text. -/
theorem takeExponent_spec (s : List Char) :
    ∃ t, s = (takeExponent s).1 ++ (takeExponent s).2 ++ t ∧
      ∀ c ∈ (takeExponent s).1 ++ (takeExponent s).2, isBlank c = false := by
  have nothing : ∃ t, s = ([] : List Char) ++ [] ++ t ∧
      ∀ c ∈ ([] : List Char) ++ [], isBlank c = false := ⟨s, rfl, fun _ h => nomatch h⟩
  unfold takeExponent
  split
  · rename_i e c cs
    split
    · rename_i mark
      have solidMark : isBlank e = false := by rcases mark with rfl | rfl <;> decide
      split
      · refine ⟨(c :: cs).dropWhile isDigit, ?_, ?_⟩
        · rw [List.append_assoc, List.takeWhile_append_dropWhile]
          rfl
        · intro d member
          rcases List.mem_append.1 member with member | member
          · rw [List.mem_singleton.1 member]
            exact solidMark
          · exact solid_of_mem_takeWhile member
      · split
        · rename_i sign
          refine ⟨cs.dropWhile isDigit, ?_, ?_⟩
          · rw [List.append_assoc, List.takeWhile_append_dropWhile]
            rfl
          · intro d member
            rcases List.mem_append.1 member with member | member
            · rcases List.mem_cons.1 member with rfl | member
              · exact solidMark
              · rw [List.mem_singleton.1 member]
                rcases sign.1 with rfl | rfl <;> decide
            · exact solid_of_mem_takeWhile member
        · exact nothing
    · exact nothing
  · exact nothing

theorem takeSuffix_similar {integral : Bool} {s s' : List Char} (h : Similar s s') :
    takeSuffix integral s' = takeSuffix integral s := by
  have none_ : ∀ {t}, Gap t → takeSuffix integral t = [] := by
    intro t blank
    cases t with
    | nil => rfl
    | cons c t =>
      refine if_neg ?_
      intro suffix
      have isBlank_ := gap_cons.1 blank
      simp only [List.mem_cons, List.not_mem_nil, or_false] at suffix
      rcases suffix with (rfl | rfl | rfl | rfl) | ⟨_, rfl | rfl⟩ <;> cases isBlank_
  cases h with
  | gap blank blank' => rw [none_ blank, none_ blank']
  | cons h => rfl

theorem takeSuffix_spec (integral : Bool) (s : List Char) :
    ∃ t, s = takeSuffix integral s ++ t ∧ ∀ c ∈ takeSuffix integral s, isBlank c = false := by
  unfold takeSuffix
  split
  · rename_i c cs
    split
    · rename_i suffix
      refine ⟨cs, rfl, fun d member => ?_⟩
      rw [List.mem_singleton.1 member]
      simp only [List.mem_cons, List.not_mem_nil, or_false] at suffix
      rcases suffix with (rfl | rfl | rfl | rfl) | ⟨_, rfl | rfl⟩ <;> decide
    · exact ⟨c :: cs, rfl, fun _ h => nomatch h⟩
  · exact ⟨[], rfl, fun _ h => nomatch h⟩

/-- Texts that go on alike after a part of the one that has no white space. -/
theorem drop_similar {s s' part t : List Char} (h : Similar s s') (split : s = part ++ t)
    (solid : ∀ c ∈ part, isBlank c = false) :
    Similar (s.drop part.length) (s'.drop part.length) := by
  have here : s.take part.length = part := by rw [split, List.take_left]
  refine (h.drop ?_ ?_).2
  · rw [split, List.length_append]
    omega
  · rw [here]
    exact solid

theorem takeWhile_split (s : List Char) :
    s = s.takeWhile isDigit ++ s.drop (s.takeWhile isDigit).length := by
  rw [drop_takeWhile, List.takeWhile_append_dropWhile]

/-- What follows the digits after the point. -/
def behindPlaces (s : List Char) : List Char :=
  if (takePlaces s).isEmpty then s else s.drop ((takePlaces s).length + 1)

theorem behindPlaces_similar {s s' : List Char} (h : Similar s s') :
    Similar (behindPlaces s) (behindPlaces s') := by
  unfold behindPlaces
  rw [takePlaces_similar h]
  cases empty : (takePlaces s).isEmpty with
  | true => exact h
  | false =>
    obtain ⟨t, split, solid⟩ := takePlaces_spec empty
    have visible : ∀ c ∈ '.' :: takePlaces s, isBlank c = false := by
      intro c member
      rcases List.mem_cons.1 member with rfl | member
      · decide
      · exact solid c member
    exact drop_similar h split visible

/-- The point and the digits behind it. -/
theorem behindPlaces_spec (s : List Char) :
    s = (if (takePlaces s).isEmpty then [] else '.' :: takePlaces s) ++ behindPlaces s ∧
      ∀ c ∈ if (takePlaces s).isEmpty then [] else '.' :: takePlaces s, isBlank c = false := by
  unfold behindPlaces
  cases empty : (takePlaces s).isEmpty with
  | true => exact ⟨rfl, fun _ h => nomatch h⟩
  | false =>
    obtain ⟨t, split, solid⟩ := takePlaces_spec empty
    rw [if_neg Bool.false_ne_true, if_neg Bool.false_ne_true]
    constructor
    · have dropped := congrArg (List.drop ('.' :: takePlaces s).length) split
      rw [List.drop_left] at dropped
      rw [List.length_cons] at dropped
      rw [dropped]
      exact split
    · intro c member
      rcases List.mem_cons.1 member with rfl | member
      · decide
      · exact solid c member

theorem read_eq (s : List Char) : read s =
    let afterWhole := s.drop (s.takeWhile isDigit).length
    let exponent := takeExponent (behindPlaces afterWhole)
    ⟨s.takeWhile isDigit, takePlaces afterWhole, exponent.1, exponent.2,
      takeSuffix ((takePlaces afterWhole).isEmpty && exponent.1.isEmpty)
        ((behindPlaces afterWhole).drop (exponent.1.length + exponent.2.length))⟩ := rfl

theorem read_similar {s s' : List Char} (h : Similar s s') : read s' = read s := by
  have whole := h.takeWhile fun c => solid_of_isDigit (c := c)
  have afterWhole := drop_similar h (takeWhile_split s) fun c => solid_of_mem_takeWhile
  have afterPlaces := behindPlaces_similar afterWhole
  obtain ⟨t, split, solid⟩ := takeExponent_spec (behindPlaces (s.drop (s.takeWhile isDigit).length))
  have afterExponent := drop_similar afterPlaces split solid
  rw [List.length_append] at afterExponent
  rw [read_eq s', read_eq s]
  dsimp only
  rw [whole, takePlaces_similar afterWhole, takeExponent_similar afterPlaces,
    takeSuffix_similar afterExponent]

/-- A number is a part of the text without white space. -/
theorem read_spec (s : List Char) :
    ∃ t, s = (read s).chars ++ t ∧ ∀ c ∈ (read s).chars, isBlank c = false := by
  rw [read_eq]
  generalize hw : s.takeWhile isDigit = whole
  have split : s = whole ++ s.drop whole.length := hw ▸ takeWhile_split s
  generalize s.drop whole.length = afterWhole at split
  dsimp only [chars]
  obtain ⟨exponent, splitPlaces, solidExponent⟩ := takeExponent_spec (behindPlaces afterWhole)
  generalize takeExponent (behindPlaces afterWhole) = parts at *
  obtain ⟨mark, digits⟩ := parts
  dsimp only at *
  have behind : (behindPlaces afterWhole).drop (mark.length + digits.length) = exponent := by
    rw [splitPlaces, ← List.length_append, List.drop_left]
  rw [behind]
  obtain ⟨t, splitSuffix, solidSuffix⟩ :=
    takeSuffix_spec ((takePlaces afterWhole).isEmpty && mark.isEmpty) exponent
  generalize takeSuffix _ exponent = suffix at *
  have solidWhole : ∀ c ∈ whole, isBlank c = false := fun c member =>
    solid_of_mem_takeWhile (hw ▸ member)
  obtain ⟨splitWhole, solidPlaces⟩ := behindPlaces_spec afterWhole
  refine ⟨t, ?_, ?_⟩
  · rw [splitPlaces, splitSuffix] at splitWhole
    rw [split]
    refine (congrArg (whole ++ ·) splitWhole).trans ?_
    simp only [List.append_assoc]
  · intro c member
    simp only [List.mem_append] at member solidExponent
    rcases member with (((h | h) | h) | h) | h
    · exact solidWhole c h
    · exact solidPlaces c h
    · exact solidExponent c (.inl h)
    · exact solidExponent c (.inr h)
    · exact solidSuffix c h

end Numeral

/-! ### Signs and quoted literals -/

theorem solid_of_mem_chars {s : Symbol} {c : Char} (h : c ∈ s.chars) : isBlank c = false := by
  have solid : s.chars.all (fun d => !isBlank d) = true := by cases s <;> rfl
  simpa using List.all_eq_true.1 solid c h

/-- No sign goes on with white space. -/
theorem pair_gap (c : Char) {s : List Char} (blank : Gap s) :
    (s.head?.bind fun d => Symbol.all.find? (·.chars == [c, d])) = none := by
  cases s with
  | nil => rfl
  | cons d s =>
    refine List.find?_eq_none.2 fun sign _ same => ?_
    have member : d ∈ sign.chars := by
      rw [beq_iff_eq.1 same]
      simp
    have := solid_of_mem_chars member
    rw [gap_cons.1 blank] at this
    cases this

theorem symbolAt_similar (c : Char) {s s' : List Char} (h : Similar s s') :
    symbolAt c s' = symbolAt c s := by
  unfold symbolAt
  cases h with
  | gap blank blank' => rw [pair_gap c blank, pair_gap c blank']
  | cons h => rfl

theorem symbolAt_solid {c : Char} {s : List Char} {n : Nat} {t : Token}
    (read : symbolAt c s = (n, .token t)) :
    n ≤ s.length ∧ ∀ d ∈ c :: s.take n, isBlank d = false := by
  unfold symbolAt at read
  split at read
  · rename_i sign found
    cases read
    cases s with
    | nil => cases found
    | cons d s =>
      have same : sign.chars = [c, d] := by
        have found : Symbol.all.find? (·.chars == [c, d]) = some sign := found
        simpa using List.find?_some found
      refine ⟨by simp, fun e member => solid_of_mem_chars (s := sign) ?_⟩
      rw [same]
      exact member
  · split at read
    · rename_i sign found
      cases read
      have same : sign.chars = [c] := by simpa using List.find?_some found
      refine ⟨by simp, fun e member => solid_of_mem_chars (s := sign) ?_⟩
      rw [same]
      exact member
    · cases read

/-- The body of a literal that is closed stands on one line, and it is the same before any text. -/
theorem quotedLength_spec {quote : Char} (noEscape : quote ≠ '\\') (s : List Char)
    (closed : (s.drop (quotedLength quote s)).head? = some quote) :
    quotedLength quote s < s.length ∧ '\n' ∉ s.take (quotedLength quote s) ∧
      ∀ t, quotedLength quote (s.take (quotedLength quote s) ++ quote :: t)
        = quotedLength quote s := by
  have atQuote : ∀ t, quotedLength quote (quote :: t) = 0 := by
    intro t
    unfold quotedLength
    split
    · rename_i same
      exact absurd (List.cons.inj same).1 noEscape
    · rename_i same
      rw [if_pos (.inl (List.cons.inj same).1.symm)]
    · rfl
  have ordinary : ∀ {c t}, ¬(c = quote ∨ c = '\n' ∨ c = '\\') →
      quotedLength quote (c :: t) = 1 + quotedLength quote t := by
    intro c t go
    conv => lhs; unfold quotedLength
    split
    · rename_i same
      exact absurd (.inr (.inr (List.cons.inj same).1)) go
    · rename_i same
      obtain ⟨rfl, rfl⟩ := List.cons.inj same
      rw [if_neg go]
    · rename_i same
      cases same
  fun_induction quotedLength quote s with
  | case1 cs => exact absurd (Option.some.inj closed).symm noEscape
  | case2 c cs notFeed ih =>
    rw [Nat.add_comm, List.drop_succ_cons, List.drop_succ_cons] at closed
    obtain ⟨inside, line, stable⟩ := ih closed
    rw [Nat.add_comm]
    refine ⟨by simpa using inside, ?_, fun t => ?_⟩
    · simp only [List.take_succ_cons, List.mem_cons, not_or]
      exact ⟨by decide, Ne.symm notFeed, line⟩
    · simp only [List.take_succ_cons, List.cons_append]
      rw [quotedLength, if_neg notFeed, stable, Nat.add_comm]
  | case3 c cs notEscape stop =>
    have isQuote : c = quote := Option.some.inj closed
    refine ⟨by simp, fun h => (nomatch h), fun t => ?_⟩
    exact atQuote t
  | case4 c cs notEscape go ih =>
    rw [Nat.add_comm, List.drop_succ_cons] at closed
    obtain ⟨inside, line, stable⟩ := ih closed
    rw [Nat.add_comm]
    refine ⟨by simpa using inside, ?_, fun t => ?_⟩
    · simp only [List.take_succ_cons, List.mem_cons, not_or]
      exact ⟨fun feed => go (.inr (.inl feed.symm)), line⟩
    · rw [List.take_succ_cons, List.cons_append, ordinary go, stable, Nat.add_comm]
  | case5 => cases closed

/-! ### One piece -/

/-- The text stands on one line and does not end in white space. -/
def Firm (part : List Char) : Prop :=
  '\n' ∉ part ∧ ∃ q d, part = q ++ [d] ∧ isBlank d = false

theorem solid_slash : isBlank '/' = false := rfl

theorem solid_star : isBlank '*' = false := rfl

theorem firm_of_solid {c : Char} {s : List Char} (solid : ∀ d ∈ c :: s, isBlank d = false) :
    Firm (c :: s) := by
  refine ⟨fun feed => ?_, (c :: s).dropLast, (c :: s).getLast (by simp),
    (List.dropLast_concat_getLast (by simp)).symm, solid _ (List.getLast_mem _)⟩
  have := solid _ feed
  cases this

/-- The text starts a comment. -/
def OpensComment (c : Char) (cs : List Char) : Prop :=
  c = '/' ∧ (cs.head? = some '/' ∨ cs.head? = some '*')

/-- A piece that is neither white space nor a comment. -/
def tokenAt (c : Char) (cs : List Char) : Nat × Piece :=
  if isNameStart c then
    ((c :: cs.takeWhile isNamePart).length - 1,
      .token (wordToken (String.ofList (c :: cs.takeWhile isNamePart))))
  else if isDigit c then
    ((Numeral.read (c :: cs)).chars.length - 1, match (Numeral.read (c :: cs)).token? with
      | some t => .token t
      | none => .bad (.invalidNumber (String.ofList (Numeral.read (c :: cs)).chars)))
  else if c = '"' then quotedPiece c stringPiece (.bad .unterminatedString) cs
  else if c = '\x27' then quotedPiece c charPiece (.bad (.unexpectedCharacter c)) cs
  else symbolAt c cs

theorem pieceAt_eq {c : Char} {cs : List Char} (noLayout : isLayout c = false)
    (noComment : ¬ OpensComment c cs) : pieceAt c cs = tokenAt c cs := by
  have first : ¬ (c = '/' ∧ cs.head? = some '/') := fun h => noComment ⟨h.1, .inl h.2⟩
  have second : ¬ (c = '/' ∧ cs.head? = some '*') := fun h => noComment ⟨h.1, .inr h.2⟩
  rw [pieceAt, noLayout, if_neg Bool.false_ne_true, if_neg first, if_neg second]
  rfl

/-- White space and comments are no tokens. -/
theorem of_pieceAt_token {c : Char} {cs : List Char} {n : Nat} {t : Token}
    (read : pieceAt c cs = (n, .token t)) : isLayout c = false ∧ ¬ OpensComment c cs := by
  unfold pieceAt at read
  split at read
  · cases read
  · rename_i noLayout
    split at read
    · cases read
    · rename_i first
      split at read
      · split at read <;> cases read
      · rename_i second
        refine ⟨Bool.eq_false_iff.2 noLayout, ?_⟩
        rintro ⟨same, h | h⟩
        · exact first ⟨same, h⟩
        · exact second ⟨same, h⟩

theorem quotedPiece_token {quote : Char} (noEscape : quote ≠ '\\') (solid : isBlank quote = false)
    {closed : List Char → Piece} {cause : LexCause} {cs : List Char} {n : Nat} {t : Token}
    (read : quotedPiece quote closed (.bad cause) cs = (n, .token t)) :
    n ≤ cs.length ∧ Firm (quote :: cs.take n) ∧
      ∀ rest, quotedPiece quote closed (.bad cause) (cs.take n ++ rest) = (n, .token t) := by
  unfold quotedPiece at read
  dsimp only at read
  split at read
  · rename_i isClosed
    simp only [Prod.mk.injEq] at read
    obtain ⟨rfl, body⟩ := read
    obtain ⟨inside, line, stable⟩ := quotedLength_spec noEscape cs isClosed
    generalize quotedLength quote cs = k at *
    have split : cs.take (k + 1) = cs.take k ++ [quote] := by
      rw [List.take_add_one, ← List.head?_drop, isClosed]
      rfl
    refine ⟨inside, ⟨?_, quote :: cs.take k, quote, by rw [split]; rfl, solid⟩, fun rest => ?_⟩
    · have noFeed : quote ≠ '\n' := by
        rintro rfl
        cases solid
      rw [split]
      intro feed
      rcases List.mem_cons.1 feed with feed | feed
      · exact noFeed feed.symm
      · rcases List.mem_append.1 feed with feed | feed
        · exact line feed
        · exact noFeed (List.mem_singleton.1 feed).symm
    · have length : (cs.take k).length = k := by
        rw [List.length_take]
        omega
      rw [split, List.append_assoc, List.singleton_append]
      unfold quotedPiece
      dsimp only
      rw [stable]
      have behind : (cs.take k ++ quote :: rest).drop k = quote :: rest := by
        rw [List.drop_left' length]
      have before : (cs.take k ++ quote :: rest).take k = cs.take k := by
        rw [List.take_left' length]
      rw [behind, before, List.head?_cons, if_pos rfl, body]
  · cases read

theorem tokenAt_token {c : Char} {cs : List Char} {n : Nat} {t : Token}
    (read : tokenAt c cs = (n, .token t)) :
    n ≤ cs.length ∧ isBlank c = false ∧ Firm (c :: cs.take n) ∧
      ∀ rest, Similar (cs.drop n) rest → tokenAt c (cs.take n ++ rest) = (n, .token t) := by
  have similar : ∀ {rest}, Similar (cs.drop n) rest → Similar cs (cs.take n ++ rest) := by
    intro rest h
    have := h.append (cs.take n)
    rwa [List.take_append_drop] at this
  have plain : n ≤ cs.length → (∀ d ∈ c :: cs.take n, isBlank d = false) →
      (∀ cs', Similar cs cs' → tokenAt c cs' = tokenAt c cs) →
      n ≤ cs.length ∧ isBlank c = false ∧ Firm (c :: cs.take n) ∧
        ∀ rest, Similar (cs.drop n) rest → tokenAt c (cs.take n ++ rest) = (n, .token t) :=
    fun inside solid stable => ⟨inside, solid c (by simp), firm_of_solid solid, fun rest h =>
      (stable _ (similar h)).trans read⟩
  have quoted : ∀ closed cause, isBlank c = false → c ≠ '\\' →
      quotedPiece c closed (.bad cause) cs = (n, .token t) →
      (∀ cs', tokenAt c cs' = quotedPiece c closed (.bad cause) cs') →
      n ≤ cs.length ∧ isBlank c = false ∧ Firm (c :: cs.take n) ∧
        ∀ rest, Similar (cs.drop n) rest → tokenAt c (cs.take n ++ rest) = (n, .token t) := by
    intro closed cause solid noEscape read same
    obtain ⟨inside, firm, stable⟩ := quotedPiece_token noEscape solid read
    refine ⟨inside, solid, firm, fun rest _ => ?_⟩
    rw [same]
    exact stable rest
  by_cases start : isNameStart c = true
  · have word : ∀ cs, tokenAt c cs = ((c :: cs.takeWhile isNamePart).length - 1,
        .token (wordToken (String.ofList (c :: cs.takeWhile isNamePart)))) := fun cs => if_pos start
    have length : n = (cs.takeWhile isNamePart).length := by
      rw [word] at read
      exact (congrArg Prod.fst read).symm
    have taken : cs.take n = cs.takeWhile isNamePart := by
      rw [length]
      exact (List.prefix_iff_eq_take.1 (List.takeWhile_prefix _)).symm
    refine plain ?_ ?_ ?_
    · rw [length]
      exact (List.takeWhile_prefix _).length_le
    · intro d member
      rw [taken] at member
      rcases List.mem_cons.1 member with rfl | member
      · exact solid_of_isNamePart (by rw [isNamePart, start, Bool.true_or])
      · exact solid_of_isNamePart (List.mem_takeWhile_imp member)
    · intro cs' h
      rw [word, word, h.takeWhile fun d => solid_of_isNamePart (c := d)]
  · by_cases digit : isDigit c = true
    · have number : ∀ cs, tokenAt c cs = ((Numeral.read (c :: cs)).chars.length - 1,
          match (Numeral.read (c :: cs)).token? with
          | some t => .token t
          | none => .bad (.invalidNumber (String.ofList (Numeral.read (c :: cs)).chars))) := by
        intro cs
        rw [tokenAt, if_neg start, if_pos digit]
      obtain ⟨t', split, solid⟩ := Numeral.read_spec (c :: cs)
      have length : n = (Numeral.read (c :: cs)).chars.length - 1 := by
        rw [number] at read
        exact (congrArg Prod.fst read).symm
      have whole : ∃ q, (Numeral.read (c :: cs)).chars = c :: q := by
        have first : (Numeral.read (c :: cs)).whole = c :: cs.takeWhile isDigit :=
          List.takeWhile_cons_of_pos digit
        rw [Numeral.chars, first]
        exact ⟨_, rfl⟩
      obtain ⟨q, same⟩ := whole
      rw [same] at split solid length
      have rest : cs = q ++ t' := (List.cons.inj split).2
      have inside : n = q.length := by simpa using length
      refine plain ?_ ?_ ?_
      · rw [rest, List.length_append]
        omega
      · rw [inside, rest, List.take_left]
        exact solid
      · intro cs' h
        rw [number, number, Numeral.read_similar (.cons h)]
    · by_cases text : c = '"'
      · have same : ∀ cs, tokenAt c cs
            = quotedPiece c stringPiece (.bad .unterminatedString) cs := by
          intro cs
          rw [tokenAt, if_neg start, if_neg digit, if_pos text]
        exact quoted _ _ (by rw [text]; decide) (by rw [text]; decide) (same cs ▸ read) same
      · by_cases char : c = '\x27'
        · have same : ∀ cs, tokenAt c cs
              = quotedPiece c charPiece (.bad (.unexpectedCharacter c)) cs := by
            intro cs
            rw [tokenAt, if_neg start, if_neg digit, if_neg text, if_pos char]
          exact quoted _ _ (by rw [char]; decide) (by rw [char]; decide) (same cs ▸ read) same
        · have sign : ∀ cs, tokenAt c cs = symbolAt c cs := by
            intro cs
            rw [tokenAt, if_neg start, if_neg digit, if_neg text, if_neg char]
          obtain ⟨inside, solid⟩ := symbolAt_solid (sign cs ▸ read)
          refine plain inside solid fun cs' h => ?_
          rw [sign, sign, symbolAt_similar c h]

theorem tokenAt_ne_blank (c : Char) (cs : List Char) (n : Nat) :
    tokenAt c cs ≠ (n, .blank) := by
  have text : ∀ body, stringPiece body ≠ .blank := by
    intro body
    unfold stringPiece
    split <;> simp
  have char : ∀ body, charPiece body ≠ .blank := by
    intro body
    unfold charPiece
    split <;> simp
  have quoted : ∀ quote closed cause, (∀ body, closed body ≠ .blank) →
      quotedPiece quote closed (.bad cause) cs ≠ (n, .blank) := by
    intro quote closed cause never
    unfold quotedPiece
    dsimp only
    split
    · exact fun same => never _ (congrArg Prod.snd same)
    · simp
  unfold tokenAt
  split
  · simp
  · split
    · split <;> simp
    · split
      · exact quoted _ _ _ text
      · split
        · exact quoted _ _ _ char
        · unfold symbolAt
          split
          · simp
          · split <;> simp

/-- A token is the same whatever follows it, up to its white space. -/
theorem pieceAt_token {c : Char} {cs : List Char} {n : Nat} {t : Token}
    (read : pieceAt c cs = (n, .token t)) :
    n ≤ cs.length ∧ isBlank c = false ∧ Firm (c :: cs.take n) ∧
      ∀ rest, Similar (cs.drop n) rest → pieceAt c (cs.take n ++ rest) = (n, .token t) := by
  obtain ⟨noLayout, noComment⟩ := of_pieceAt_token read
  rw [pieceAt_eq noLayout noComment] at read
  obtain ⟨inside, solid, firm, stable⟩ := tokenAt_token read
  refine ⟨inside, solid, firm, fun rest h => ?_⟩
  have similar := h.append (cs.take n)
  rw [List.take_append_drop] at similar
  rw [pieceAt_eq noLayout, stable rest h]
  rintro ⟨slash, opens⟩
  refine noComment ⟨slash, ?_⟩
  rw [similar.head (by decide), similar.head (by decide)]
  exact opens

/-! ### Tokens of a text -/

/-- The tokens of a text; none if something in it is no token. -/
def words? : List Char → Option (List Token)
  | [] => some []
  | c :: cs =>
    match pieceAt c cs with
    | (n, .blank) => words? (cs.drop n)
    | (n, .token t) => (words? (cs.drop n)).map (t :: ·)
    | (_, .bad _) => none
termination_by cs => cs.length
decreasing_by all_goals (simp only [List.length_drop, List.length_cons]; omega)

theorem words?_blank {c : Char} {cs : List Char} {n : Nat} (h : pieceAt c cs = (n, .blank)) :
    words? (c :: cs) = words? (cs.drop n) := by
  rw [words?, h]

theorem words?_token {c : Char} {cs : List Char} {n : Nat} {t : Token}
    (h : pieceAt c cs = (n, .token t)) :
    words? (c :: cs) = (words? (cs.drop n)).map (t :: ·) := by
  rw [words?, h]

/-- Tokens and errors do not depend on where the text stands. -/
theorem scanFrom_words (p : Position) (cs : List Char) :
    words? cs = if (scanFrom p cs).2.1 = [] then some ((scanFrom p cs).1.map (·.token))
      else none := by
  induction cs using words?.induct generalizing p with
  | case1 => simp [words?, scanFrom]
  | case2 c cs n h ih =>
    rw [words?_blank h, scanFrom, h]
    exact ih _
  | case3 c cs n t h ih =>
    rw [words?_token h, scanFrom, h, ih (p.advance (c :: cs.take n))]
    dsimp only
    split <;> rfl
  | case4 c cs n cause h =>
    rw [words?, h, scanFrom, h]
    rfl

/-- A text has tokens if it can be scanned, the tokens of the scan. -/
theorem words?_eq_some_iff {source : String} {ts : List Token} :
    words? source.toList = some ts ↔
      ∃ l, scan source = .ok l ∧ l.tokens.map (·.token) = ts := by
  rw [scanFrom_words {}, scan_eq]
  generalize scanFrom {} source.toList = scanned
  obtain ⟨tokens, errors, last⟩ := scanned
  cases errors with
  | nil => simp
  | cons e es => simp

/-- White space in front of a text does not matter. -/
theorem words?_layout {c : Char} {cs : List Char} (layout : isLayout c = true) :
    words? (c :: cs) = words? cs := by
  have skip : ∀ {c cs}, isLayout c = true → words? (c :: cs) = words? (cs.dropWhile isLayout) := by
    intro c cs layout
    rw [words?_blank (if_pos layout)]
    rw [drop_takeWhile]
  rw [skip layout]
  cases cs with
  | nil => rfl
  | cons d cs =>
    by_cases more : isLayout d = true
    · rw [List.dropWhile_cons_of_pos more, skip more]
    · rw [List.dropWhile_cons_of_neg more]

theorem words?_line (cs : List Char) :
    words? ('/' :: '/' :: cs) = words? (cs.dropWhile (· ≠ '\n')) := by
  have piece : pieceAt '/' ('/' :: cs) = ((cs.takeWhile (· ≠ '\n')).length + 1, .blank) := by
    simp [pieceAt, isLayout]
  rw [words?_blank piece, List.drop_succ_cons, drop_takeWhile]

theorem words?_block {cs : List Char} {n : Nat} (h : commentLength? cs = some n) :
    words? ('/' :: '*' :: cs) = words? (cs.drop n) := by
  have piece : pieceAt '/' ('*' :: cs) = (n + 1, .blank) := by
    simp [pieceAt, isLayout, h]
  rw [words?_blank piece, List.drop_succ_cons]

/-- The text is made of white space, comments and these tokens. -/
inductive Scans : List Char → List Token → Prop
  | nil : Scans [] []
  | layout {c : Char} {cs : List Char} {ts : List Token} : isLayout c = true → Scans cs ts →
      Scans (c :: cs) ts
  | line {cs : List Char} {ts : List Token} : Scans (cs.dropWhile (· ≠ '\n')) ts →
      Scans ('/' :: '/' :: cs) ts
  | block {cs : List Char} {n : Nat} {ts : List Token} : commentLength? cs = some n →
      Scans (cs.drop n) ts → Scans ('/' :: '*' :: cs) ts
  | token {c : Char} {cs : List Char} {n : Nat} {t : Token} {ts : List Token} :
      pieceAt c cs = (n, .token t) → Scans (cs.drop n) ts → Scans (c :: cs) (t :: ts)

theorem Scans.words? {cs : List Char} {ts : List Token} (h : Scans cs ts) :
    words? cs = some ts := by
  induction h with
  | nil => rw [Source.words?]
  | layout layout _ ih => rw [words?_layout layout, ih]
  | line _ ih => rw [words?_line, ih]
  | block closed _ ih => rw [words?_block closed, ih]
  | token piece _ ih => rw [words?_token piece, ih, Option.map_some]

theorem scans_of_words? {cs : List Char} {ts : List Token} (h : words? cs = some ts) :
    Scans cs ts := by
  match cs, h with
  | [], h =>
    rw [words?, Option.some.injEq] at h
    exact h ▸ .nil
  | c :: cs, h =>
    by_cases layout : isLayout c = true
    · rw [words?_layout layout] at h
      exact .layout layout (scans_of_words? h)
    · by_cases comment : OpensComment c cs
      · obtain ⟨rfl, opens⟩ := comment
        rcases opens with opens | opens
        · obtain ⟨cs, rfl⟩ := List.head?_eq_some_iff.1 opens
          rw [words?_line] at h
          have := (cs.dropWhile_suffix (· ≠ '\n')).length_le
          exact .line (scans_of_words? h)
        · obtain ⟨cs, rfl⟩ := List.head?_eq_some_iff.1 opens
          cases closed : commentLength? cs with
          | some n =>
            rw [words?_block closed] at h
            exact .block closed (scans_of_words? h)
          | none =>
            have piece : pieceAt '/' ('*' :: cs) = (cs.length + 1, .bad .unterminatedComment) := by
              simp [pieceAt, isLayout, closed]
            rw [words?, piece] at h
            cases h
      · rw [Bool.not_eq_true] at layout
        cases piece : pieceAt c cs with
        | mk n what =>
          cases what with
          | blank =>
            rw [pieceAt_eq layout comment] at piece
            exact absurd piece (tokenAt_ne_blank c cs n)
          | token t =>
            rw [words?_token piece] at h
            obtain ⟨us, rest, rfl⟩ := Option.map_eq_some_iff.1 h
            exact .token piece (scans_of_words? rest)
          | bad cause =>
            rw [words?, piece] at h
            cases h
termination_by cs.length
decreasing_by
  all_goals simp_all
  all_goals omega

end Classwright.Source
