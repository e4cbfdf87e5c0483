import Classwright.Proofs.Documents

/-!
# Fractions in documents

A finite number that is not zero has digits, the first of which is no zero. So however its point is
placed, it is written as numbers in documents are, and the document is read as it was written.
-/

namespace Classwright

namespace Decimal

theorem dropZeros_pos (fuel : Nat) {d : Decimal} (positive : 0 < d.digits) :
    0 < (dropZeros fuel d).digits := by
  induction fuel generalizing d with
  | zero => exact positive
  | succ fuel ih =>
    rw [dropZeros]
    split
    · exact ih (Nat.div_pos (by omega) (by decide))
    · exact positive

/-- Zero is outside of an interval of positive sizes, so it is on no grid the nearest number. -/
theorem Interval.onGrid_pos (tie : Tie) {i : Interval} (low : 0 < i.low) (value : 0 < i.value)
    (j : Nat) : 0 < (i.onGrid tie j).1 := by
  have outside : i.contains 0 = false := by
    unfold contains
    split
    · simp
      omega
    · simp
  induction j with
  | zero => exact value
  | succ j ih =>
    cases tie
    all_goals
      rw [onGrid]
      split
      · rename_i fits
        refine Nat.pos_of_ne_zero fun none_ => ?_
        dsimp only at none_
        rw [none_, Nat.zero_mul, outside] at fits
        cases fits
      · split
        · exact Nat.succ_pos _
        · exact ih

theorem shortest_pos {f : Format} (tie : Tie) {x : Binary f} (some_ : x.isZero = false) :
    0 < (shortest tie x).digits := by
  have magnitude : x.magnitude ≠ 0 := by
    rintro none_
    rw [Binary.isZero, none_] at some_
    cases some_
  have significand : 0 < x.significand := by
    unfold Binary.significand
    split
    · exact Nat.pos_of_ne_zero magnitude
    · exact Nat.add_pos_left (Nat.pow_pos (by decide)) _
  have unit : ∀ n > 0, 0 < (if 0 ≤ x.scale - 2 then n <<< (x.scale - 2).toNat
      else n * Nat.pow 5 (-(x.scale - 2)).toNat) := by
    intro n positive
    split
    · rw [Nat.shiftLeft_eq]
      exact Nat.mul_pos positive (Nat.pow_pos (by decide))
    · exact Nat.mul_pos positive (Nat.pow_pos (by decide))
  unfold shortest
  rw [some_, if_neg Bool.false_ne_true]
  refine dropZeros_pos 400 (Interval.onGrid_pos tie (unit _ ?_) (unit _ (by omega)) _)
  split <;> omega

end Decimal

namespace JsonNumber

theorem digitList_ne_nil (n : Nat) : Decimal.digitList n ≠ [] := by
  rw [digitList_eq]
  exact Nat.toDigits_ne_nil

theorem head_digitList {n : Nat} (positive : 0 < n) :
    (Decimal.digitList n).head? ≠ some '0' := by
  rw [digitList_eq]
  intro leading
  rw [eq_zero_of_leading_zero leading] at positive
  cases positive

theorem isDigit_of_mem_zeros {n : Nat} : ∀ c ∈ List.replicate n '0', Json.isDigit c = true := by
  intro c member
  rw [List.eq_of_mem_replicate member]
  rfl

/-- A single zero in front of the point. -/
theorem written_below_one {negative : Bool} {places : List Char}
    (digits : ∀ c ∈ places, Json.isDigit c = true) :
    Written { negative := negative, whole := ['0'], places := places } where
  whole c member := by
    rw [List.mem_singleton.1 member]
    rfl
  nonempty := nofun
  leading _ := rfl
  places := digits
  exponent := nofun

/-- Digits in front of the point that do not start with a zero. -/
theorem written_digits {negative : Bool} {whole places : List Char}
    (digits : ∀ c ∈ whole, Json.isDigit c = true) (nonempty : whole ≠ [])
    (leading : whole.head? ≠ some '0') (places_ : ∀ c ∈ places, Json.isDigit c = true)
    {exponent : Option (Bool × List Char)}
    (power : ∀ e ∈ exponent, e.2 ≠ [] ∧ ∀ c ∈ e.2, Json.isDigit c = true) :
    Written ⟨negative, whole, places, exponent⟩ where
  whole := digits
  nonempty := nonempty
  leading zero := absurd zero leading
  places := places_
  exponent := power

theorem written_ofBinary {f : Format} (style : Style) (x : Binary f) :
    (ofBinary style x).Written := by
  have digits : ∀ {n : Nat}, ∀ c ∈ Decimal.digitList n, Json.isDigit c = true :=
    isDigit_of_mem_digitList
  have front : ∀ {n k : Nat}, ∀ c ∈ (Decimal.digitList n).take k, Json.isDigit c = true :=
    fun c member => digits c (List.mem_of_mem_take member)
  have back : ∀ {n k : Nat}, ∀ c ∈ (Decimal.digitList n).drop k, Json.isDigit c = true :=
    fun c member => digits c (List.mem_of_mem_drop member)
  -- at least one digit is taken, and it is the first one
  have taken : ∀ {n k : Nat}, 0 < n → 0 < k → (Decimal.digitList n).take k ≠ [] ∧
      ((Decimal.digitList n).take k).head? ≠ some '0' := by
    intro n k positive some_
    have leading := head_digitList positive
    cases ds : Decimal.digitList n with
    | nil => exact absurd ds (digitList_ne_nil n)
    | cons d ds' =>
      rw [ds] at leading
      cases k with
      | zero => cases some_
      | succ k => exact ⟨nofun, leading⟩
  unfold ofBinary
  dsimp only
  cases zero : x.isZero with
  | true => exact written_below_one fun c member => by rw [List.mem_singleton.1 member]; rfl
  | false =>
    have positive := Decimal.shortest_pos .even zero
    rw [if_neg Bool.false_ne_true]
    generalize Decimal.shortest .even x = d at positive ⊢
    split
    · -- a whole number
      refine written_digits (fun c member => ?_) ?_ ?_ (fun c member => ?_)
        fun _ none_ => nomatch none_
      · exact (List.mem_append.1 member).elim (digits c) (isDigit_of_mem_zeros c)
      · exact List.append_ne_nil_of_left_ne_nil (digitList_ne_nil _) _
      · rw [List.head?_append, Option.or_of_isSome
          (List.isSome_head?.2 (digitList_ne_nil _))]
        exact head_digitList positive
      · rw [List.mem_singleton.1 member]
        rfl
    · split
      · -- the point is among the digits
        rename_i _ inside
        obtain ⟨nonempty, leading⟩ := taken positive (Int.lt_toNat.2 inside.1)
        exact written_digits front nonempty leading back fun _ none_ => nomatch none_
      · split
        · -- in front of them
          refine written_below_one fun c member => ?_
          exact (List.mem_append.1 member).elim (isDigit_of_mem_zeros c) (digits c)
        · -- out of reach
          obtain ⟨nonempty, leading⟩ := taken positive Nat.one_pos
          refine written_digits front nonempty leading back ?_
          rintro _ ⟨⟩
          exact ⟨digitList_ne_nil _, digits⟩

end JsonNumber

theorem Json.written_ofBinary {f : Format} (style : JsonNumber.Style) (x : Binary f) :
    (ofBinary style x).Written := by
  unfold ofBinary
  split
  · exact JsonNumber.written_ofBinary style x
  · trivial

end Classwright
