import Classwright.Number.Binary
import Mathlib.Algebra.Order.Ring.Nat
import Mathlib.Tactic.Ring
import Mathlib.Data.Nat.Bitwise

/-!
# Widening floating numbers

A number that is converted to a wider format and back is the number again: the wider format holds
all its bits, in the highest places. Only of a not-a-number without its quiet bit that bit is set.
-/

namespace Classwright

namespace Format

/-- Every finite number of the format is one of the other, with the highest bit of its significand
in the highest place. -/
structure FitsIn (f g : Format) : Prop where
  positive : 0 < f.fraction
  fraction : f.fraction < g.fraction
  low : g.minScale + g.fraction ≤ f.minScale
  high : f.minScale + 2 ^ f.exponent + 1 ≤ g.minScale + 2 ^ g.exponent
  exponent : 2 ≤ 2 ^ g.exponent

theorem single_fitsIn_double : single.FitsIn double := by
  constructor <;> decide

variable (f : Format)

theorem infinite_eq : f.infinite = (2 ^ f.exponent - 1) * 2 ^ f.fraction := rfl

theorem infinite_add : f.infinite + 2 ^ f.fraction = 2 ^ (f.fraction + f.exponent) := by
  have positive : 0 < 2 ^ f.exponent := Nat.two_pow_pos _
  rw [infinite_eq, Nat.sub_one_mul, Nat.sub_add_cancel (Nat.le_mul_of_pos_left _ positive),
    Nat.pow_add, Nat.mul_comm]

end Format

namespace Binary

variable {f g : Format}

/-! ### Fields -/

theorem toNat_ofFields {negative : Bool} {m : Nat} (small : m < 2 ^ (f.fraction + f.exponent)) :
    (ofFields negative m : Binary f).bits.toNat
      = (if negative then 2 ^ (f.fraction + f.exponent) else 0) + m := by
  have width : 2 ^ f.width = 2 ^ (f.fraction + f.exponent) + 2 ^ (f.fraction + f.exponent) := by
    rw [Format.width, Nat.pow_succ, Nat.mul_two]
  change ((if negative then 2 ^ (f.fraction + f.exponent) else 0) + m) % 2 ^ f.width = _
  refine Nat.mod_eq_of_lt ?_
  rw [width]
  split <;> omega

theorem magnitude_ofFields {negative : Bool} {m : Nat}
    (small : m < 2 ^ (f.fraction + f.exponent)) :
    (ofFields negative m : Binary f).magnitude = m := by
  change (ofFields negative m : Binary f).bits.toNat % 2 ^ (f.fraction + f.exponent) = m
  rw [toNat_ofFields small]
  cases negative with
  | false => rw [if_neg Bool.false_ne_true, Nat.zero_add, Nat.mod_eq_of_lt small]
  | true => rw [if_pos rfl, Nat.add_mod_left, Nat.mod_eq_of_lt small]

theorem isNegative_ofFields {negative : Bool} {m : Nat}
    (small : m < 2 ^ (f.fraction + f.exponent)) :
    (ofFields negative m : Binary f).isNegative = negative := by
  change decide (2 ^ (f.fraction + f.exponent) ≤ (ofFields negative m : Binary f).bits.toNat) = _
  rw [toNat_ofFields small]
  cases negative with
  | false => exact decide_eq_false (by simpa using small)
  | true => exact decide_eq_true (Nat.le_add_right _ _)

theorem magnitude_lt (x : Binary f) : x.magnitude < 2 ^ (f.fraction + f.exponent) :=
  Nat.mod_lt _ (Nat.two_pow_pos _)

/-- A number is its fields. -/
theorem ofFields_fields (x : Binary f) : ofFields x.isNegative x.magnitude = x := by
  have bound : x.bits.toNat < 2 ^ (f.fraction + f.exponent) + 2 ^ (f.fraction + f.exponent) := by
    have small : x.bits.toNat < 2 ^ (f.fraction + f.exponent + 1) := x.bits.isLt
    rwa [Nat.pow_succ, Nat.mul_two] at small
  have same : (ofFields x.isNegative x.magnitude : Binary f).bits.toNat = x.bits.toNat := by
    rw [toNat_ofFields x.magnitude_lt, isNegative, magnitude]
    simp only [Nat.pow_eq, decide_eq_true_eq]
    split
    · rename_i negative
      rw [Nat.mod_eq_sub_mod negative, Nat.mod_eq_of_lt (by omega)]
      omega
    · rename_i positive
      rw [Nat.mod_eq_of_lt (Nat.lt_of_not_le positive), Nat.zero_add]
  cases h : (ofFields x.isNegative x.magnitude : Binary f)
  cases x
  rw [h] at same
  exact congrArg Binary.mk (BitVec.eq_of_toNat_eq same)

/-! ### Finite numbers -/

theorem infinite_lt (f : Format) : f.infinite < 2 ^ (f.fraction + f.exponent) := by
  have total := f.infinite_add
  have unit : 0 < 2 ^ f.fraction := Nat.two_pow_pos _
  omega

theorem significand_lt (x : Binary f) : x.significand < 2 ^ (f.fraction + 1) := by
  unfold significand
  simp only [Nat.pow_eq]
  have unit : 0 < 2 ^ f.fraction := Nat.two_pow_pos _
  rw [Nat.pow_succ]
  split
  · rename_i subnormal
    have small := (Nat.div_eq_zero_iff_lt unit).1 subnormal
    omega
  · have small := Nat.mod_lt x.magnitude unit
    omega

theorem minScale_le (x : Binary f) : f.minScale ≤ x.scale := by
  unfold scale
  omega

/-- The bits of a number by its significand and its scale. -/
theorem magnitude_eq (x : Binary f) :
    x.magnitude = x.significand + (x.scale - f.minScale).toNat * 2 ^ f.fraction := by
  have split_ := Nat.mod_add_div x.magnitude (2 ^ f.fraction)
  unfold significand scale
  simp only [Nat.pow_eq]
  rw [show ∀ n : Nat, (f.minScale + (n : Int) - f.minScale).toNat = n from fun n => by omega]
  generalize x.magnitude / 2 ^ f.fraction = e at split_ ⊢
  cases e with
  | zero => simp
  | succ e =>
    rw [if_neg (Nat.succ_ne_zero e), Nat.add_sub_cancel]
    rw [Nat.mul_succ, Nat.mul_comm] at split_
    omega

/-- The significand of a number above the smallest scale has its highest bit. -/
theorem significand_ge {x : Binary f} (normal : f.minScale < x.scale) :
    2 ^ f.fraction ≤ x.significand := by
  unfold scale at normal
  unfold significand
  simp only [Nat.pow_eq] at normal ⊢
  rw [if_neg (by omega)]
  exact Nat.le_add_right _ _

theorem scale_lt {x : Binary f} (finite : x.isFinite = true) :
    x.scale < f.minScale + 2 ^ f.exponent := by
  have small := of_decide_eq_true finite
  rw [Format.infinite_eq] at small
  have exponent := Nat.div_lt_of_lt_mul (Nat.mul_comm _ _ ▸ small)
  have positive : 0 < 2 ^ f.exponent := Nat.two_pow_pos _
  unfold scale
  simp only [Nat.pow_eq]
  have cast : ((2 ^ f.exponent : Nat) : Int) = 2 ^ f.exponent := by simp
  rw [← cast]
  omega

theorem log2_significand (x : Binary f) : x.significand.log2 ≤ f.fraction := by
  by_cases zero : x.significand = 0
  · rw [zero]
    exact Nat.zero_le _
  · exact Nat.le_of_lt_succ ((Nat.log2_lt zero).2 x.significand_lt)

theorem magnitude_of_significand {x : Binary f} (zero : x.significand = 0) : x.magnitude = 0 := by
  have least := x.minScale_le
  have unit : 0 < 2 ^ f.fraction := Nat.two_pow_pos _
  have subnormal : ¬ f.minScale < x.scale := fun normal => by
    have full := significand_ge normal
    omega
  rw [x.magnitude_eq, zero, show (x.scale - f.minScale).toNat = 0 by omega, Nat.zero_mul]

theorem toFormat_finite {x : Binary f} (finite : x.isFinite = true) (g : Format) :
    x.toFormat g = round x.isNegative x.significand x.scale := by
  have small : x.magnitude < f.infinite := of_decide_eq_true finite
  unfold toFormat
  rw [if_neg, if_neg]
  · exact fun infinite => Nat.ne_of_lt small (beq_iff_eq.1 infinite)
  · exact fun nan => Nat.lt_asymm small (of_decide_eq_true nan)

theorem round_zero (negative : Bool) (s : Int) : (round negative 0 s : Binary f) = zero negative :=
  if_pos rfl

theorem toFormat_zero (exponent : 2 ≤ 2 ^ f.exponent) (negative : Bool) (g : Format) :
    (zero negative : Binary f).toFormat g = zero negative := by
  have magnitude : (zero negative : Binary f).magnitude = 0 := magnitude_ofFields (Nat.two_pow_pos _)
  have finite : (zero negative : Binary f).isFinite = true := by
    rw [isFinite, magnitude, f.infinite_eq]
    exact decide_eq_true (Nat.mul_pos (by omega) (Nat.two_pow_pos _))
  have significand : (zero negative : Binary f).significand = 0 := by
    rw [Binary.significand, magnitude, Nat.zero_div, if_pos rfl]
  rw [toFormat_finite finite, significand, round_zero]
  exact congrArg zero (isNegative_ofFields (Nat.two_pow_pos _))

/-- Bits that were only shifted in are shifted out without rounding. -/
theorem shiftRound_shiftLeft (m k : Nat) : shiftRound (m <<< k) k = m := by
  have unit : 0 < 2 ^ k := Nat.two_pow_pos k
  have quotient : (m <<< k) >>> k = m := by
    rw [Nat.shiftLeft_eq, Nat.shiftRight_eq_div_pow, Nat.mul_div_cancel _ unit]
  have rest : m <<< k % 2 ^ k = 0 := by rw [Nat.shiftLeft_eq, Nat.mul_mod_left]
  have exact_ : ¬ (2 ^ k < 2 * (m <<< k % 2 ^ k) ∨
      (2 ^ k = 2 * (m <<< k % 2 ^ k) ∧ (m <<< k) >>> k % 2 = 1)) := by
    rw [rest]
    omega
  exact (if_neg exact_).trans quotient

/-- A significand whose highest bit is shifted to place `k`. -/
theorem shiftLeft_bounds {m k n : Nat} (nonzero : m ≠ 0) (place : n = m.log2 + k) :
    2 ^ n ≤ m <<< k ∧ m <<< k < 2 ^ (n + 1) := by
  have upper : m < 2 ^ (m.log2 + 1) := Nat.lt_log2_self
  rw [Nat.shiftLeft_eq, place, Nat.add_right_comm, Nat.pow_add, Nat.pow_add]
  exact ⟨Nat.mul_le_mul_right _ (Nat.log2_self_le nonzero),
    Nat.mul_lt_mul_of_pos_right upper (Nat.two_pow_pos k)⟩

/-- A number whose significand has its highest bit, by its fields. -/
theorem ofFields_normal {m n : Nat} (lower : 2 ^ f.fraction ≤ m) (upper : m < 2 ^ (f.fraction + 1))
    (inside : n + 2 < 2 ^ f.exponent) (negative : Bool) :
    m + n * 2 ^ f.fraction < f.infinite ∧
      ∀ x : Binary f, x = ofFields negative (m + n * 2 ^ f.fraction) →
        x.isFinite = true ∧ x.isNegative = negative ∧ x.significand = m ∧
          x.scale = f.minScale + n := by
  rw [Nat.pow_succ, Nat.mul_two] at upper
  have below : m + n * 2 ^ f.fraction < f.infinite := by
    have bound := Nat.mul_le_mul_right (2 ^ f.fraction) (Nat.le_sub_one_of_lt inside)
    rw [← Format.infinite_eq, Nat.add_mul] at bound
    omega
  refine ⟨below, ?_⟩
  rintro _ rfl
  have small := below.trans (infinite_lt f)
  have field : (m + n * 2 ^ f.fraction) / 2 ^ f.fraction = n + 1 := by
    rw [Nat.add_mul_div_right _ _ (Nat.two_pow_pos _), Nat.add_comm,
      Nat.div_eq_of_lt_le (by omega : 1 * 2 ^ f.fraction ≤ m) (by omega)]
  have rest : (m + n * 2 ^ f.fraction) % 2 ^ f.fraction = m - 2 ^ f.fraction := by
    rw [Nat.add_mul_mod_self_right, Nat.mod_eq_sub_mod lower, Nat.mod_eq_of_lt (by omega)]
  refine ⟨?_, isNegative_ofFields small, ?_, ?_⟩
  · rw [isFinite, magnitude_ofFields small]
    exact decide_eq_true below
  · rw [significand, magnitude_ofFields small]
    simp only [Nat.pow_eq]
    rw [field, if_neg (Nat.succ_ne_zero n), rest]
    omega
  · rw [scale, magnitude_ofFields small]
    simp only [Nat.pow_eq]
    rw [field, Nat.add_sub_cancel]

/-- A number of the wider format with all bits in the highest places. -/
theorem round_shifted (fits : f.FitsIn g) {x : Binary f} (finite : x.isFinite = true)
    (nonzero : x.significand ≠ 0) (negative : Bool) :
    ∃ y : Binary g, y = round negative x.significand x.scale ∧ y.isFinite = true ∧
      y.isNegative = negative ∧ y.significand = x.significand <<< (g.fraction - x.significand.log2) ∧
      y.scale = x.scale - (g.fraction - x.significand.log2 : Nat) := by
  have narrow := x.log2_significand
  have wide := fits.fraction
  have low := fits.low
  have high := fits.high
  have least := x.minScale_le
  have greatest := scale_lt finite
  obtain ⟨k, shift⟩ : ∃ k, g.fraction = x.significand.log2 + k := Nat.exists_eq_add_of_le (by omega)
  have places : g.fraction - x.significand.log2 = k := by omega
  have target : max g.minScale (x.scale + x.significand.log2 - g.fraction) = x.scale - k := by omega
  obtain ⟨n, units⟩ : ∃ n : Nat, x.scale - k - g.minScale = n := Int.eq_ofNat_of_zero_le (by omega)
  have inside : n + 2 < 2 ^ g.exponent := by
    have cast : ((2 ^ g.exponent : Nat) : Int) = 2 ^ g.exponent := by simp
    rw [← cast] at high
    omega
  obtain ⟨lower, upper⟩ := shiftLeft_bounds nonzero shift
  obtain ⟨below, fields⟩ := ofFields_normal lower upper inside negative
  have rounded : (round negative x.significand x.scale : Binary g)
      = ofFields negative (x.significand <<< k + n * 2 ^ g.fraction) := by
    unfold round
    dsimp only
    rw [if_neg nonzero, target, if_pos (by omega), units, Int.toNat_natCast,
      show (x.scale - (x.scale - k)).toNat = k by omega]
    exact congrArg _ (Nat.min_eq_right (Nat.le_of_lt below))
  obtain ⟨finiteY, sign, significand, scale⟩ := fields _ rounded
  rw [places]
  exact ⟨_, rfl, finiteY, sign, significand, by omega⟩

/-- Rounding the bits of a number from the highest places gives the number. -/
theorem round_back (fits : f.FitsIn g) {x : Binary f} (finite : x.isFinite = true)
    (nonzero : x.significand ≠ 0) :
    round x.isNegative (x.significand <<< (g.fraction - x.significand.log2))
      (x.scale - (g.fraction - x.significand.log2 : Nat)) = x := by
  have narrow := x.log2_significand
  have wide := fits.fraction
  have least := x.minScale_le
  obtain ⟨k, shift⟩ : ∃ k, g.fraction = x.significand.log2 + k := Nat.exists_eq_add_of_le (by omega)
  have places : g.fraction - x.significand.log2 = k := by omega
  obtain ⟨lower, upper⟩ := shiftLeft_bounds nonzero shift
  have shifted : x.significand <<< k ≠ 0 := (Nat.lt_of_lt_of_le (Nat.two_pow_pos _) lower).ne'
  have highest : (x.significand <<< k).log2 = g.fraction :=
    (Nat.log2_eq_iff shifted).2 ⟨lower, upper⟩
  have target : max f.minScale (x.scale - k + g.fraction - f.fraction) = x.scale := by
    by_cases normal : f.minScale < x.scale
    · have full : f.fraction ≤ x.significand.log2 :=
        (Nat.le_log2 nonzero).2 (significand_ge normal)
      omega
    · omega
  have small : x.magnitude ≤ f.infinite := Nat.le_of_lt (of_decide_eq_true finite)
  rw [places]
  unfold round
  dsimp only
  rw [if_neg shifted, highest, target, if_neg (by omega),
    show (x.scale - (x.scale - (k : Int))).toNat = k by omega, shiftRound_shiftLeft]
  simp only [Nat.pow_eq]
  rw [← x.magnitude_eq, Nat.min_eq_right small, ofFields_fields]

/-! ### Not-a-numbers -/

/-- The quiet bit is the highest bit of the fraction. -/
theorem quiet_eq_iff (positive : 0 < f.fraction) (x : Binary f) :
    x.quiet = x ↔ (x.magnitude % 2 ^ f.fraction).testBit (f.fraction - 1) = true := by
  have fraction : x.magnitude % 2 ^ f.fraction = x.bits.toNat % 2 ^ f.fraction :=
    Nat.mod_mod_of_dvd _ (Nat.pow_dvd_pow 2 (Nat.le_add_right _ _))
  have bit : (BitVec.ofNat f.width f.quietBit).toNat = 2 ^ (f.fraction - 1) :=
    Nat.mod_eq_of_lt (Nat.pow_lt_pow_right (by decide) (by unfold Format.width; omega))
  have whole : x.quiet = x ↔ x.bits.toNat ||| 2 ^ (f.fraction - 1) = x.bits.toNat := by
    have bits : x.quiet = x ↔ x.bits ||| BitVec.ofNat f.width f.quietBit = x.bits :=
      ⟨congrArg Binary.bits, congrArg Binary.mk⟩
    rw [bits, ← BitVec.toNat_inj, BitVec.toNat_or, bit]
  rw [whole, fraction, Nat.testBit_mod_two_pow, decide_eq_true (by omega), Bool.true_and]
  constructor
  · intro same
    rw [← same, Nat.testBit_or, Nat.testBit_two_pow_self, Bool.or_true]
  · intro set
    refine Nat.eq_of_testBit_eq fun i => ?_
    rw [Nat.testBit_or, Nat.testBit_two_pow]
    by_cases same : f.fraction - 1 = i
    · rw [← same, set, Bool.true_or]
    · rw [decide_eq_false same, Bool.or_false]

/-- The fields of a not-a-number. -/
theorem payload_eq {x : Binary f} (nan : x.isNaN = true) :
    x.magnitude = f.infinite + x.magnitude % 2 ^ f.fraction ∧ x.magnitude % 2 ^ f.fraction ≠ 0 := by
  have above : f.infinite < x.magnitude := of_decide_eq_true nan
  have total := f.infinite_add
  have bound := x.magnitude_lt
  obtain ⟨p, magnitude⟩ := Nat.exists_eq_add_of_lt above
  have rest : x.magnitude % 2 ^ f.fraction = p + 1 := by
    rw [magnitude, f.infinite_eq, Nat.add_assoc, Nat.add_comm, Nat.add_mul_mod_self_right,
      Nat.mod_eq_of_lt (by omega)]
  omega

/-- A quiet not-a-number keeps its payload in a wider format. -/
theorem toFormat_nan (fits : f.FitsIn g) {x : Binary f} (nan : x.isNaN = true)
    (isQuiet : x.quiet = x) : (x.toFormat g).toFormat f = x := by
  obtain ⟨magnitude, nonzero⟩ := payload_eq nan
  have unit : 0 < 2 ^ f.fraction := Nat.two_pow_pos _
  have small := Nat.mod_lt x.magnitude unit
  have set := (quiet_eq_iff fits.positive x).1 isQuiet
  have fields := x.ofFields_fields
  rw [magnitude] at fields
  have narrow := fits.fraction
  have positive := fits.positive
  obtain ⟨k, shift⟩ : ∃ k, g.fraction = f.fraction + k := Nat.exists_eq_add_of_le narrow.le
  have places : g.fraction - f.fraction = k := by omega
  have widened : x.toFormat g = quiet (ofFields x.isNegative
      (g.infinite + (x.magnitude % 2 ^ f.fraction) <<< k)) := by
    unfold toFormat
    rw [if_pos nan]
    dsimp only
    rw [if_pos narrow.le, places]
    rfl
  generalize x.magnitude % 2 ^ f.fraction = p at nonzero small set fields widened
  have payload : p <<< k < 2 ^ g.fraction := by
    rw [Nat.shiftLeft_eq, shift, Nat.pow_add]
    exact Nat.mul_lt_mul_of_pos_right small (Nat.two_pow_pos k)
  have bound : g.infinite + p <<< k < 2 ^ (g.fraction + g.exponent) := by
    have total := g.infinite_add
    omega
  have rest : (g.infinite + p <<< k) % 2 ^ g.fraction = p <<< k := by
    rw [g.infinite_eq, Nat.mul_add_mod_self_right, Nat.mod_eq_of_lt payload]
  generalize made : (ofFields x.isNegative (g.infinite + p <<< k) : Binary g) = y at widened
  have ofY : y.magnitude = g.infinite + p <<< k := by rw [← made, magnitude_ofFields bound]
  have sign : y.isNegative = x.isNegative := by rw [← made, isNegative_ofFields bound]
  have nanY : y.isNaN = true := by
    have shifted : p <<< k ≠ 0 := by
      rw [Nat.shiftLeft_eq]
      exact Nat.mul_ne_zero nonzero (Nat.two_pow_pos k).ne'
    rw [isNaN, ofY]
    exact decide_eq_true (by omega)
  have quietY : y.quiet = y := by
    rw [quiet_eq_iff (by omega), ofY, rest, Nat.testBit_shiftLeft, decide_eq_true (by omega),
      Bool.true_and, show g.fraction - 1 - k = f.fraction - 1 by omega]
    exact set
  rw [widened, quietY]
  unfold toFormat
  rw [if_pos nanY]
  dsimp only [Nat.pow_eq]
  rw [if_neg (by omega), places, ofY, sign, rest, Nat.shiftLeft_shiftRight, fields, isQuiet]

/-- A number is the same after it was widened, but for a not-a-number that is made quiet. -/
theorem toFormat_toFormat (fits : f.FitsIn g) {x : Binary f}
    (isQuiet : x.isNaN = true → x.quiet = x) : (x.toFormat g).toFormat f = x := by
  have fields := x.ofFields_fields
  by_cases nan : x.isNaN = true
  · exact toFormat_nan fits nan (isQuiet nan)
  by_cases infinite : x.isInfinite = true
  · have widened : x.toFormat g = infinity x.isNegative := by
      unfold toFormat
      rw [if_neg nan, if_pos infinite]
    have top := infinite_lt g
    rw [widened]
    unfold toFormat
    rw [if_neg, if_pos, infinity, infinity, isNegative_ofFields top, ← beq_iff_eq.1 infinite,
      fields]
    · exact beq_iff_eq.2 (magnitude_ofFields top)
    · rw [isNaN, infinity, magnitude_ofFields top]
      simp
  have finite : x.isFinite = true := by
    have notAbove : ¬ f.infinite < x.magnitude := fun above => nan (decide_eq_true above)
    have notEqual : x.magnitude ≠ f.infinite := fun same => infinite (beq_iff_eq.2 same)
    exact decide_eq_true (by omega)
  rw [toFormat_finite finite]
  by_cases isZero : x.significand = 0
  · rw [magnitude_of_significand isZero] at fields
    rw [isZero, round_zero, toFormat_zero fits.exponent]
    exact fields
  · obtain ⟨y, rounded, finiteY, sign, significand, scale⟩ :=
      round_shifted fits finite isZero x.isNegative
    rw [← rounded, toFormat_finite finiteY, sign, significand, scale, round_back fits finite isZero]

end Binary

end Classwright
