import Classwright.Proofs.Conformance
import Classwright.Proofs.Widening

/-!
# Coercion settles values

What coercion gives is of the type that was asked for, and it stays as it is when it is coerced once
more. A value of a reference type is its own coercion, whatever arrays it is nested in. A primitive
value that is coerced to its own type stays as it is, too, apart from a character of more than 16
bits, which is cut, and from a float that signals, which is made quiet.
-/

namespace Classwright

namespace Binary

variable {f g : Format}

/-! ### Results of roundings -/

theorem quiet_quiet (x : Binary f) : x.quiet.quiet = x.quiet := by
  unfold quiet
  rw [BitVec.or_assoc, BitVec.or_self]

theorem isNaN_ofFields {negative : Bool} {m : Nat} (small : m ≤ f.infinite) :
    (ofFields negative m : Binary f).isNaN = false := by
  have bound : m < 2 ^ (f.fraction + f.exponent) := Nat.lt_of_le_of_lt small (infinite_lt f)
  unfold isNaN
  rw [magnitude_ofFields bound]
  exact decide_eq_false (Nat.not_lt.2 small)

/-- Rounding gives numbers, of which infinity is the largest. -/
theorem isNaN_round (negative : Bool) (m : Nat) (s : Int) :
    (round negative m s : Binary f).isNaN = false := by
  unfold round
  by_cases isZero : m = 0
  · rw [if_pos isZero]
    exact isNaN_ofFields (Nat.zero_le _)
  · rw [if_neg isZero]
    exact isNaN_ofFields (Nat.min_le_left _ _)

/-- What is brought to a format does not signal. -/
theorem isQuiet_toFormat (x : Binary f) (nan : (x.toFormat g).isNaN = true) :
    (x.toFormat g).quiet = x.toFormat g := by
  unfold toFormat at nan ⊢
  by_cases isNaN : x.isNaN = true
  · rw [if_pos isNaN]
    exact quiet_quiet _
  · rw [if_neg isNaN] at nan
    by_cases isInfinite : x.isInfinite = true
    · rw [if_pos isInfinite, infinity, isNaN_ofFields le_rfl] at nan
      cases nan
    · rw [if_neg isInfinite, isNaN_round] at nan
      cases nan

end Binary

namespace Value

variable {tables : Tables} {v w : Value} {kind : Primitive}

/-- Whether the value stays as it is when it is converted to its own type: characters are cut to 16
bits, and a float that is not a number is made quiet. -/
def isKept : Value → Bool
  | .char c => decide (c.toNat < UInt16.size)
  | .float x => !x.isNaN || x.quiet == x
  | _ => true

theorem isKept_float {x : Binary32} :
    (Value.float x).isKept = true ↔ (x.isNaN = true → x.quiet = x) := by
  simp [isKept, or_iff_not_imp_left]

/-! ### Values that stay as they are -/

theorem charOfUnit_toNat (c : Char) : charOfUnit c.toNat = c := by
  have valid : c.toNat.isValidChar := c.valid
  rw [charOfUnit, Text.charOfCode?, if_pos valid, Char.ofNat_toNat]
  rfl

theorem word_ofNat {n : Nat} (small : n < UInt16.size) :
    (Numeric.integral (.ofNat n)).word.toUInt32.toUInt16.toNat = n := by
  change n < 65536 at small
  simp [Numeric.word]
  omega

/-- A value that is kept is converted to itself. -/
theorem convert_self (own : v.primitive? = some kind) (kept : v.isKept = true) :
    v.convert kind = some v := by
  cases v <;> cases own
  case bool b => rfl
  case byte v => simp [convert, numeric?, ofNumeric, Numeric.word]
  case short v => simp [convert, numeric?, ofNumeric, Numeric.word]
  case char c =>
    have small : c.toNat < UInt16.size := of_decide_eq_true kept
    simp only [convert, numeric?, ofNumeric, Option.bind_some]
    rw [Nat.mod_eq_of_lt small, word_ofNat small, charOfUnit_toNat]
  case int v => simp [convert, numeric?, ofNumeric, Numeric.word]
  case long v => rfl
  case float x =>
    simp only [convert, numeric?, ofNumeric, Option.bind_some, Numeric.single]
    rw [Binary.toFormat_toFormat Format.single_fitsIn_double (isKept_float.1 kept)]
  case double x => rfl

/-! ### What conversion gives -/

/-- The character of a unit has the unit for its code, unless that is half of a surrogate pair. -/
theorem toNat_charOfUnit (unit : Nat) :
    (charOfUnit unit).toNat = if unit.isValidChar then unit else 0xfffd := by
  unfold charOfUnit Text.charOfCode?
  by_cases valid : unit.isValidChar
  · rw [if_pos valid, if_pos valid, Option.getD_some, Char.ofNat, dif_pos valid]
    rfl
  · rw [if_neg valid, if_neg valid]
    rfl

theorem charOfUnit_lt {unit : Nat} (small : unit < UInt16.size) :
    (charOfUnit unit).toNat < UInt16.size := by
  rw [toNat_charOfUnit]
  by_cases valid : unit.isValidChar
  · rw [if_pos valid]
    exact small
  · rw [if_neg valid]
    decide

theorem isKept_single (n : Numeric) : (Value.float n.single).isKept = true := by
  apply isKept_float.2
  intro nan
  cases n with
  | integral v =>
    have isNumber : (Numeric.integral v).single.isNaN = false := Binary.isNaN_round _ _ _
    rw [isNumber] at nan
    cases nan
  | floating x => exact x.isQuiet_toFormat nan

theorem isKept_of_ofNumeric {n : Numeric} (made : ofNumeric n kind = some w) :
    w.isKept = true := by
  cases kind <;> cases made
  case char => exact decide_eq_true (charOfUnit_lt (UInt16.toNat_lt_size _))
  case float => exact isKept_single n
  all_goals rfl

theorem isKept_of_convert (made : v.convert kind = some w) : w.isKept = true := by
  cases v with
  | bool b =>
    obtain ⟨-, same⟩ := Option.ite_none_right_eq_some.1 made
    cases same
    rfl
  | _ =>
    simp only [convert, Option.bind_eq_some_iff] at made
    obtain ⟨n, -, made⟩ := made
    exact isKept_of_ofNumeric made

theorem coerceTo_primitive (own : v.primitive? = some kind) :
    v.coerceTo tables (.primitive kind) = v.convert kind := by
  simp only [coerceTo, own, Primitive.widensTo, beq_self_eq_true, Bool.true_or, if_true]

theorem isKept_of_coerceTo (made : v.coerceTo tables (.primitive kind) = some w) :
    w.isKept = true := by
  simp only [coerceTo] at made
  split at made
  · split at made
    · exact isKept_of_convert made
    · cases made
  · cases made

/-- Coercion of what coercion gave changes nothing. -/
theorem coerceTo_idempotent {type : TypeRef} (made : v.coerceTo tables type = some w) :
    w.coerceTo tables type = some w := by
  have ofType := isInstanceOf_of_coerceTo made
  cases type with
  | primitive kind =>
    have own : w.primitive? = some kind := (isInstanceOf_primitive kind w).1 ofType
    rw [coerceTo_primitive own]
    exact convert_self own (isKept_of_coerceTo made)
  | _ => exact coerceTo_of_isInstanceOf (by simp) ofType

/-- Of the values of a type, those stay as they are that are of a reference type or kept. -/
theorem coerceTo_eq_self_iff {type : TypeRef} (ofType : v.isInstanceOf tables type = true) :
    v.coerceTo tables type = some v ↔ ((∃ kind, type = .primitive kind) → v.isKept = true) := by
  constructor
  · rintro same ⟨kind, rfl⟩
    exact isKept_of_coerceTo same
  · intro kept
    cases type with
    | primitive kind =>
      have own : v.primitive? = some kind := (isInstanceOf_primitive kind v).1 ofType
      rw [coerceTo_primitive own]
      exact convert_self own (kept ⟨kind, rfl⟩)
    | _ => exact coerceTo_of_isInstanceOf (by simp) ofType

end Value

/-- Coercion is a retraction onto the values that it keeps. A value of the type that is asked for is
always accepted; it is given back unchanged if and only if the type is a reference type or the value
is one that is kept. What coercion gives is of the type, and coercing it again gives it back. -/
theorem coercion_retracts (tables : Tables) (type : TypeRef) (v : Value) :
    (v.isInstanceOf tables type = true →
      ∃ w, v.coerceTo tables type = some w ∧
        (w = v ↔ ((∃ kind, type = .primitive kind) → v.isKept = true))) ∧
    ∀ w, v.coerceTo tables type = some w →
      w.isInstanceOf tables type = true ∧ w.coerceTo tables type = some w := by
  constructor
  · intro ofType
    obtain ⟨w, made⟩ := Option.isSome_iff_exists.1 (Value.coerceTo_isSome_of_isInstanceOf ofType)
    refine ⟨w, made, ?_⟩
    rw [← Value.coerceTo_eq_self_iff ofType, made, Option.some.injEq]
  · intro w made
    exact ⟨Value.isInstanceOf_of_coerceTo made, Value.coerceTo_idempotent made⟩

namespace Sample

/-- No type is declared. -/
def noTables : Tables := fun _ => ⟨[]⟩

/-- A character that takes more than 16 bits. -/
def grin : Value := .char (Char.ofNat 0x1f600)

/-- An array of arrays of texts, in which rows and texts may be missing. -/
def rows : Value := .array [.array [.str "a", .null], .null]

/-- The character is of its type and does not stay what it is. -/
theorem grin_cut :
    ¬ ∀ (tables : Tables) (type : TypeRef) (v : Value), type ≠ .void →
      (v.isInstanceOf tables type = true → v.coerceTo tables type = some v) ∧
      ∀ w, v.coerceTo tables type = some w → w.isInstanceOf tables type = true := by
  intro retracts
  have same := (retracts noTables (.primitive .char) grin (by simp)).1 rfl
  have other : grin.coerceTo noTables (.primitive .char) = some (.char '\uf600') := rfl
  rw [other] at same
  cases same

/-- The rows are given back as they are, and an `int` becomes a `long` once and for all. -/
theorem rows_retracted :
    (rows.isInstanceOf noTables (.array (.array .string)) = true ∧
      rows.coerceTo noTables (.array (.array .string)) = some rows) ∧
    (Value.int 4).coerceTo noTables (.primitive .long) = some (.long 4) ∧
      (Value.long 4).coerceTo noTables (.primitive .long) = some (.long 4) := by
  have ofRows : rows.isInstanceOf noTables (.array (.array .string)) = true := by decide +kernel
  obtain ⟨w, made, same⟩ := (coercion_retracts noTables (.array (.array .string)) rows).1 ofRows
  have unchanged : w = rows := same.2 (by simp)
  have widened : (Value.int 4).coerceTo noTables (.primitive .long) = some (.long 4) := rfl
  refine ⟨⟨ofRows, unchanged ▸ made⟩, widened, ?_⟩
  exact ((coercion_retracts noTables (.primitive .long) (.int 4)).2 _ widened).2

end Sample

end Classwright
