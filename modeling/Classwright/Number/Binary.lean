/-!
# Binary floating numbers

A number is its bit pattern. Every finite pattern stands for an exact value, a significand times a
power of two; an operation works on the exact values and rounds once, to nearest with ties to even.
Not-a-number patterns keep their payload, so that two of them can be told apart by their bits.
-/

namespace Classwright

/-- A binary interchange format, by the widths of its fraction and of its exponent field. -/
structure Format where
  fraction : Nat
  exponent : Nat
deriving DecidableEq, Repr

namespace Format

def single : Format := ⟨23, 8⟩

def double : Format := ⟨52, 11⟩

def width (f : Format) : Nat := f.fraction + f.exponent + 1

/-- Power of two of the last bit of a subnormal number. -/
def minScale (f : Format) : Int := 2 - Nat.pow 2 (f.exponent - 1) - f.fraction

/-- Magnitude bits of infinity; larger magnitudes are not numbers. -/
def infinite (f : Format) : Nat := (Nat.pow 2 f.exponent - 1) * Nat.pow 2 f.fraction

/-- The fraction bit that marks a quiet not-a-number. -/
def quietBit (f : Format) : Nat := Nat.pow 2 (f.fraction - 1)

end Format

/-- A floating number of format `f`, as its bits: sign, exponent field, fraction. -/
structure Binary (f : Format) where
  bits : BitVec f.width
deriving DecidableEq

abbrev Binary32 := Binary .single
abbrev Binary64 := Binary .double

namespace Binary

variable {f g : Format}

def ofFields (negative : Bool) (magnitude : Nat) : Binary f :=
  ⟨BitVec.ofNat f.width ((if negative then Nat.pow 2 (f.fraction + f.exponent) else 0) + magnitude)⟩

instance : Inhabited (Binary f) := ⟨ofFields false 0⟩

/-- The bits below the sign; finite magnitudes are ordered as their numbers are. -/
def magnitude (x : Binary f) : Nat := x.bits.toNat % Nat.pow 2 (f.fraction + f.exponent)

def isNegative (x : Binary f) : Bool := Nat.pow 2 (f.fraction + f.exponent) ≤ x.bits.toNat

def isNaN (x : Binary f) : Bool := f.infinite < x.magnitude

def isInfinite (x : Binary f) : Bool := x.magnitude == f.infinite

def isFinite (x : Binary f) : Bool := x.magnitude < f.infinite

def isZero (x : Binary f) : Bool := x.magnitude == 0

def zero (negative : Bool) : Binary f := ofFields negative 0

def infinity (negative : Bool) : Binary f := ofFields negative f.infinite

/-- What an operation without a value gives: the quiet pattern with the sign set. -/
def invalid : Binary f := ofFields true (f.infinite + f.quietBit)

/-- The same not-a-number with its quiet bit set. -/
def quiet (x : Binary f) : Binary f := ⟨x.bits ||| BitVec.ofNat f.width f.quietBit⟩

/-- Significand of a finite number; its exact size is `significand * 2 ^ scale`. -/
def significand (x : Binary f) : Nat :=
  if x.magnitude / Nat.pow 2 f.fraction = 0 then x.magnitude
  else Nat.pow 2 f.fraction + x.magnitude % Nat.pow 2 f.fraction

def scale (x : Binary f) : Int := f.minScale + ((x.magnitude / Nat.pow 2 f.fraction - 1 : Nat) : Int)

/-- `m / 2 ^ k` to the nearest integer, a tie to the even one. -/
def shiftRound (m k : Nat) : Nat :=
  let q := m >>> k
  let unit := Nat.pow 2 k
  let r := m % unit
  if unit < 2 * r ∨ (unit = 2 * r ∧ q % 2 = 1) then q + 1 else q

/-- The number of format `f` nearest to `m * 2 ^ s`; too large a size gives infinity. -/
def round (negative : Bool) (m : Nat) (s : Int) : Binary f :=
  if m = 0 then zero negative
  else
    let target := max f.minScale (s + m.log2 - f.fraction)
    let mant := if target ≤ s then m <<< (s - target).toNat else shiftRound m (target - s).toNat
    ofFields negative (min f.infinite (mant + (target - f.minScale).toNat * Nat.pow 2 f.fraction))

/-- The nearest number to `num / den * 2 ^ s`. The quotient is taken to more bits than the format
holds and ends in a bit that tells whether anything was left over, which rounding needs to know. -/
def roundQuotient (negative : Bool) (num den : Nat) (s : Int) : Binary f :=
  let k := f.fraction + 3 + den.log2
  let q := (num <<< k) / den
  let rest := if (num <<< k) % den = 0 then 0 else 1
  round negative (2 * q + rest) (s - k - 1)

def ofInt (i : Int) : Binary f := round (decide (i < 0)) i.natAbs 0

def one : Binary f := ofInt 1

def neg (x : Binary f) : Binary f :=
  ofFields (!x.isNegative) x.magnitude

def abs (x : Binary f) : Binary f := ofFields false x.magnitude

/-- The exact value of a finite number in units of `2 ^ s`, for `s` at most its scale. -/
def units (x : Binary f) (s : Int) : Int :=
  let size : Nat := x.significand <<< (x.scale - s).toNat
  if x.isNegative then -size else size

/-- A not-a-number operand is the answer, the left one before the right one. -/
def propagate (x y : Binary f) (op : Unit → Binary f) : Binary f :=
  if x.isNaN then x.quiet else if y.isNaN then y.quiet else op ()

def add (x y : Binary f) : Binary f :=
  propagate x y fun _ =>
    if x.isInfinite then
      if y.isInfinite && x.isNegative != y.isNegative then invalid else x
    else if y.isInfinite then y
    else
      let s := min x.scale y.scale
      let sum := x.units s + y.units s
      if sum = 0 then zero (x.isNegative && y.isNegative)
      else round (decide (sum < 0)) sum.natAbs s

def sub (x y : Binary f) : Binary f :=
  propagate x y fun _ => add x y.neg

def mul (x y : Binary f) : Binary f :=
  propagate x y fun _ =>
    let negative := x.isNegative != y.isNegative
    if x.isInfinite || y.isInfinite then
      if x.isZero || y.isZero then invalid else infinity negative
    else round negative (x.significand * y.significand) (x.scale + y.scale)

def div (x y : Binary f) : Binary f :=
  propagate x y fun _ =>
    let negative := x.isNegative != y.isNegative
    if x.isInfinite then
      if y.isInfinite then invalid else infinity negative
    else if y.isInfinite then zero negative
    else if y.isZero then
      if x.isZero then invalid else infinity negative
    else roundQuotient negative x.significand y.significand (x.scale - y.scale)

/-- The exact remainder of the division that truncates; it has the sign of the dividend. -/
def rem (x y : Binary f) : Binary f :=
  propagate x y fun _ =>
    if x.isInfinite || y.isZero then invalid
    else if y.isInfinite then x
    else
      let s := min x.scale y.scale
      round x.isNegative ((x.units s).natAbs % (y.units s).natAbs) s

/-- Order of two numbers, none when either is not a number; the two zeros are equal. -/
def compare? (x y : Binary f) : Option Ordering :=
  if x.isNaN || y.isNaN then none
  else
    let key (z : Binary f) : Int := if z.isNegative then -z.magnitude else z.magnitude
    some (compare (key x) (key y))

/-- Equality of numbers: the zeros are equal, and a not-a-number equals nothing. -/
def same (x y : Binary f) : Bool := x.compare? y == some .eq

/-- The nearest number of another format; a not-a-number keeps the high bits of its payload. -/
def toFormat (g : Format) (x : Binary f) : Binary g :=
  if x.isNaN then
    let payload := x.magnitude % Nat.pow 2 f.fraction
    quiet (ofFields x.isNegative
      (g.infinite + (if f.fraction ≤ g.fraction then payload <<< (g.fraction - f.fraction)
        else payload >>> (f.fraction - g.fraction))))
  else if x.isInfinite then infinity x.isNegative
  else round x.isNegative x.significand x.scale

/-- The integer part, toward zero. A not-a-number has none and counts as zero. -/
def truncate (x : Binary f) : Int :=
  if x.isNaN then 0
  else
    let size := if 0 ≤ x.scale then x.significand <<< x.scale.toNat
      else x.significand >>> (-x.scale).toNat
    if x.isNegative then -size else size

/-- The integer part moved into `[lo, hi]`. -/
def clamp (lo hi : Int) (x : Binary f) : Int :=
  if x.isInfinite then (if x.isNegative then lo else hi) else max lo (min hi x.truncate)

/-- Whether the number has no fractional part. -/
def isWhole (x : Binary f) : Bool :=
  x.isFinite && (decide (0 ≤ x.scale) || x.significand % Nat.pow 2 (-x.scale).toNat == 0)

end Binary

end Classwright
