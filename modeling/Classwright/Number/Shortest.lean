import Classwright.Number.Binary

/-!
# Decimal numerals of binary numbers

`Decimal.shortest` gives the fewest decimal digits that read back as the number, `Decimal.toBinary`
reads a numeral with one rounding. The texts are the plain positional one, the one with an
exponent, and the one that picks between them by size.
-/

namespace Classwright

/-- The size `digits * 10 ^ exponent`. -/
structure Decimal where
  digits : Nat
  exponent : Int
deriving DecidableEq, Repr

namespace Decimal

/-- Decimal digits of a natural number, most significant first. -/
def digitList (n : Nat) : List Char := (toString n).toList

def digitCount (n : Nat) : Nat := (digitList n).length

/-- The same size without zeros at the end of the digits. -/
def dropZeros : Nat → Decimal → Decimal
  | 0, d => d
  | fuel + 1, d =>
    if d.digits ≠ 0 ∧ d.digits % 10 = 0 then dropZeros fuel ⟨d.digits / 10, d.exponent + 1⟩ else d

/-- Which of two equally near numerals is taken: the larger, or the one with an even last digit. -/
inductive Tie
  | up
  | even

/-- Bounds of the sizes that round to one number, in a common unit; `closed` tells whether the
bounds themselves do. -/
structure Interval where
  low : Nat
  value : Nat
  high : Nat
  closed : Bool

namespace Interval

def contains (i : Interval) (n : Nat) : Bool :=
  if i.closed then i.low ≤ n && n ≤ i.high else i.low < n && n < i.high

/-- The multiples of `10 ^ j` next to the value, from the coarsest grid down: the first grid with a
multiple inside wins, of two the nearer one. -/
def onGrid (tie : Tie) (i : Interval) : Nat → Nat × Nat
  | 0 => (i.value, 0)
  | j + 1 =>
    let unit := Nat.pow 10 (j + 1)
    let below := i.value / unit
    let rest := i.value % unit
    let downFits := i.contains (below * unit)
    let upFits := i.contains ((below + 1) * unit)
    let downNearer := match tie with
      | .up => decide (2 * rest < unit)
      | .even => decide (2 * rest < unit ∨ (2 * rest = unit ∧ below % 2 = 0))
    if downFits && (!upFits || downNearer) then (below, j + 1)
    else if upFits then (below + 1, j + 1)
    else i.onGrid tie j

end Interval

/-- The fewest digits that round to the finite number `x`, its sign left aside. Sizes are counted in
units of `10 ^ (x.scale - 2)` or of one, in which the number and its bounds are whole. -/
def shortest {f : Format} (tie : Tie) (x : Binary f) : Decimal :=
  if x.isZero then ⟨0, 0⟩
  else
    let t := x.scale - 2
    let unit (n : Nat) : Nat := if 0 ≤ t then n <<< t.toNat else n * Nat.pow 5 (-t).toNat
    let m := x.significand
    let gap := if m = Nat.pow 2 f.fraction ∧ f.minScale < x.scale then 1 else 2
    let i : Interval :=
      ⟨unit (4 * m - gap), unit (4 * m), unit (4 * m + 2), decide (m % 2 = 0)⟩
    let (digits, j) := i.onGrid tie (digitCount i.value)
    dropZeros 400 ⟨digits, j + min t 0⟩

/-- The nearest number of format `f`. Sizes far outside the format need no power of ten. -/
def toBinary {f : Format} (negative : Bool) (d : Decimal) : Binary f :=
  let top := digitCount d.digits + d.exponent
  if d.digits = 0 ∨ top < -Nat.pow 2 f.exponent then .zero negative
  else if Nat.pow 2 f.exponent < top then .infinity negative
  else if 0 ≤ d.exponent then .round negative (d.digits * Nat.pow 10 d.exponent.toNat) 0
  else .roundQuotient negative d.digits (Nat.pow 10 (-d.exponent).toNat) 0

/-- Digits with the point put in its place, and no exponent. -/
def positional (d : Decimal) : String :=
  let ds := digitList d.digits
  if 0 ≤ d.exponent then
    String.ofList (if d.digits = 0 then ds else ds ++ List.replicate d.exponent.toNat '0')
  else
    let places := (-d.exponent).toNat
    if places < ds.length then
      String.ofList (ds.take (ds.length - places) ++ '.' :: ds.drop (ds.length - places))
    else
      String.ofList ('0' :: '.' :: List.replicate (places - ds.length) '0' ++ ds)

/-- One digit, the point and the others if there are any, then `mark` and the exponent. -/
def scientific (mark : String) (d : Decimal) : String :=
  let ds := digitList d.digits
  let exponent := d.exponent + (ds.length - 1 : Nat)
  let tail := ds.drop 1
  String.ofList (ds.take 1 ++ (if tail.isEmpty then [] else '.' :: tail))
    ++ mark ++ toString exponent

end Decimal

namespace Binary

variable {f : Format}

def signed (x : Binary f) (text : String) : String := if x.isNegative then "-" ++ text else text

/-- The shortest digits without an exponent, as a literal is shown. -/
def plainText (x : Binary f) : String :=
  if x.isNaN then "NaN"
  else if x.isInfinite then x.signed "inf"
  else x.signed (Decimal.shortest .up x).positional

/-- The text of a floating value: whole numbers below ten million keep one place, sizes from ten
million up or below a thousandth have an exponent, others are positional. -/
def valueText (x : Binary64) : String :=
  if x.isNaN then "NaN"
  else if x.isInfinite then x.signed "Infinity"
  else
    let small := x.truncate.natAbs < Nat.pow 10 7
    let d := Decimal.shortest .up x
    if x.isWhole && small then x.signed (d.positional ++ ".0")
    else if !small || (d.exponent + Decimal.digitCount d.digits < -2) then
      x.signed (d.scientific "E")
    else x.signed d.positional

end Binary

end Classwright
