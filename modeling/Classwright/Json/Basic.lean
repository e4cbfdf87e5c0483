import Classwright.Number.Shortest
import Classwright.Text.Escape

/-!
# JSON documents

A document keeps what was written: the digits of a number and every field of an object, repeated
ones included. What they mean is decided by whoever reads the document.
-/

namespace Classwright

/-- A number as written. -/
structure JsonNumber where
  negative : Bool := false
  whole : List Char
  places : List Char := []
  exponent : Option (Bool × List Char) := none
deriving DecidableEq

/-- A string or key is `none` when its escapes name half of a surrogate pair and so no text. -/
inductive Json
  | null
  | bool (value : Bool)
  | number (value : JsonNumber)
  | string (value : Option String)
  | array (items : List Json)
  | object (fields : List (Option String × Json))
deriving Inhabited

namespace JsonNumber

def ofInt (i : Int) : JsonNumber :=
  { negative := decide (i < 0), whole := Decimal.digitList i.natAbs }

def digitValue (c : Char) : Nat := c.toNat - '0'.toNat

/-- Whether it was written without point and exponent. -/
def isIntegral (n : JsonNumber) : Bool := n.places.isEmpty && n.exponent.isNone

def maxSignificand : Nat := UInt64.size - 1

/-- Puts digits behind a significand as long as 64 bits hold it, and counts those left over. -/
def gather (significand : Nat) : List Char → Nat × Nat
  | [] => (significand, 0)
  | c :: cs =>
    let next := 10 * significand + digitValue c
    if next ≤ maxSignificand then gather next cs else (significand, (c :: cs).length)

/-- The written integer, unless it has a point, an exponent or a size beyond 64 bits. A negative
zero and integers below `-2 ^ 63` count as fractions. -/
def toInt? (n : JsonNumber) : Option Int :=
  if !n.isIntegral then none
  else
    match gather 0 n.whole with
    | (size, 0) =>
      if !n.negative then some size
      else if size = 0 ∨ Nat.pow 2 63 < size then none
      else some (-size)
    | _ => none

/-- A power of ten as a double. -/
def tenTo (e : Nat) : Binary64 := (⟨1, e⟩ : Decimal).toBinary false

/-- Scales a double by a power of ten in the steps that doubles allow; nothing if it overflows. -/
def scaleTen (x : Binary64) (e : Int) : Option Binary64 :=
  if x.isZero then some x
  else if 0 ≤ e then
    let y := x.mul (tenTo (min e.toNat 309))
    if e ≤ 308 ∧ y.isFinite then some y else none
  else if -308 ≤ e then some (x.div (tenTo (-e).toNat))
  else
    let y := x.div (tenTo 308)
    some (if -616 ≤ e then y.div (tenTo (-e - 308).toNat) else y.div (tenTo 308))

/-- The number as a double: the leading digits that 64 bits hold are rounded to a double and then
scaled, which may differ from the nearest double in the last place. -/
def toBinary? (n : JsonNumber) : Option Binary64 :=
  match n.toInt? with
  | some i => some (.ofInt i)
  | none =>
    let (lead, dropped) := gather 0 n.whole
    let (significand, unread) := gather lead n.places
    let written : Int := match n.exponent with
      | none => 0
      | some (below, ds) =>
        let size : Int := ds.foldl (fun acc c => 10 * acc + digitValue c) 0
        if below then -size else size
    let exponent := (dropped : Int) - (n.places.length - unread : Nat) + written
    (scaleTen (.ofInt significand) exponent).map fun x => if n.negative then x.neg else x

/-- How doubles and floats are written: positional while the point falls in reach of the digits,
else with an exponent. -/
structure Style where
  lowest : Int
  highest : Int

def doubleStyle : Style := ⟨-5, 16⟩

def floatStyle : Style := ⟨-6, 13⟩

/-- The fewest digits of a finite number, in the given style. -/
def ofBinary {f : Format} (style : Style) (x : Binary f) : JsonNumber :=
  let d := Decimal.shortest .even x
  let ds := Decimal.digitList d.digits
  let point : Int := ds.length + d.exponent
  if x.isZero then { negative := x.isNegative, whole := ['0'], places := ['0'] }
  else if 0 ≤ d.exponent ∧ point ≤ style.highest then
    { negative := x.isNegative, whole := ds ++ List.replicate d.exponent.toNat '0', places := ['0'] }
  else if 0 < point ∧ point ≤ style.highest then
    { negative := x.isNegative, whole := ds.take point.toNat, places := ds.drop point.toNat }
  else if style.lowest < point ∧ point ≤ 0 then
    { negative := x.isNegative, whole := ['0'],
      places := List.replicate (-point).toNat '0' ++ ds }
  else
    { negative := x.isNegative, whole := ds.take 1, places := ds.drop 1,
      exponent := some (decide (point - 1 < 0), Decimal.digitList (point - 1).natAbs) }

def chars (n : JsonNumber) : List Char :=
  (if n.negative then ['-'] else []) ++ n.whole
    ++ (if n.places.isEmpty then [] else '.' :: n.places)
    ++ (match n.exponent with
      | none => []
      | some (below, ds) => 'e' :: (if below then ['-'] else []) ++ ds)

end JsonNumber

namespace Json

def str (s : String) : Json := string (some s)

def int (i : Int) : Json := number (.ofInt i)

def nat (n : Nat) : Json := int n

/-- An object with the given fields. -/
def record (fields : List (String × Json)) : Json :=
  object (fields.map fun (k, v) => (some k, v))

/-- Numbers that are none are written as `null`. -/
def ofBinary {f : Format} (style : JsonNumber.Style) (x : Binary f) : Json :=
  if x.isFinite then number (.ofBinary style x) else null

end Json

end Classwright
