import Classwright.Json.Basic

/-!
# Exact numbers in documents

Many readers of documents take every number for a double. Numbers that such a reader would change
are written as texts here: a `long` in decimal, a floating-point number by its bits.
-/

namespace Classwright

/-- As many hexadecimal digits as the format is wide; one text stands for all that are no number. -/
def Binary.bitsText {f : Format} (x : Binary f) : String :=
  if x.isNaN then "nan"
  else
    let digits := Nat.toDigits 16 x.bits.toNat
    String.ofList (List.replicate (f.width / 4 - digits.length) '0' ++ digits)

namespace Json

def exactLong (v : Int64) : Json := str (toString v.toInt)

def exactBinary {f : Format} (x : Binary f) : Json := str x.bitsText

def char (c : Char) : Json := str (String.singleton c)

def texts (ss : List String) : Json := array (ss.map str)

/-- What is absent is written as `null`. -/
def optional {α : Type} (encode : α → Json) : Option α → Json
  | none => null
  | some a => encode a

end Json

end Classwright
