import Classwright.Json.Reader

/-!
# Decoding documents

A record is an object, whose unknown fields are passed over, or the list of its fields in order. A
variant is its name alone, or an object with the name as only field. A decoder is told how many
lists and objects may still nest.
-/

namespace Classwright

/-- How many lists and objects of a document may nest. -/
def Json.maxDepth : Nat := 127

/-- Decodes a value inside which that many lists and objects may nest. -/
abbrev Decoder (α : Type) := Nat → Json → Option α

namespace Decoder

variable {α : Type}

def string : Decoder String
  | _, .string s => s
  | _, _ => none

def bool : Decoder Bool
  | _, .bool b => some b
  | _, _ => none

/-- An integer in `[lo, hi]`. -/
def intIn (lo hi : Int) : Decoder Int
  | _, .number n => n.toInt?.filter fun i => lo ≤ i && i ≤ hi
  | _, _ => none

def int32 : Decoder Int32 := fun d j =>
  (intIn Int32.minValue.toInt Int32.maxValue.toInt d j).map .ofInt

def int64 : Decoder Int64 := fun d j =>
  (intIn Int64.minValue.toInt Int64.maxValue.toInt d j).map .ofInt

/-- A count or an index of 64 bits. -/
def nat : Decoder Nat := fun d j => (intIn 0 (UInt64.size - 1) d j).map Int.toNat

def list (item : Decoder α) : Decoder (List α)
  | depth + 1, .array items => items.mapM (item depth)
  | _, _ => none

def nullable (value : Decoder α) : Decoder (Option α)
  | _, .null => some none
  | d, j => (value d j).map some

/-- The fields of an object, if all their names are texts. -/
def named (given : List (Option String × Json)) : Option (List (String × Json)) :=
  given.mapM fun (k, v) => k.map (·, v)

/-- The values of a record's fields. -/
abbrev Fields := String → Option Json

/-- Distributes the fields of a record over the names. Giving a known field twice, or more values
than names, is wrong. -/
def fields (names : List String) : Json → Option Fields
  | .object given =>
    (named given).bind fun given =>
      if names.all fun n => given.countP (·.1 == n) ≤ 1 then
        some fun n => (given.find? (·.1 == n)).map (·.2)
      else none
  | .array given =>
    if given.length ≤ names.length then some fun n => ((names.zip given).find? (·.1 == n)).map (·.2)
    else none
  | _ => none

/-- A record with fields of these names; `build` gets the nesting left for them. -/
def record (names : List String) (build : Nat → Fields → Option α) : Decoder α
  | depth + 1, j => (fields names j).bind (build depth)
  | 0, _ => none

def need (depth : Nat) (name : String) (value : Decoder α) (given : Fields) : Option α :=
  (given name).bind (value depth)

/-- The field, or `standard` where it is absent. -/
def fieldOr (standard : α) (depth : Nat) (name : String) (value : Decoder α) (given : Fields) :
    Option α :=
  match given name with
  | none => some standard
  | some j => value depth j

/-- The name of a variant, and its content with the nesting left for it. -/
def variant : Decoder (String × Option (Nat × Json))
  | _, .string s => s.map (·, none)
  | depth + 1, .object [(k, content)] => k.map (·, some (depth, content))
  | _, _ => none

/-- Whether a variant without content was written as such. -/
def isBare : Option (Nat × Json) → Bool
  | none => true
  | some (_, .null) => true
  | _ => false

/-- A value that is one of some names. -/
def oneOf (choices : List (String × α)) : Decoder α := fun depth j =>
  (variant depth j).bind fun (tag, content) =>
    if isBare content then (choices.find? (·.1 == tag)).map (·.2) else none

end Decoder

end Classwright
