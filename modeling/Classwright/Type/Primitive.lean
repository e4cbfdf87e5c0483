/-!
# Primitive types

The eight primitive types and how their values widen into one another.
-/

namespace Classwright

inductive Primitive
  | boolean
  | byte
  | short
  | char
  | int
  | long
  | float
  | double
deriving DecidableEq, Repr

namespace Primitive

def all : List Primitive := [boolean, byte, short, char, int, long, float, double]

def keyword : Primitive → String
  | boolean => "boolean"
  | byte => "byte"
  | short => "short"
  | char => "char"
  | int => "int"
  | long => "long"
  | float => "float"
  | double => "double"

def ofKeyword? (word : String) : Option Primitive := all.find? (·.keyword == word)

/-- Every type but `boolean` takes part in arithmetic. -/
def isNumeric : Primitive → Bool
  | boolean => false
  | _ => true

/-- Position in the order of widening; `short` and `char` share one. -/
def rank : Primitive → Nat
  | boolean => 0
  | byte => 1
  | short => 2
  | char => 2
  | int => 3
  | long => 4
  | float => 5
  | double => 6

/-- Operands narrower than `int` are worked on as `int`. -/
def promoted : Primitive → Primitive
  | byte => int
  | short => int
  | char => int
  | p => p

/-- The type in which two numeric operands are worked on. -/
def promoteWith (a b : Primitive) : Primitive := (if b.rank ≤ a.rank then a else b).promoted

/-- Whether a value of `a` stands for one of `b` without a cast. No numeric type but `char` itself
widens to `char`. -/
def widensTo (a b : Primitive) : Bool :=
  a == b || (a.isNumeric && b.isNumeric && a.rank < b.rank && b != char)

end Primitive

end Classwright
