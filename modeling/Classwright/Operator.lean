/-!
# Operators

The operators that sources write and compiled code carries out.
-/

namespace Classwright

inductive BinaryOp
  | add
  | sub
  | mul
  | div
  | rem
  | eq
  | ne
  | lt
  | le
  | gt
  | ge
deriving DecidableEq, Repr

namespace BinaryOp

def all : List BinaryOp := [add, sub, mul, div, rem, eq, ne, lt, le, gt, ge]

def isComparison : BinaryOp → Bool
  | eq | ne | lt | le | gt | ge => true
  | _ => false

def text : BinaryOp → String
  | add => "+"
  | sub => "-"
  | mul => "*"
  | div => "/"
  | rem => "%"
  | eq => "=="
  | ne => "!="
  | lt => "<"
  | le => "<="
  | gt => ">"
  | ge => ">="

end BinaryOp

inductive LogicalOp
  | and
  | or
deriving DecidableEq, Repr

def LogicalOp.text : LogicalOp → String
  | and => "&&"
  | or => "||"

/-- Signs in front of an operand. -/
inductive SignOp
  | negate
  | plus
  | not
deriving DecidableEq, Repr

end Classwright
