import Classwright.Machine.Conversion
import Classwright.Machine.Failure

/-!
# Operators on values

Two numeric operands are promoted to one type first. Integers wrap around; only an integer division
by zero fails. Values that are no numbers can be compared for equality.
-/

namespace Classwright.Arithmetic

/-- What a comparison says about two operands in this order; none if they are unordered. -/
def holds : BinaryOp → Option Ordering → Bool
  | .ne, none => true
  | _, none => false
  | .eq, some o => o == .eq
  | .ne, some o => o != .eq
  | .lt, some o => o == .lt
  | .le, some o => o != .gt
  | .gt, some o => o == .gt
  | .ge, some o => o != .lt
  | _, _ => false

def orderInt (a b : Int) : Option Ordering := some (compare a b)

def onInts (op : BinaryOp) (a b : Int32) : Except Failure Value :=
  match op with
  | .add => .ok (.int (a + b))
  | .sub => .ok (.int (a - b))
  | .mul => .ok (.int (a * b))
  | .div => if b = 0 then .error .divisionByZero else .ok (.int (a / b))
  | .rem => if b = 0 then .error .divisionByZero else .ok (.int (a % b))
  | op => .ok (.bool (holds op (orderInt a.toInt b.toInt)))

def onLongs (op : BinaryOp) (a b : Int64) : Except Failure Value :=
  match op with
  | .add => .ok (.long (a + b))
  | .sub => .ok (.long (a - b))
  | .mul => .ok (.long (a * b))
  | .div => if b = 0 then .error .divisionByZero else .ok (.long (a / b))
  | .rem => if b = 0 then .error .divisionByZero else .ok (.long (a % b))
  | op => .ok (.bool (holds op (orderInt a.toInt b.toInt)))

def onBinary {f : Format} (wrap : Binary f → Value) (op : BinaryOp) (a b : Binary f) : Value :=
  match op with
  | .add => wrap (a.add b)
  | .sub => wrap (a.sub b)
  | .mul => wrap (a.mul b)
  | .div => wrap (a.div b)
  | .rem => wrap (a.rem b)
  | op => .bool (holds op (a.compare? b))

def numericKind? (v : Value) : Option Primitive := v.primitive?.filter (·.isNumeric)

/-- Two numeric operands as values of one type. -/
def promote (a b : Value) : Option (Value × Value) := do
  let kind := (← numericKind? a).promoteWith (← numericKind? b)
  return (← a.convert kind, ← b.convert kind)

def badOperands (op : BinaryOp) (a b : Value) : Failure :=
  .illegalArgument (.badOperands op a.kindName b.kindName)

/-- An operator on operands of which none is a text to be joined. -/
def binary (op : BinaryOp) (a b : Value) : Except Failure Value :=
  match promote a b with
  | none =>
    match op with
    | .eq => .ok (.bool (a.equals b))
    | .ne => .ok (.bool (!a.equals b))
    | _ => .error (badOperands op a b)
  | some (.int x, .int y) => onInts op x y
  | some (.long x, .long y) => onLongs op x y
  | some (.float x, .float y) => .ok (onBinary .float op x y)
  | some (.double x, .double y) => .ok (onBinary .double op x y)
  | some _ => .error (badOperands op a b)

/-- An operand of a sign, promoted. -/
def promoted (v : Value) : Option Value :=
  (numericKind? v).bind fun kind => v.convert kind.promoted

def negate (v : Value) : Except Failure Value :=
  match promoted v with
  | some (.int x) => .ok (.int (-x))
  | some (.long x) => .ok (.long (-x))
  | some (.float x) => .ok (.float x.neg)
  | some (.double x) => .ok (.double x.neg)
  | _ => .error (.illegalArgument (.badOperand "-" v.kindName))

def unary : Code.UnaryOp → Value → Except Failure Value
  | .negate, v => negate v
  | .not, .bool b => .ok (.bool !b)
  | .not, v => .error (.illegalArgument (.badOperand "!" v.kindName))

end Classwright.Arithmetic
