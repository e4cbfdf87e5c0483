import Classwright.Machine.Arithmetic
import Classwright.Machine.Inherited

/-!
# Evaluation of bodies

Expressions and statements of compiled code, given how the methods that they call are invoked, how
host code makes objects, and how many rounds a loop may run. The variables of a body are the slots
of its frame.
-/

namespace Classwright

/-- The object and class that a body belongs to. -/
structure Frame where
  this? : Option Object
  cls : LoadedClass

/-- Runs with the values of the variables. -/
abbrev Body := StateT (List Value) Run

/-- How a statement ends. -/
inductive Flow
  | normal
  | returned (value : Value)

namespace Body

def fail {α : Type} (f : Failure) : Body α := liftM (m := Run) (Run.fail f)

/-- Runs the body while the condition holds, as long as there are rounds left. -/
def loop (condition : Body Bool) (body : Body Flow) : Nat → Body Flow
  | 0 => fun _ => Run.exhausted
  | rounds + 1 => fun locals s =>
    match condition locals s with
    | (.error stop, s) => (.error stop, s)
    | (.ok (false, locals), s) => (.ok (.normal, locals), s)
    | (.ok (true, locals), s) =>
      match body locals s with
      | (.ok (.normal, locals), s) => loop condition body rounds locals s
      | result => result

end Body

namespace Frame

def missing (frame : Frame) (kind : SlotKind) (slot : Nat) : Failure :=
  .illegalArgument (.missingSlot frame.cls.code.name kind slot)

def this (frame : Frame) : Body Object :=
  match frame.this? with
  | some o => pure o
  | none => Body.fail (.nullReference "this")

def readVar (frame : Frame) (slot : Nat) : Body Value := do
  match (← get)[slot]? with
  | some v => return v
  | none => Body.fail (frame.missing .local_ slot)

def writeVar (frame : Frame) (slot : Nat) (v : Value) : Body Unit := do
  if slot < (← get).length then modify (·.set slot v)
  else Body.fail (frame.missing .local_ slot)

end Frame

/-- The truth of a condition's value. -/
def truth (v : Value) : Body Bool :=
  match v.asBool? with
  | some b => pure b
  | none => Body.fail (.invalidResult Primitive.boolean.keyword v.kindName)

/-- A cast that is written in a source. -/
def castTo (target : TypeRef) (mode : Code.CastMode) (v : Value) : Run Value :=
  let result (converted : Option Value) : Run Value :=
    match converted with
    | some v => pure v
    | none => Run.fail (.invalidResult target.canonicalName v.kindName)
  match mode, target with
  | .convert, .primitive kind => result (v.convert kind)
  | .check, .primitive kind => result (if v.primitive? = some kind then some v else none)
  | _, target => do result (v.coerceTo (← Run.tables) target)

def isText : Value → Bool
  | .str _ => true
  | _ => false

/-- An operator on two values. A sum with a text joins the texts of both. -/
def binary (call : Invoke) (op : BinaryOp) (a b : Value) : Run Value :=
  if op = .add && (isText a || isText b) then do
    let left ← textOf call a
    let right ← textOf call b
    return .str (left ++ right)
  else Run.ofExcept (Arithmetic.binary op a b)

mutual

def eval (calls : Calls) (frame : Frame) : Code.Expr → Body Value
  | .const c => pure (.ofConstant c)
  | .var slot => frame.readVar slot
  | .this => return .object (← frame.this)
  | .field slot => do
    let o ← frame.this
    Run.readField o slot
  | .static slot => Run.readStatic frame.cls slot
  | .storeVar slot e => do
    let v ← eval calls frame e
    frame.writeVar slot v
    return v
  | .storeField slot e => do
    let v ← eval calls frame e
    let o ← frame.this
    Run.writeField o slot v
    return v
  | .storeStatic slot e => do
    let v ← eval calls frame e
    Run.writeStatic frame.cls slot v
    return v
  | .unary op e => do
    let v ← eval calls frame e
    Run.ofExcept (Arithmetic.unary op v)
  | .binary op l r => do
    let a ← eval calls frame l
    let b ← eval calls frame r
    binary calls.invoke op a b
  | .and l r => do
    let a ← eval calls frame l
    if ← truth a then
      let b ← eval calls frame r
      return .bool (← truth b)
    else return .bool false
  | .or l r => do
    let a ← eval calls frame l
    if ← truth a then return .bool true
    else
      let b ← eval calls frame r
      return .bool (← truth b)
  | .conditional c t e => do
    let v ← eval calls frame c
    if ← truth v then eval calls frame t else eval calls frame e
  | .cast target mode e => do
    let v ← eval calls frame e
    castTo target mode v
  | .invoke receiver method args => do
    let v ← eval calls frame receiver
    let vs ← evalAll calls frame args
    calls.invoke v method vs
  | .invokeSuper method args => do
    let vs ← evalAll calls frame args
    let o ← frame.this
    invokeInherited calls o method vs

/-- Evaluates arguments in order. -/
def evalAll (calls : Calls) (frame : Frame) : List Code.Expr → Body (List Value)
  | [] => pure []
  | e :: es => do
    let v ← eval calls frame e
    let vs ← evalAll calls frame es
    return v :: vs

end

/-- Evaluates a condition. -/
def evalCondition (calls : Calls) (frame : Frame) (e : Code.Expr) : Body Bool := do
  let v ← eval calls frame e
  truth v

mutual

def exec (calls : Calls) (frame : Frame) : Code.Stmt → Body Flow
  | .expr e => do
    let _ ← eval calls frame e
    return .normal
  | .ret none => return .returned .null
  | .ret (some e) => return .returned (← eval calls frame e)
  | .cond c t e => do
    if ← evalCondition calls frame c then execAll calls frame t else execAll calls frame e
  | .loop c body =>
    Body.loop (evalCondition calls frame c) (execAll calls frame body) calls.rounds
  | .throw e => do
    let v ← eval calls frame e
    Body.fail (.thrown v)
  | .block body => execAll calls frame body

/-- Runs statements in order until one returns. -/
def execAll (calls : Calls) (frame : Frame) : List Code.Stmt → Body Flow
  | [] => return .normal
  | s :: ss => do
    match ← exec calls frame s with
    | .normal => execAll calls frame ss
    | .returned v => return .returned v

end

/-- Runs a body whose first slots are the arguments. -/
def runBody (calls : Calls) (frame : Frame) (locals : Nat) (args : List Value)
    (body : List Code.Stmt) : Run Flow :=
  (execAll calls frame body).run' (args ++ List.replicate (locals - args.length) .null)

/-- Evaluates the initial value of a field. -/
def evalInitializer (calls : Calls) (frame : Frame) (type : TypeRef) (init : Code.Expr) :
    Run Value := do
  let v ← (eval calls frame init).run' []
  Run.coerce type v

end Classwright
