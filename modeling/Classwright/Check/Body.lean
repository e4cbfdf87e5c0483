import Classwright.Check.Declared
import Classwright.Code.Basic

/-!
# Checking and lowering bodies

Statements and expressions become code while they are checked. What is wrong is noted and checking
goes on; an expression that has been reported has the static type `error`, of which nothing more is
reported. Every variable has a slot of its own.
-/

namespace Classwright.Check

open Source (Literal Param)

/-- What kind of code is lowered. -/
inductive BodyKind
  | method (returnType : TypeRef)
  | constructor
  | instanceInit
  | staticInit
deriving DecidableEq

structure Variable where
  slot : Nat
  type : TypeRef
deriving DecidableEq

/-- Diagnostics so far, variables of the open scopes, innermost first, and the next free slot. -/
structure BodyState where
  diagnostics : List Diagnostic := []
  scopes : List (List (String × Variable)) := [[]]
  nextSlot : Nat := 0

abbrev Lower := StateM BodyState

/-- Lowered code and its static type. -/
abbrev Lowered := Code.Expr × StaticType

/-- A lowered argument and where it stands. -/
structure Argument where
  code : Code.Expr
  type : StaticType
  span : Span

/-- Where an assignment stores. -/
inductive Place
  | var (slot : Nat) (type : TypeRef)
  | field (slot : Nat) (type : TypeRef)
  | static (slot : Nat) (type : TypeRef)

namespace Place

def type : Place → TypeRef
  | var _ t | field _ t | static _ t => t

def load : Place → Code.Expr
  | var slot _ => .var slot
  | field slot _ => .field slot
  | static slot _ => .static slot

def store (value : Code.Expr) : Place → Code.Expr
  | var slot _ => .storeVar slot value
  | field slot _ => .storeField slot value
  | static slot _ => .storeStatic slot value

def isVar : Place → Bool
  | var _ _ => true
  | _ => false

end Place

/-- Stands for an expression that has been reported. -/
def failed : Lowered := (.const .null, .error)

def convert (target : TypeRef) (e : Code.Expr) : Code.Expr := .cast target .convert e

def promote (e : Code.Expr) (source target : Primitive) : Code.Expr :=
  if source = target then e else convert (.primitive target) e

/-- The value that a variable has when it is declared without one. -/
def defaultCode : TypeRef → Code.Expr
  | .primitive .boolean => .const (.bool false)
  | .primitive .char => .const (.char '\x00')
  | .primitive .int => .const (.int 0)
  | .primitive .long => .const (.long 0)
  | .primitive .float => .const (.float (.zero false))
  | .primitive .double => .const (.double (.zero false))
  | .primitive .byte => convert (.primitive .byte) (.const (.int 0))
  | .primitive .short => convert (.primitive .short) (.const (.int 0))
  | _ => .const .null

/-- Whether an `int` constant keeps its value when it is narrowed. -/
def constantFits (value : Int32) : Primitive → Bool
  | .byte => -128 ≤ value.toInt && value.toInt ≤ 127
  | .short => -32768 ≤ value.toInt && value.toInt ≤ 32767
  | .char => 0 ≤ value.toInt && value.toInt ≤ 65535
  | _ => false

def lowerLiteral : Literal → Lowered
  | .int v => (.const (.int v), .int)
  | .long v => (.const (.long v), .primitive .long)
  | .float v => (.const (.float v), .primitive .float)
  | .double v => (.const (.double v), .primitive .double)
  | .char v => (.const (.char v), .primitive .char)
  | .string v => (.const (.str v), .string)
  | .bool v => (.const (.bool v), .boolean)
  | .null => (.const .null, .null)

namespace Lower

def report (cause : Cause) (span : Span) : Lower Unit :=
  modify fun s => { s with diagnostics := s.diagnostics ++ [⟨cause, span⟩] }

/-- Reports and gives up the expression. -/
def fail (cause : Cause) (span : Span) : Lower Lowered := do
  report cause span
  return failed

/-- Gives a variable the next slot, in the innermost scope. -/
def declare (name : String) (type : TypeRef) (span : Span) : Lower Nat := do
  if (← get).scopes.any fun scope => scope.any (·.1 == name) then
    report (.duplicateVariable name) span
  modifyGet fun s =>
    (s.nextSlot, { s with
      scopes := match s.scopes with
        | [] => []
        | scope :: outer => ((name, ⟨s.nextSlot, type⟩) :: scope) :: outer
      nextSlot := s.nextSlot + 1 })

/-- The variable of the innermost scope that has one of this name. -/
def lookupVariable? (name : String) : Lower (Option Variable) := do
  return ((← get).scopes.flatten.find? (·.1 == name)).map (·.2)

/-- Runs `body` in a scope of its own. -/
def inScope {α : Type} (body : Lower α) : Lower α := do
  modify fun s => { s with scopes := [] :: s.scopes }
  let a ← body
  modify fun s => { s with scopes := s.scopes.drop 1 }
  return a

/-- Resolves a written type; an unknown one is reported and counts as `Object`. -/
def resolve (cx : ClassContext) (t : Source.TypeName) : Lower TypeRef := do
  match cx.scope.resolve t with
  | .ok type => return type
  | .error d =>
    report d.cause d.span
    return .object

end Lower

open Lower

/-- Fits code of static type `source` to `target`. A constant that keeps its value is narrowed. -/
def coerce (cx : ClassContext) (e : Code.Expr) (source : StaticType) (target : TypeRef)
    (span : Span) : Lower Code.Expr := do
  match source, target, e with
  | .primitive .int, .primitive kind, .const (.int value) =>
    if constantFits value kind then return convert target e
  | _, _, _ => pure ()
  if !cx.isAssignable source target then
    report (.incompatible source.text target.canonicalName) span
    return e
  match source, target with
  | .primitive a, .primitive b => return promote e a b
  | _, _ => return e

/-- Requires a condition. -/
def asCondition (lowered : Lowered) (span : Span) : Lower Code.Expr := do
  if !lowered.2.isCondition then
    report (.incompatible lowered.2.text "boolean") span
  return lowered.1

/-- The place of a field of the class itself. -/
def fieldPlace? (cx : ClassContext) (kind : BodyKind) (name : String) (span : Span) :
    Lower (Option Place) := do
  match cx.field? name with
  | none =>
    report (.unknownVariable name) span
    return none
  | some info =>
    if info.isStatic then return some (.static info.slot info.type)
    else if kind = .staticInit then
      report (.staticContext name) span
      return none
    else return some (.field info.slot info.type)

/-- The place that a bare name stands for: a variable, or else a field. -/
def namePlace? (cx : ClassContext) (kind : BodyKind) (name : String) (span : Span) :
    Lower (Option Place) := do
  match ← lookupVariable? name with
  | some v => return some (.var v.slot v.type)
  | none => fieldPlace? cx kind name span

/-- The place of a field behind a target, which has to be `this`. -/
def accessPlace? (cx : ClassContext) (kind : BodyKind) (target : Source.Expr) (name : String)
    (span : Span) : Lower (Option Place) := do
  match target with
  | .this targetSpan =>
    if kind = .staticInit then
      report (.staticContext "this") targetSpan
      return none
    else fieldPlace? cx kind name span
  | _ =>
    report (.foreignField name) span
    return none

/-- Whether this kind of code may assign the final field. -/
def mayAssignFinal (kind : BodyKind) (isStatic : Bool) : Bool :=
  match kind with
  | .constructor | .instanceInit => !isStatic
  | .staticInit => isStatic
  | .method _ => false

/-- Reports the assignment of a final field outside the code that initializes it. -/
def guardFinal (cx : ClassContext) (kind : BodyKind) (name : String) (place : Place) (span : Span) :
    Lower Unit := do
  match (if place.isVar then none else (cx.field? name).filter (·.isFinal)) with
  | some info =>
    if !mayAssignFinal kind info.isStatic then report (.finalAssignment name) span
  | none => pure ()

/-- The place that the target of an assignment stands for. -/
def targetPlace? (cx : ClassContext) (kind : BodyKind) (target : Source.Expr) :
    Lower (Option Place) := do
  match target with
  | .name name span =>
    let some place ← namePlace? cx kind name span | return none
    guardFinal cx kind name place span
    return some place
  | .access inner name span =>
    let some place ← accessPlace? cx kind inner name span | return none
    guardFinal cx kind name place span
    return some place
  | other =>
    report .badTarget other.span
    return none

def lowerPlace (place : Option Place) : Lowered :=
  match place with
  | some p => (p.load, .of p.type)
  | none => failed

def lowerUnary (op : SignOp) (operand : Lowered) (span : Span) : Lower Lowered := do
  let (code, type) := operand
  if type = .error then return failed
  match op with
  | .not =>
    if !type.isCondition then fail (.badOperand type "!") span
    else return (.unary .not code, .boolean)
  | .negate =>
    match type.numeric? with
    | none => fail (.badOperand type "-") span
    | some kind =>
      return (.unary .negate (promote code kind kind.promoted), .primitive kind.promoted)
  | .plus =>
    match type.numeric? with
    | none => fail (.badOperand type "+") span
    | some kind => return (promote code kind kind.promoted, .primitive kind.promoted)

/-- A sum with a string is a string; numbers are worked on in their common type; booleans and
references can be compared for equality. -/
def lowerBinary (op : BinaryOp) (left right : Lowered) (span : Span) : Lower Lowered := do
  let (l, lt) := left
  let (r, rt) := right
  if lt = .error ∨ rt = .error then return failed
  if op = .add ∧ (lt.isString ∨ rt.isString) then
    if lt = .void ∨ rt = .void then fail (.badOperands op lt rt) span
    else return (.binary op l r, .string)
  else
    match lt.numeric?, rt.numeric? with
    | some a, some b =>
      let kind := a.promoteWith b
      return (.binary op (promote l a kind) (promote r b kind),
        if op.isComparison then .boolean else .primitive kind)
    | _, _ =>
      if op = .eq ∨ op = .ne then
        if (lt = .boolean ∧ rt = .boolean) ∨ (lt.isReference ∧ rt.isReference) then
          return (.binary op l r, .boolean)
        else fail (.incomparable lt rt) span
      else fail (.badOperands op lt rt) span

/-- The branches of a conditional, fitted to each other, and its type. -/
def joinBranches (thenBranch elseBranch : Lowered) (thenSpan : Span) :
    Lower (Code.Expr × Code.Expr × StaticType) := do
  let (t, tt) := thenBranch
  let (e, et) := elseBranch
  if tt = et then return (t, e, tt)
  else if tt = .error ∨ et = .error then return (t, e, .error)
  else
    match tt.numeric?, et.numeric? with
    | some a, some b =>
      let kind := a.promoteWith b
      return (promote t a kind, promote e b kind, .primitive kind)
    | _, _ =>
      if tt = .null ∧ et.isReference then return (t, e, et)
      else if et = .null ∧ tt.isReference then return (t, e, tt)
      else if tt = .void ∨ et = .void then
        report .voidValue thenSpan
        return (t, e, .error)
      else return (t, e, .object)

/-- A cast to a resolved type. -/
def lowerCast (target : TypeRef) (operand : Lowered) (span operandSpan : Span) : Lower Lowered := do
  let (code, source) := operand
  match source, target with
  | .void, _ => fail .voidValue operandSpan
  | .primitive a, .primitive b =>
    if a.isNumeric != b.isNumeric then fail (.incompatible a.keyword b.keyword) span
    else return (.cast target .convert code, .of target)
  | .primitive a, target =>
    if target = .object then return (.cast target .convert code, .of target)
    else fail (.incompatible a.keyword target.canonicalName) span
  | .null, .primitive b => fail (.incompatible "<null>" b.keyword) span
  | _, _ => return (.cast target .check code, .of target)

/-- Whether the arguments, as many as there are parameters, may be passed for them. -/
def accepts (cx : ClassContext) (params : List TypeRef) (args : List Argument) : Bool :=
  params.length == args.length
    && (params.zip args).all fun (p, a) => cx.isAssignable a.type p

/-- The first method of the name that accepts the arguments. -/
def select? (cx : ClassContext) (candidates : List OwnedMethod) (name : String)
    (args : List Argument) : Option OwnedMethod :=
  candidates.find? fun m => m.name == name && !m.isStatic && accepts cx m.method.params args

/-- Fits arguments to parameters; arguments beyond the parameters only have to be values. -/
def coerceArgs (cx : ClassContext) : List TypeRef → List Argument → Lower (List Code.Expr)
  | _, [] => return []
  | [], a :: args => do
    if a.type = .void then report .voidValue a.span
    return a.code :: (← coerceArgs cx [] args)
  | p :: params, a :: args => do
    let code ← coerce cx a.code a.type p a.span
    return code :: (← coerceArgs cx params args)

/-- Parameters and return type of the method that a call on a value of the static type runs. -/
def callee? (cx : ClassContext) (receiver : StaticType) (name : String) (args : List Argument) :
    Option (List TypeRef × StaticType) :=
  let declared := receiver.named?.bind fun typeName =>
    if Builtin.all.contains typeName then none
    else select? cx (cx.methodsOf typeName) name args
  match declared with
  | some m => some (m.method.params, .of m.method.returnType)
  | none =>
    (BuiltinMethod.find? receiver name args.length).bind fun b =>
      let fixed := args.take b.params.length
      if (b.open_ || b.params.length == args.length) && accepts cx b.params fixed then
        some (b.params, .of b.returnType)
      else none

/-- A call on a lowered receiver. -/
def lowerCall (cx : ClassContext) (receiver : Lowered) (name : String) (args : List Argument)
    (span : Span) : Lower Lowered := do
  match receiver.2 with
  | .error => return failed
  | .ref _ =>
    match callee? cx receiver.2 name args with
    | none => fail (.unknownMethod name (args.map (·.type)) receiver.2) span
    | some (params, returnType) =>
      let codes ← coerceArgs cx params args
      return (.invoke receiver.1 name codes, returnType)
  | other => fail (.notDereferenceable other) span

/-- A call that passes over the methods of the class itself. -/
def lowerSuperCall (cx : ClassContext) (name : String) (args : List Argument) (span : Span) :
    Lower Lowered := do
  match select? cx cx.inheritedMethods name args with
  | some m =>
    if m.method.isAbstract then fail (.abstractSuperCall m.signature m.owner) span
    else
      let codes ← coerceArgs cx m.method.params args
      return (.invokeSuper name codes, .of m.method.returnType)
  | none =>
    match BuiltinMethod.ofAny? name args.length with
    | none =>
      fail (.unknownMethod name (args.map (·.type)) (.ref (.named cx.superclass))) span
    | some b =>
      let codes ← coerceArgs cx b.params args
      return (.invokeSuper name codes, .of b.returnType)

/-- `this`, which static code does not have. -/
def lowerThis (cx : ClassContext) (kind : BodyKind) (cause : Cause) (span : Span) :
    Lower Lowered := do
  if kind = .staticInit then fail cause span
  else return (.this, .ref (.named cx.name))

/-- Stores a value; with an operator, the value that the operator makes of old and new. -/
def lowerStore (cx : ClassContext) (op : Option BinaryOp) (place : Place) (value : Lowered)
    (span valueSpan : Span) : Lower Lowered := do
  let target := place.type
  match op with
  | none =>
    let stored ← coerce cx value.1 value.2 target valueSpan
    return (place.store stored, .of target)
  | some op =>
    let (combined, type) ← lowerBinary op (place.load, .of target) value span
    match type, target with
    | .primitive a, .primitive b => return (place.store (promote combined a b), .of target)
    | _, _ =>
      let stored ← coerce cx combined type target span
      return (place.store stored, .of target)

mutual

def lowerExpr (cx : ClassContext) (kind : BodyKind) : Source.Expr → Lower Lowered
  | .literal v _ => return lowerLiteral v
  | .name n span => return lowerPlace (← namePlace? cx kind n span)
  | .this span => lowerThis cx kind (.staticContext "this") span
  | .access target n span => return lowerPlace (← accessPlace? cx kind target n span)
  | .call target n args span => do
    let receiver ← lowerExpr cx kind target
    let args ← lowerArgs cx kind args
    lowerCall cx receiver n args span
  | .ownCall n args span => do
    let receiver ← lowerThis cx kind (.staticContextMethod n) span
    if receiver.2 = .error then return failed
    let args ← lowerArgs cx kind args
    lowerCall cx receiver n args span
  | .superCall n args span => do
    if kind = .staticInit then fail (.staticContext "super") span
    else
      let args ← lowerArgs cx kind args
      lowerSuperCall cx n args span
  | .unary op e span => do lowerUnary op (← lowerExpr cx kind e) span
  | .binary op l r span => do
    let left ← lowerExpr cx kind l
    let right ← lowerExpr cx kind r
    lowerBinary op left right span
  | .logical op l r _ => do
    let left ← asCondition (← lowerExpr cx kind l) l.span
    let right ← asCondition (← lowerExpr cx kind r) r.span
    match op with
    | .and => return (.and left right, .boolean)
    | .or => return (.or left right, .boolean)
  | .assign op target value span => do
    let place ← targetPlace? cx kind target
    let lowered ← lowerExpr cx kind value
    match place with
    | none => return failed
    | some place => lowerStore cx op place lowered span value.span
  | .conditional c t e _ => do
    let condition ← asCondition (← lowerExpr cx kind c) c.span
    let thenBranch ← lowerExpr cx kind t
    let elseBranch ← lowerExpr cx kind e
    let (thenCode, elseCode, type) ← joinBranches thenBranch elseBranch t.span
    return (.conditional condition thenCode elseCode, type)
  | .cast type e span => do
    match cx.scope.resolve type with
    | .error d =>
      report d.cause d.span
      let _ ← lowerExpr cx kind e
      return failed
    | .ok target => lowerCast target (← lowerExpr cx kind e) span e.span

def lowerArgs (cx : ClassContext) (kind : BodyKind) : List Source.Expr → Lower (List Argument)
  | [] => return []
  | e :: es => do
    let (code, type) ← lowerExpr cx kind e
    return ⟨code, type, e.span⟩ :: (← lowerArgs cx kind es)

end

/-- Lowers an expression where a value of type `target` is required. -/
def lowerAs (cx : ClassContext) (kind : BodyKind) (e : Source.Expr) (target : TypeRef) :
    Lower Code.Expr := do
  let (code, type) ← lowerExpr cx kind e
  coerce cx code type target e.span

def lowerCondition (cx : ClassContext) (kind : BodyKind) (e : Source.Expr) : Lower Code.Expr := do
  asCondition (← lowerExpr cx kind e) e.span

/-- The value that a `return` gives; only methods with a return type give one. -/
def lowerReturn (cx : ClassContext) (kind : BodyKind) (value : Option Source.Expr) (span : Span) :
    Lower (Option Code.Expr) := do
  match kind, value with
  | .method .void, some e =>
    report .unexpectedReturnValue e.span
    return none
  | .method .void, none => return none
  | .method _, none =>
    report .missingReturnValue span
    return none
  | .method type, some e => return some (← lowerAs cx kind e type)
  | _, some e =>
    report .returnFromInitializer e.span
    return none
  | _, none => return none

mutual

/-- Lowers a statement; an empty one leaves no code. -/
def lowerStmt (cx : ClassContext) (kind : BodyKind) : Source.Stmt → Lower (List Code.Stmt)
  | .block body _ => return [.block (← inScope (lowerStmts cx kind body))]
  | .empty _ => return []
  | .expr e => return [.expr (← lowerExpr cx kind e).1]
  | .declare type name init span => do
    let type ← resolve cx type
    let value ← match init with
      | some e => lowerAs cx kind e type
      | none => pure (defaultCode type)
    let slot ← declare name type span
    return [.expr (.storeVar slot value)]
  | .ret value span => return [.ret (← lowerReturn cx kind value span)]
  | .ifThen c t _ => do
    let condition ← lowerCondition cx kind c
    let thenBranch ← inScope (lowerStmt cx kind t)
    return [.cond condition thenBranch []]
  | .ifElse c t e _ => do
    let condition ← lowerCondition cx kind c
    let thenBranch ← inScope (lowerStmt cx kind t)
    let elseBranch ← inScope (lowerStmt cx kind e)
    return [.cond condition thenBranch elseBranch]
  | .loop c b _ => do
    let condition ← lowerCondition cx kind c
    let body ← inScope (lowerStmt cx kind b)
    return [.loop condition body]
  | .throw e span => do
    let (code, type) ← lowerExpr cx kind e
    if type = .void then report .voidValue span
    return [.throw code]

def lowerStmts (cx : ClassContext) (kind : BodyKind) : List Source.Stmt → Lower (List Code.Stmt)
  | [] => return []
  | s :: ss => do
    let code ← lowerStmt cx kind s
    return code ++ (← lowerStmts cx kind ss)

end

/-- Gives parameters the first slots. -/
def declareParams : List Param → List TypeRef → Lower Unit
  | p :: ps, t :: ts => do
    let _ ← declare p.name t p.span
    declareParams ps ts
  | _, _ => return ()

end Classwright.Check
