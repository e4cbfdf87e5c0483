import Classwright.Proofs.Compiled
import Classwright.Proofs.Reporting

/-!
# What the code of an expression is

The rules by which an expression has a code and a static type. There is none for an expression with
something wrong in it: every name, call and type is known, every operand, argument, receiver,
condition and assigned value is of a type that has values, and every value fits the type that is
required of it. Lowering an expression reports nothing just if the rules give it a code, and this is
the code then.
-/

namespace Classwright.Check

open Lower

namespace StaticType

/-- There are expressions of the type that have a value: it is neither that of a call without one
nor that of an expression that has been reported. -/
def IsValue (t : StaticType) : Prop := t ≠ .void ∧ t ≠ .error

theorem isValue_of_numeric? {t : StaticType} {kind : Primitive} (numeric : t.numeric? = some kind) :
    t.IsValue := by
  cases t with
  | primitive own => exact ⟨nofun, nofun⟩
  | _ => cases numeric

theorem isValue_of_isReference {t : StaticType} (reference : t.isReference = true) :
    t.IsValue := by
  cases t with
  | null => exact ⟨nofun, nofun⟩
  | ref type => exact ⟨nofun, nofun⟩
  | _ => cases reference

theorem isValue_boolean : boolean.IsValue := ⟨nofun, nofun⟩

theorem of_ne_error (t : TypeRef) : of t ≠ .error := by
  cases t <;> exact nofun

end StaticType

/-- The variable that a name stands for: that of the innermost scope that has one. -/
def BodyState.variableOf? (st : BodyState) (name : String) : Option Variable :=
  (st.scopes.flatten.find? (·.1 == name)).map (·.2)

/-! ### The rules -/

namespace Elaboration

/-- A value fits a required type: a constant is narrowed if it keeps its value, a primitive that may
be assigned is promoted, and what may be assigned otherwise is left as it is. -/
inductive Fits (cx : ClassContext) : Lowered → TypeRef → Code.Expr → Prop
  | narrow {value : Int32} {kind : Primitive} (kept : constantFits value kind = true) :
    Fits cx (.const (.int value), .int) (.primitive kind)
      (convert (.primitive kind) (.const (.int value)))
  | promote {e : Code.Expr} {a b : Primitive}
      (assignable : cx.isAssignable (.primitive a) (.primitive b) = true) :
    Fits cx (e, .primitive a) (.primitive b) (promote e a b)
  | keep {e : Code.Expr} {source : StaticType} {target : TypeRef}
      (assignable : cx.isAssignable source target = true)
      (apart : ∀ a b, source = .primitive a → target ≠ .primitive b) :
    Fits cx (e, source) target e

/-- A sign in front of an operand. -/
inductive Signed : SignOp → Lowered → Lowered → Prop
  | not {e : Code.Expr} : Signed .not (e, .boolean) (.unary .not e, .boolean)
  | negate {e : Code.Expr} {t : StaticType} {kind : Primitive} (numeric : t.numeric? = some kind) :
    Signed .negate (e, t)
      (.unary .negate (promote e kind kind.promoted), .primitive kind.promoted)
  | plus {e : Code.Expr} {t : StaticType} {kind : Primitive} (numeric : t.numeric? = some kind) :
    Signed .plus (e, t) (promote e kind kind.promoted, .primitive kind.promoted)

/-- An operator between two operands: a sum with a string, numbers in their common type, or a
comparison of two booleans or of two references. -/
inductive Operated : BinaryOp → Lowered → Lowered → Lowered → Prop
  | join {l r : Code.Expr} {lt rt : StaticType} (text : lt.isString = true ∨ rt.isString = true)
      (left : lt.IsValue) (right : rt.IsValue) :
    Operated .add (l, lt) (r, rt) (.binary .add l r, .string)
  | numbers {op : BinaryOp} {l r : Code.Expr} {lt rt : StaticType} {a b : Primitive}
      (left : lt.numeric? = some a) (right : rt.numeric? = some b) :
    Operated op (l, lt) (r, rt)
      (.binary op (promote l a (a.promoteWith b)) (promote r b (a.promoteWith b)),
        if op.isComparison then .boolean else .primitive (a.promoteWith b))
  | equality {op : BinaryOp} {l r : Code.Expr} {lt rt : StaticType} (compares : op = .eq ∨ op = .ne)
      (comparable : lt = .boolean ∧ rt = .boolean ∨
        lt.isReference = true ∧ rt.isReference = true) :
    Operated op (l, lt) (r, rt) (.binary op l r, .boolean)

/-- The branches of a conditional and its type. Both branches may be without a value, and then the
conditional is. -/
inductive Joined : Lowered → Lowered → Code.Expr × Code.Expr × StaticType → Prop
  | same {t e : Code.Expr} {type : StaticType} (proper : type ≠ .error) :
    Joined (t, type) (e, type) (t, e, type)
  | numbers {t e : Code.Expr} {tt et : StaticType} {a b : Primitive} (differ : tt ≠ et)
      (left : tt.numeric? = some a) (right : et.numeric? = some b) :
    Joined (t, tt) (e, et)
      (promote t a (a.promoteWith b), promote e b (a.promoteWith b), .primitive (a.promoteWith b))
  | nullLeft {t e : Code.Expr} {type : TypeRef} :
    Joined (t, .null) (e, .ref type) (t, e, .ref type)
  | nullRight {t e : Code.Expr} {type : TypeRef} :
    Joined (t, .ref type) (e, .null) (t, e, .ref type)
  | object {t e : Code.Expr} {tt et : StaticType} (differ : tt ≠ et) (left : tt.IsValue)
      (right : et.IsValue) (mixed : tt.numeric? = none ∨ et.numeric? = none)
      (known : ¬ (tt = .null ∧ et.isReference = true))
      (known' : ¬ (et = .null ∧ tt.isReference = true)) :
    Joined (t, tt) (e, et) (t, e, .object)

/-- A cast: a primitive is converted to a primitive of its sort or to an object, and a reference is
checked. -/
inductive Cast : TypeRef → Lowered → Lowered → Prop
  | convert {e : Code.Expr} {a b : Primitive} (alike : a.isNumeric = b.isNumeric) :
    Cast (.primitive b) (e, .primitive a) (.cast (.primitive b) .convert e, .primitive b)
  | box {e : Code.Expr} {a : Primitive} :
    Cast .object (e, .primitive a) (.cast .object .convert e, .object)
  | check {e : Code.Expr} {t : StaticType} {target : TypeRef} (reference : t.isReference = true)
      (some_ : t = .null → ∀ kind, target ≠ .primitive kind) :
    Cast target (e, t) (.cast target .check e, .of target)

/-- Arguments are handed over: each fits its parameter, and those behind the parameters are
values. -/
inductive Handed (cx : ClassContext) : List TypeRef → List Argument → List Code.Expr → Prop
  | nil {params : List TypeRef} : Handed cx params [] []
  | more {a : Argument} {args : List Argument} {codes : List Code.Expr} (value : a.type ≠ .void)
      (rest : Handed cx [] args codes) : Handed cx [] (a :: args) (a.code :: codes)
  | fits {p : TypeRef} {params : List TypeRef} {a : Argument} {args : List Argument}
      {code : Code.Expr} {codes : List Code.Expr} (first : Fits cx (a.code, a.type) p code)
      (rest : Handed cx params args codes) : Handed cx (p :: params) (a :: args) (code :: codes)

/-- A call of a method that the type of the receiver has for the arguments. -/
inductive Called (cx : ClassContext) (receiver : Lowered) (name : String) (args : List Argument) :
    Lowered → Prop
  | found {type : TypeRef} {params : List TypeRef} {returnType : StaticType}
      {codes : List Code.Expr} (reference : receiver.2 = .ref type)
      (callee : callee? cx receiver.2 name args = some (params, returnType))
      (handed : Handed cx params args codes) :
    Called cx receiver name args (.invoke receiver.1 name codes, returnType)

/-- A call of an inherited method: the one that is declared above and not abstract, or that of every
value. -/
inductive SuperCalled (cx : ClassContext) (name : String) (args : List Argument) : Lowered → Prop
  | declared {m : OwnedMethod} {codes : List Code.Expr}
      (selected : select? cx cx.inheritedMethods name args = some m)
      (concrete : m.method.isAbstract = false) (handed : Handed cx m.method.params args codes) :
    SuperCalled cx name args (.invokeSuper name codes, .of m.method.returnType)
  | builtin {b : BuiltinMethod} {codes : List Code.Expr}
      (undeclared : select? cx cx.inheritedMethods name args = none)
      (known : BuiltinMethod.ofAny? name args.length = some b)
      (handed : Handed cx b.params args codes) :
    SuperCalled cx name args (.invokeSuper name codes, .of b.returnType)

/-- The place of a field of the class; static code has the static ones only. -/
inductive FieldAt (cx : ClassContext) (kind : BodyKind) (name : String) : Place → Prop
  | static {info : FieldInfo} (found : cx.field? name = some info) (shared : info.isStatic = true) :
    FieldAt cx kind name (.static info.slot info.type)
  | own {info : FieldInfo} (found : cx.field? name = some info) (single : info.isStatic = false)
      (dynamic : kind ≠ .staticInit) :
    FieldAt cx kind name (.field info.slot info.type)

/-- The place that a name stands for: a variable, or else a field. -/
inductive Named (cx : ClassContext) (kind : BodyKind) (st : BodyState) (name : String) :
    Place → Prop
  | var {v : Variable} (found : st.variableOf? name = some v) :
    Named cx kind st name (.var v.slot v.type)
  | field {place : Place} (free : st.variableOf? name = none) (field : FieldAt cx kind name place) :
    Named cx kind st name place

/-- The place is a variable, or no final field, or the code is that which initializes it. -/
def Assignable (cx : ClassContext) (kind : BodyKind) (name : String) (place : Place) : Prop :=
  place.isVar = false → ∀ info, cx.field? name = some info → info.isFinal = true →
    mayAssignFinal kind info.isStatic = true

/-- The place that is assigned. -/
inductive Target (cx : ClassContext) (kind : BodyKind) (st : BodyState) :
    Source.Expr → Place → Prop
  | name {n : String} {span : Span} {place : Place} (named : Named cx kind st n place)
      (assignable : Assignable cx kind n place) : Target cx kind st (.name n span) place
  | access {n : String} {span inner : Span} {place : Place} (dynamic : kind ≠ .staticInit)
      (field : FieldAt cx kind n place) (assignable : Assignable cx kind n place) :
    Target cx kind st (.access (.this inner) n span) place

/-- A value is stored, or with an operator what it makes of the old value and this one. -/
inductive Stores (cx : ClassContext) (place : Place) (value : Lowered) :
    Option BinaryOp → Lowered → Prop
  | plain {code : Code.Expr} (fits : Fits cx value place.type code) :
    Stores cx place value none (place.store code, .of place.type)
  | primitive {op : BinaryOp} {code : Code.Expr} {a b : Primitive}
      (operated : Operated op (place.load, .of place.type) value (code, .primitive a))
      (target : place.type = .primitive b) :
    Stores cx place value (some op) (place.store (promote code a b), .of place.type)
  | other {op : BinaryOp} {code stored : Code.Expr} {t : StaticType}
      (operated : Operated op (place.load, .of place.type) value (code, t))
      (apart : ∀ a b, t = .primitive a → place.type ≠ .primitive b)
      (fits : Fits cx (code, t) place.type stored) :
    Stores cx place value (some op) (place.store stored, .of place.type)

end Elaboration

open Elaboration

mutual

/-- The code of an expression and its static type, where the variables are those of the state. -/
inductive Elaborates (cx : ClassContext) (kind : BodyKind) (st : BodyState) :
    Source.Expr → Lowered → Prop
  | literal {v : Source.Literal} {span : Span} :
    Elaborates cx kind st (.literal v span) (lowerLiteral v)
  | name {n : String} {span : Span} {place : Place} (named : Named cx kind st n place) :
    Elaborates cx kind st (.name n span) (place.load, .of place.type)
  | this {span : Span} (dynamic : kind ≠ .staticInit) :
    Elaborates cx kind st (.this span) (.this, .ref (.named cx.name))
  | access {n : String} {span inner : Span} {place : Place} (dynamic : kind ≠ .staticInit)
      (field : FieldAt cx kind n place) :
    Elaborates cx kind st (.access (.this inner) n span) (place.load, .of place.type)
  | call {target : Source.Expr} {n : String} {es : List Source.Expr} {span : Span}
      {receiver result : Lowered} {args : List Argument}
      (target_ : Elaborates cx kind st target receiver) (value : receiver.2.IsValue)
      (args_ : ElaboratesAll cx kind st es args) (values : ∀ a ∈ args, a.type.IsValue)
      (called : Called cx receiver n args result) :
    Elaborates cx kind st (.call target n es span) result
  | ownCall {n : String} {es : List Source.Expr} {span : Span} {result : Lowered}
      {args : List Argument} (dynamic : kind ≠ .staticInit)
      (args_ : ElaboratesAll cx kind st es args) (values : ∀ a ∈ args, a.type.IsValue)
      (called : Called cx (.this, .ref (.named cx.name)) n args result) :
    Elaborates cx kind st (.ownCall n es span) result
  | superCall {n : String} {es : List Source.Expr} {span : Span} {result : Lowered}
      {args : List Argument} (dynamic : kind ≠ .staticInit)
      (args_ : ElaboratesAll cx kind st es args) (values : ∀ a ∈ args, a.type.IsValue)
      (called : SuperCalled cx n args result) :
    Elaborates cx kind st (.superCall n es span) result
  | unary {op : SignOp} {e : Source.Expr} {span : Span} {operand result : Lowered}
      (operand_ : Elaborates cx kind st e operand) (value : operand.2.IsValue)
      (signed : Signed op operand result) :
    Elaborates cx kind st (.unary op e span) result
  | binary {op : BinaryOp} {l r : Source.Expr} {span : Span} {left right result : Lowered}
      (left_ : Elaborates cx kind st l left) (leftValue : left.2.IsValue)
      (right_ : Elaborates cx kind st r right) (rightValue : right.2.IsValue)
      (operated : Operated op left right result) :
    Elaborates cx kind st (.binary op l r span) result
  | and {l r : Source.Expr} {span : Span} {left right : Code.Expr}
      (left_ : Elaborates cx kind st l (left, .boolean))
      (right_ : Elaborates cx kind st r (right, .boolean)) :
    Elaborates cx kind st (.logical .and l r span) (.and left right, .boolean)
  | or {l r : Source.Expr} {span : Span} {left right : Code.Expr}
      (left_ : Elaborates cx kind st l (left, .boolean))
      (right_ : Elaborates cx kind st r (right, .boolean)) :
    Elaborates cx kind st (.logical .or l r span) (.or left right, .boolean)
  | assign {op : Option BinaryOp} {target e : Source.Expr} {span : Span} {place : Place}
      {assigned result : Lowered} (target_ : Target cx kind st target place)
      (assigned_ : Elaborates cx kind st e assigned) (value : assigned.2.IsValue)
      (stores : Stores cx place assigned op result) :
    Elaborates cx kind st (.assign op target e span) result
  | conditional {c t e : Source.Expr} {span : Span} {condition thenCode elseCode : Code.Expr}
      {type : StaticType} {thenBranch elseBranch : Lowered}
      (condition_ : Elaborates cx kind st c (condition, .boolean))
      (then_ : Elaborates cx kind st t thenBranch) (else_ : Elaborates cx kind st e elseBranch)
      (joined : Joined thenBranch elseBranch (thenCode, elseCode, type)) :
    Elaborates cx kind st (.conditional c t e span) (.conditional condition thenCode elseCode, type)
  | cast {written : Source.TypeName} {e : Source.Expr} {span : Span} {target : TypeRef}
      {operand result : Lowered} (resolved : cx.scope.resolve written = .ok target)
      (operand_ : Elaborates cx kind st e operand) (value : operand.2.IsValue)
      (cast : Cast target operand result) :
    Elaborates cx kind st (.cast written e span) result

/-- The codes of arguments. -/
inductive ElaboratesAll (cx : ClassContext) (kind : BodyKind) (st : BodyState) :
    List Source.Expr → List Argument → Prop
  | nil : ElaboratesAll cx kind st [] []
  | cons {e : Source.Expr} {es : List Source.Expr} {code : Code.Expr} {type : StaticType}
      {args : List Argument} (first : Elaborates cx kind st e (code, type))
      (rest : ElaboratesAll cx kind st es args) :
    ElaboratesAll cx kind st (e :: es) (⟨code, type, e.span⟩ :: args)

end

/-! ### What the rules use are values -/

section Values

variable {cx : ClassContext} {l r result : Lowered}

theorem Elaboration.Fits.not_void {target : TypeRef} {code : Code.Expr}
    (fits : Fits cx l target code) : l.2 ≠ .void := by
  cases fits with
  | narrow => exact nofun
  | promote => exact nofun
  | keep assignable =>
    rintro ⟨⟩
    cases target <;> cases assignable

theorem Elaboration.Signed.isValue {op : SignOp} (signed : Signed op l result) : l.2.IsValue := by
  cases signed with
  | not => exact StaticType.isValue_boolean
  | negate numeric => exact StaticType.isValue_of_numeric? numeric
  | plus numeric => exact StaticType.isValue_of_numeric? numeric

theorem Elaboration.Operated.isValue {op : BinaryOp} (operated : Operated op l r result) :
    l.2.IsValue ∧ r.2.IsValue := by
  cases operated with
  | join _ left right => exact ⟨left, right⟩
  | numbers left right =>
    exact ⟨StaticType.isValue_of_numeric? left, StaticType.isValue_of_numeric? right⟩
  | equality _ comparable =>
    rcases comparable with ⟨rfl, rfl⟩ | ⟨left, right⟩
    · exact ⟨StaticType.isValue_boolean, StaticType.isValue_boolean⟩
    · exact ⟨StaticType.isValue_of_isReference left, StaticType.isValue_of_isReference right⟩

theorem Elaboration.Cast.isValue {target : TypeRef} (cast : Cast target l result) :
    l.2.IsValue := by
  cases cast with
  | convert => exact ⟨nofun, nofun⟩
  | box => exact ⟨nofun, nofun⟩
  | check reference => exact StaticType.isValue_of_isReference reference

theorem Elaboration.Handed.not_void {params : List TypeRef} {args : List Argument}
    {codes : List Code.Expr} (handed : Handed cx params args codes) :
    ∀ a ∈ args, a.type ≠ .void := by
  induction handed with
  | nil => exact List.forall_mem_nil _
  | more value _ ih => exact List.forall_mem_cons.2 ⟨value, ih⟩
  | fits first _ ih => exact List.forall_mem_cons.2 ⟨first.not_void, ih⟩

theorem Elaboration.Called.not_void {name : String} {args : List Argument}
    (called : Called cx l name args result) : ∀ a ∈ args, a.type ≠ .void := by
  obtain ⟨_, _, handed⟩ := called
  exact handed.not_void

theorem Elaboration.Called.receiver_isValue {name : String} {args : List Argument}
    (called : Called cx l name args result) : l.2.IsValue := by
  obtain ⟨reference, _, _⟩ := called
  rw [reference]
  exact ⟨nofun, nofun⟩

theorem Elaboration.SuperCalled.not_void {name : String} {args : List Argument}
    (called : SuperCalled cx name args result) : ∀ a ∈ args, a.type ≠ .void := by
  cases called with
  | declared _ _ handed => exact handed.not_void
  | builtin _ _ handed => exact handed.not_void

theorem Elaboration.Stores.not_void {place : Place} {op : Option BinaryOp}
    (stores : Stores cx place l op result) : l.2 ≠ .void := by
  cases stores with
  | plain fits => exact fits.not_void
  | primitive operated => exact operated.isValue.2.1
  | other operated => exact operated.isValue.2.1

/-! ### Nothing that has a code is of the type of a reported expression -/

theorem callee?_ne_error {receiver : StaticType} {name : String} {args : List Argument}
    {params : List TypeRef} {returnType : StaticType}
    (found : callee? cx receiver name args = some (params, returnType)) : returnType ≠ .error := by
  unfold callee? at found
  dsimp only at found
  split at found
  · cases found
    exact StaticType.of_ne_error _
  · obtain ⟨b, _, found⟩ := Option.bind_eq_some_iff.1 found
    split at found
    · cases found
      exact StaticType.of_ne_error _
    · cases found

theorem lowerLiteral_ne_error (v : Source.Literal) : (lowerLiteral v).2 ≠ .error := by
  cases v <;> exact nofun

theorem Elaborates.ne_error {kind : BodyKind} {st : BodyState} {e : Source.Expr}
    (h : Elaborates cx kind st e result) : result.2 ≠ .error := by
  cases h with
  | literal => exact lowerLiteral_ne_error _
  | name => exact StaticType.of_ne_error _
  | this => exact nofun
  | access => exact StaticType.of_ne_error _
  | call _ _ _ _ called =>
    obtain ⟨_, callee, _⟩ := called
    exact callee?_ne_error callee
  | ownCall _ _ _ called =>
    obtain ⟨_, callee, _⟩ := called
    exact callee?_ne_error callee
  | superCall _ _ _ called => cases called <;> exact StaticType.of_ne_error _
  | unary _ _ signed => cases signed <;> exact nofun
  | binary _ _ _ _ operated =>
    cases operated with
    | join => exact nofun
    | equality => exact nofun
    | numbers =>
      dsimp only
      split <;> exact nofun
  | and => exact nofun
  | or => exact nofun
  | assign _ _ _ stores => cases stores <;> exact StaticType.of_ne_error _
  | conditional _ _ _ joined =>
    cases joined with
    | same proper => exact proper
    | _ => exact nofun
  | cast _ _ _ cast =>
    cases cast with
    | check => exact StaticType.of_ne_error _
    | _ => exact nofun

theorem Elaborates.isValue {kind : BodyKind} {st : BodyState} {e : Source.Expr}
    (h : Elaborates cx kind st e result) (value : result.2 ≠ .void) : result.2.IsValue :=
  ⟨value, h.ne_error⟩

theorem ElaboratesAll.isValue {kind : BodyKind} {st : BodyState} {es : List Source.Expr}
    {args : List Argument} (h : ElaboratesAll cx kind st es args)
    (values : ∀ a ∈ args, a.type ≠ .void) : ∀ a ∈ args, a.type.IsValue := by
  induction args generalizing es with
  | nil => exact List.forall_mem_nil _
  | cons a args ih =>
    cases h with
    | cons first rest =>
      obtain ⟨value, values⟩ := List.forall_mem_cons.1 values
      exact List.forall_mem_cons.2 ⟨first.isValue value, ih rest values⟩

end Values

end Classwright.Check

/-! ### The constants of a code are the literals of its source -/

namespace Classwright.Source

mutual

/-- The literals of an expression in their order. -/
@[simp] def Expr.literals : Expr → List Literal
  | .literal v _ => [v]
  | .name _ _ | .this _ => []
  | .access target _ _ => target.literals
  | .call target _ args _ => target.literals ++ Expr.allLiterals args
  | .ownCall _ args _ | .superCall _ args _ => Expr.allLiterals args
  | .unary _ e _ | .cast _ e _ => e.literals
  | .binary _ l r _ | .logical _ l r _ => l.literals ++ r.literals
  | .assign _ target value _ => target.literals ++ value.literals
  | .conditional c t e _ => c.literals ++ t.literals ++ e.literals

@[simp] def Expr.allLiterals : List Expr → List Literal
  | [] => []
  | e :: es => e.literals ++ Expr.allLiterals es

end

/-- The constant that a literal stands for. -/
def Literal.constant : Literal → Code.Constant
  | .int v => .int v
  | .long v => .long v
  | .float v => .float v
  | .double v => .double v
  | .char v => .char v
  | .string v => .str v
  | .bool v => .bool v
  | .null => .null

end Classwright.Source

namespace Classwright.Code

mutual

/-- The constants of a code in their order. -/
@[simp] def Expr.constants : Expr → List Constant
  | .const c => [c]
  | .var _ | .this | .field _ | .static _ => []
  | .storeVar _ e | .storeField _ e | .storeStatic _ e | .unary _ e | .cast _ _ e => e.constants
  | .binary _ l r | .and l r | .or l r => l.constants ++ r.constants
  | .conditional c t e => c.constants ++ t.constants ++ e.constants
  | .invoke receiver _ args => receiver.constants ++ Expr.allConstants args
  | .invokeSuper _ args => Expr.allConstants args

@[simp] def Expr.allConstants : List Expr → List Constant
  | [] => []
  | e :: es => e.constants ++ Expr.allConstants es

end

end Classwright.Code

namespace Classwright.Check

open Lower Elaboration
open Code.Expr (allConstants)

section Constants

variable {cx : ClassContext} {kind : BodyKind} {l r result : Lowered} {place : Place}

@[simp] theorem constants_promote (e : Code.Expr) (a b : Primitive) :
    (promote e a b).constants = e.constants := by
  unfold promote
  split
  · rfl
  · rw [convert, Code.Expr.constants]

@[simp] theorem constants_load (place : Place) : place.load.constants = [] := by
  cases place <;> rw [Place.load, Code.Expr.constants]

@[simp] theorem constants_store (place : Place) (e : Code.Expr) :
    (place.store e).constants = e.constants := by
  cases place <;> rw [Place.store, Code.Expr.constants]

theorem constants_lowerLiteral (v : Source.Literal) :
    (lowerLiteral v).1.constants = [v.constant] := by
  cases v <;> rw [lowerLiteral, Code.Expr.constants, Source.Literal.constant]

theorem Elaboration.Fits.constants {target : TypeRef} {code : Code.Expr}
    (fits : Fits cx l target code) : code.constants = l.1.constants := by
  cases fits with
  | narrow => simp only [convert, Code.Expr.constants]
  | promote => exact constants_promote _ _ _
  | keep => rfl

theorem Elaboration.Signed.constants {op : SignOp} (signed : Signed op l result) :
    result.1.constants = l.1.constants := by
  cases signed <;> simp [Code.Expr.constants]

theorem Elaboration.Operated.constants {op : BinaryOp} (operated : Operated op l r result) :
    result.1.constants = l.1.constants ++ r.1.constants := by
  cases operated <;> simp [Code.Expr.constants]

theorem Elaboration.Joined.constants {thenCode elseCode : Code.Expr} {type : StaticType}
    (joined : Joined l r (thenCode, elseCode, type)) :
    thenCode.constants = l.1.constants ∧ elseCode.constants = r.1.constants := by
  cases joined <;> simp

theorem Elaboration.Cast.constants {target : TypeRef} (cast : Cast target l result) :
    result.1.constants = l.1.constants := by
  cases cast <;> rw [Code.Expr.constants]

theorem Elaboration.Handed.constants {params : List TypeRef} {args : List Argument}
    {codes : List Code.Expr} (handed : Handed cx params args codes) :
    allConstants codes = args.flatMap (·.code.constants) := by
  induction handed with
  | nil => rw [allConstants, List.flatMap_nil]
  | more _ _ ih => rw [allConstants, List.flatMap_cons, ih]
  | fits first _ ih => rw [allConstants, List.flatMap_cons, ih, first.constants]

theorem Elaboration.Stores.constants {op : Option BinaryOp} (stores : Stores cx place l op result) :
    result.1.constants = l.1.constants := by
  cases stores with
  | plain fits => simp [fits.constants]
  | primitive operated => simpa using operated.constants
  | other operated _ fits =>
    have combined := operated.constants
    simpa [fits.constants] using combined

theorem Elaboration.Target.literals {st : BodyState} {target : Source.Expr}
    (assigned : Target cx kind st target place) : target.literals = [] := by
  cases assigned <;> simp [Source.Expr.literals]

mutual

/-- What stands in the code as a constant has been written, in this order, and nothing that has been
written is missing. -/
theorem Elaborates.constants {st : BodyState} : (e : Source.Expr) → {result : Lowered} →
    Elaborates cx kind st e result →
    result.1.constants = e.literals.map Source.Literal.constant
  | .literal v _, _, h => by
    cases h
    rw [constants_lowerLiteral, Source.Expr.literals, List.map_singleton]
  | .name _ _, _, h => by
    cases h
    rw [constants_load, Source.Expr.literals, List.map_nil]
  | .this _, _, h => by
    cases h
    rw [Code.Expr.constants, Source.Expr.literals, List.map_nil]
  | .access _ _ _, _, h => by
    cases h
    rw [constants_load, Source.Expr.literals, Source.Expr.literals, List.map_nil]
  | .call target _ args _, _, h => by
    cases h with
    | call target_ _ args_ _ called =>
      obtain ⟨_, _, handed⟩ := called
      rw [Code.Expr.constants, handed.constants, Source.Expr.literals, List.map_append,
        Elaborates.constants target target_, ElaboratesAll.constants args args_]
  | .ownCall _ args _, _, h => by
    cases h with
    | ownCall _ args_ _ called =>
      obtain ⟨_, _, handed⟩ := called
      rw [Code.Expr.constants, Code.Expr.constants, List.nil_append, handed.constants,
        Source.Expr.literals, ElaboratesAll.constants args args_]
  | .superCall _ args _, _, h => by
    cases h with
    | superCall _ args_ _ called =>
      rw [Source.Expr.literals, ← ElaboratesAll.constants args args_]
      cases called with
      | declared _ _ handed => rw [Code.Expr.constants, handed.constants]
      | builtin _ _ handed => rw [Code.Expr.constants, handed.constants]
  | .unary _ e _, _, h => by
    cases h with
    | unary operand_ _ signed =>
      rw [signed.constants, Source.Expr.literals, Elaborates.constants e operand_]
  | .binary _ l r _, _, h => by
    cases h with
    | binary left_ _ right_ _ operated =>
      rw [operated.constants, Source.Expr.literals, List.map_append, Elaborates.constants l left_,
        Elaborates.constants r right_]
  | .logical _ l r _, _, h => by
    rw [Source.Expr.literals, List.map_append]
    cases h with
    | and left_ right_ =>
      rw [Code.Expr.constants, ← Elaborates.constants l left_, ← Elaborates.constants r right_]
    | or left_ right_ =>
      rw [Code.Expr.constants, ← Elaborates.constants l left_, ← Elaborates.constants r right_]
  | .assign _ target value _, _, h => by
    cases h with
    | assign target_ assigned_ _ stores =>
      rw [stores.constants, Source.Expr.literals, target_.literals, List.nil_append,
        Elaborates.constants value assigned_]
  | .conditional c t e _, _, h => by
    cases h with
    | conditional condition_ then_ else_ joined =>
      rw [Code.Expr.constants, joined.constants.1, joined.constants.2, Source.Expr.literals,
        List.map_append, List.map_append, ← Elaborates.constants c condition_,
        Elaborates.constants t then_, Elaborates.constants e else_]
  | .cast _ e _, _, h => by
    cases h with
    | cast _ operand_ _ cast =>
      rw [cast.constants, Source.Expr.literals, Elaborates.constants e operand_]

theorem ElaboratesAll.constants {st : BodyState} : (es : List Source.Expr) →
    {args : List Argument} → ElaboratesAll cx kind st es args →
    args.flatMap (·.code.constants)
      = (Source.Expr.allLiterals es).map Source.Literal.constant
  | [], _, h => by
    cases h
    rw [Source.Expr.allLiterals, List.map_nil, List.flatMap_nil]
  | e :: es, _, h => by
    cases h with
    | cons first rest =>
      rw [List.flatMap_cons, Source.Expr.allLiterals, List.map_append,
        ← Elaborates.constants e first, ElaboratesAll.constants es rest]

end

end Constants

end Classwright.Check
