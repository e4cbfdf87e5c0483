import Classwright.Check.Compile
import Classwright.Proofs.Relocation
import Mathlib.Data.List.Induction

/-!
# Checking two sources abreast

Checking asks a tree for its places only to report them. So a relocated tree is lowered to the same
code, and what is wrong with it is the same at the relocated places.
-/

namespace Classwright.Check

open Source (Param)

variable (f : Span → Span)

/-! ### Relocated findings and classes -/

def Diagnostic.relocate (d : Diagnostic) : Diagnostic := ⟨d.cause, f d.span⟩

def BodyState.relocate (s : BodyState) : BodyState :=
  { s with diagnostics := s.diagnostics.map (Diagnostic.relocate f) }

def Argument.relocate (a : Argument) : Argument := { a with span := f a.span }

def DeclaredMember.relocate : DeclaredMember → DeclaredMember
  | .field decl info => .field (decl.relocate f) info
  | .method decl info => .method (decl.relocate f) info
  | .constructor decl params => .constructor (decl.relocate f) params

def ClassContext.relocate (cx : ClassContext) : ClassContext :=
  { cx with members := cx.members.map (DeclaredMember.relocate f) }

variable {f}

theorem filterMap_relocate {α : Type} {p : DeclaredMember → Option α}
    (even : ∀ m, p (m.relocate f) = p m) (ms : List DeclaredMember) :
    (ms.map (DeclaredMember.relocate f)).filterMap p = ms.filterMap p := by
  rw [List.filterMap_map]
  exact congrArg (List.filterMap · ms) (funext even)

@[simp] theorem DeclaredMember.relocate_field? (m : DeclaredMember) :
    (m.relocate f).field? = m.field? := by cases m <;> rfl

@[simp] theorem DeclaredMember.relocate_method? (m : DeclaredMember) :
    (m.relocate f).method? = m.method? := by cases m <;> rfl

@[simp] theorem DeclaredMember.relocate_constructor? (m : DeclaredMember) :
    (m.relocate f).constructor? = m.constructor? := by cases m <;> rfl

namespace ClassContext

variable (cx : ClassContext)

@[simp] theorem relocate_scope : (cx.relocate f).scope = cx.scope := rfl

@[simp] theorem relocate_inheritedMethods :
    (cx.relocate f).inheritedMethods = cx.inheritedMethods := rfl

@[simp] theorem relocate_methods : (cx.relocate f).methods = cx.methods :=
  filterMap_relocate DeclaredMember.relocate_method? cx.members

@[simp] theorem relocate_field? (name : String) : (cx.relocate f).field? name = cx.field? name :=
  congrArg (List.find? fun info : FieldInfo => info.name == name)
    (filterMap_relocate DeclaredMember.relocate_field? cx.members)

@[simp] theorem relocate_methodsOf (name : String) :
    (cx.relocate f).methodsOf name = cx.methodsOf name := by
  rw [methodsOf, relocate_methods]
  rfl

@[simp] theorem relocate_isAssignableRef (source target : TypeRef) :
    (cx.relocate f).isAssignableRef source target = cx.isAssignableRef source target := by
  fun_induction isAssignableRef cx source target <;>
    first | rfl | simp_all [isAssignableRef]

@[simp] theorem relocate_isAssignable (source : StaticType) (target : TypeRef) :
    (cx.relocate f).isAssignable source target = cx.isAssignable source target := by
  unfold isAssignable
  simp only [relocate_isAssignableRef]

end ClassContext

/-! ### Lowering on both sides -/

namespace Lower

variable {α β γ δ : Type} {v : α → β} {w : γ → δ}

/-- From the relocated state the second body gives the same and ends in the relocated state. -/
def Moves (f : Span → Span) (v : α → β) (body : Lower α) (body' : Lower β) : Prop :=
  ∀ s, body' (s.relocate f) = (v (body s).1, (body s).2.relocate f)

theorem Moves.pure {a : α} {b : β} (value : b = v a) :
    Moves f v (Pure.pure a) (Pure.pure b) := by
  subst value
  exact fun _ => rfl

theorem Moves.bind {body : Lower α} {body' : Lower β} {next : α → Lower γ} {next' : β → Lower δ}
    (h : Moves f v body body') (hnext : ∀ a, Moves f w (next a) (next' (v a))) :
    Moves f w (body >>= next) (body' >>= next') := by
  intro s
  change next' (body' (s.relocate f)).1 (body' (s.relocate f)).2
    = (w (next (body s).1 (body s).2).1, (next (body s).1 (body s).2).2.relocate f)
  rw [h s]
  exact hnext _ _

theorem Moves.ite {c : Prop} [Decidable c] {body other : Lower α} {body' other' : Lower β}
    (h : Moves f v body body') (hother : Moves f v other other') :
    Moves f v (if c then body else other) (if c then body' else other') := by
  split
  · exact h
  · exact hother

theorem moves_report (cause : Cause) (span : Span) :
    Moves f id (report cause span) (report cause (f span)) := by
  intro s
  have found : (s.diagnostics ++ [Diagnostic.mk cause span]).map (Diagnostic.relocate f)
      = s.diagnostics.map (Diagnostic.relocate f) ++ [⟨cause, f span⟩] := List.map_append
  exact congrArg (fun ds => ((), { s with diagnostics := ds })) found.symm

theorem moves_fail (cause : Cause) (span : Span) :
    Moves f id (fail cause span) (fail cause (f span)) :=
  (moves_report cause span).bind fun _ => .pure rfl

theorem moves_get : Moves f (BodyState.relocate f) get get := fun _ => rfl

theorem moves_declare (name : String) (type : TypeRef) (span : Span) :
    Moves f id (declare name type span) (declare name type (f span)) := by
  unfold declare
  refine moves_get.bind fun seen => ?_
  exact .ite ((moves_report _ span).bind fun _ _ => rfl) fun _ => rfl

theorem moves_lookupVariable? (name : String) :
    Moves f id (lookupVariable? name) (lookupVariable? name) := fun _ => rfl

theorem Moves.inScope {body body' : Lower α} (h : Moves f id body body') :
    Moves f id (inScope body) (inScope body') :=
  .bind (v := id) (fun _ => rfl) fun _ =>
    .bind h fun _ => .bind (v := id) (fun _ => rfl) fun _ => .pure rfl

end Lower

namespace TypeScope

variable (scope : TypeScope)

/-- What a written type stands for does not depend on where it is written. -/
theorem resolve_relocate (t : Source.TypeName) :
    scope.resolve (t.relocate f) = (scope.resolve t).mapError (Diagnostic.relocate f) := by
  unfold resolve
  dsimp only [Source.TypeName.relocate]
  split
  · rfl
  · split <;> rfl

end TypeScope

namespace Lower

theorem moves_resolve (cx : ClassContext) (t : Source.TypeName) :
    Moves f id (resolve cx t) (resolve (cx.relocate f) (t.relocate f)) := by
  unfold resolve
  rw [ClassContext.relocate_scope, TypeScope.resolve_relocate]
  cases cx.scope.resolve t with
  | ok type => exact .pure rfl
  | error d => exact (moves_report d.cause d.span).bind fun _ => .pure rfl

end Lower

open Lower

variable (cx : ClassContext)

theorem coerce_moves (e : Code.Expr) (source : StaticType) (target : TypeRef) (span : Span) :
    Moves f id (coerce cx e source target span)
      (coerce (cx.relocate f) e source target (f span)) := by
  unfold coerce
  simp only [ClassContext.relocate_isAssignable]
  split
  · refine .ite (.pure rfl) (.ite ((moves_report _ span).bind fun _ => .pure rfl) ?_)
    split <;> exact .pure rfl
  · refine .ite ((moves_report _ span).bind fun _ => .pure rfl) ?_
    split <;> exact .pure rfl

theorem lowerUnary_moves (op : SignOp) (operand : Lowered) (span : Span) :
    Moves f id (lowerUnary op operand span) (lowerUnary op operand (f span)) := by
  unfold lowerUnary
  dsimp only
  refine .ite (.pure rfl) ?_
  split
  · exact .ite (moves_fail _ span) (.pure rfl)
  · split
    · exact moves_fail _ span
    · exact .pure rfl
  · split
    · exact moves_fail _ span
    · exact .pure rfl

theorem lowerBinary_moves (op : BinaryOp) (left right : Lowered) (span : Span) :
    Moves f id (lowerBinary op left right span) (lowerBinary op left right (f span)) := by
  unfold lowerBinary
  dsimp only
  refine .ite (.pure rfl) (.ite (.ite (moves_fail _ span) (.pure rfl)) ?_)
  split
  · exact .pure rfl
  · exact .ite (.ite (.pure rfl) (moves_fail _ span)) (moves_fail _ span)

theorem joinBranches_moves (thenBranch elseBranch : Lowered) (span : Span) :
    Moves f id (joinBranches thenBranch elseBranch span)
      (joinBranches thenBranch elseBranch (f span)) := by
  unfold joinBranches
  dsimp only
  refine .ite (.pure rfl) (.ite (.pure rfl) ?_)
  split
  · exact .pure rfl
  · exact .ite (.pure rfl) (.ite (.pure rfl)
      (.ite ((moves_report _ span).bind fun _ => .pure rfl) (.pure rfl)))

theorem lowerCast_moves (target : TypeRef) (operand : Lowered) (span operandSpan : Span) :
    Moves f id (lowerCast target operand span operandSpan)
      (lowerCast target operand (f span) (f operandSpan)) := by
  unfold lowerCast
  dsimp only
  split
  · exact moves_fail _ operandSpan
  · exact .ite (moves_fail _ span) (.pure rfl)
  · exact .ite (.pure rfl) (moves_fail _ span)
  · exact moves_fail _ span
  · exact .pure rfl

theorem asCondition_moves (lowered : Lowered) (span : Span) :
    Moves f id (asCondition lowered span) (asCondition lowered (f span)) := by
  unfold asCondition
  exact .ite ((moves_report _ span).bind fun _ => .pure rfl) (.pure rfl)

/-! ### Places -/

theorem fieldPlace?_moves (kind : BodyKind) (name : String) (span : Span) :
    Moves f id (fieldPlace? cx kind name span)
      (fieldPlace? (cx.relocate f) kind name (f span)) := by
  unfold fieldPlace?
  rw [ClassContext.relocate_field?]
  split
  · exact (moves_report _ span).bind fun _ => .pure rfl
  · exact .ite (.pure rfl) (.ite ((moves_report _ span).bind fun _ => .pure rfl) (.pure rfl))

theorem namePlace?_moves (kind : BodyKind) (name : String) (span : Span) :
    Moves f id (namePlace? cx kind name span) (namePlace? (cx.relocate f) kind name (f span)) := by
  refine (moves_lookupVariable? name).bind fun found => ?_
  cases found with
  | some v => exact .pure rfl
  | none => exact fieldPlace?_moves cx kind name span

theorem accessPlace?_moves (kind : BodyKind) (target : Source.Expr) (name : String) (span : Span) :
    Moves f id (accessPlace? cx kind target name span)
      (accessPlace? (cx.relocate f) kind (target.relocate f) name (f span)) := by
  cases target with
  | this targetSpan =>
    exact .ite ((moves_report _ targetSpan).bind fun _ => .pure rfl)
      (fieldPlace?_moves cx kind name span)
  | _ => exact (moves_report _ span).bind fun _ => .pure rfl

theorem guardFinal_moves (kind : BodyKind) (name : String) (place : Place) (span : Span) :
    Moves f id (guardFinal cx kind name place span)
      (guardFinal (cx.relocate f) kind name place (f span)) := by
  unfold guardFinal
  rw [ClassContext.relocate_field?]
  split
  · exact .ite (moves_report _ span) (.pure rfl)
  · exact .pure rfl

theorem targetPlace?_moves (kind : BodyKind) (target : Source.Expr) :
    Moves f id (targetPlace? cx kind target)
      (targetPlace? (cx.relocate f) kind (target.relocate f)) := by
  cases target with
  | name name span =>
    refine (namePlace?_moves cx kind name span).bind fun found => ?_
    cases found with
    | none => exact .pure rfl
    | some place => exact (guardFinal_moves cx kind name place span).bind fun _ => .pure rfl
  | access inner name span =>
    refine (accessPlace?_moves cx kind inner name span).bind fun found => ?_
    cases found with
    | none => exact .pure rfl
    | some place => exact (guardFinal_moves cx kind name place span).bind fun _ => .pure rfl
  | _ => exact (moves_report _ _).bind fun _ => .pure rfl

theorem lowerThis_moves (kind : BodyKind) (cause : Cause) (span : Span) :
    Moves f id (lowerThis cx kind cause span) (lowerThis (cx.relocate f) kind cause (f span)) :=
  .ite (moves_fail cause span) (.pure rfl)

theorem lowerStore_moves (op : Option BinaryOp) (place : Place) (value : Lowered)
    (span valueSpan : Span) :
    Moves f id (lowerStore cx op place value span valueSpan)
      (lowerStore (cx.relocate f) op place value (f span) (f valueSpan)) := by
  unfold lowerStore
  cases op with
  | none => exact (coerce_moves cx _ _ _ valueSpan).bind fun _ => .pure rfl
  | some op =>
    refine (lowerBinary_moves op _ value span).bind fun combined => ?_
    dsimp only [id]
    split
    · exact .pure rfl
    · exact (coerce_moves cx _ _ _ span).bind fun _ => .pure rfl

/-! ### Calls -/

section Calls

variable (args : List Argument)

theorem types_relocate : (args.map (Argument.relocate f)).map (·.type) = args.map (·.type) := by
  rw [List.map_map]
  rfl

theorem accepts_relocate (params : List TypeRef) :
    accepts (cx.relocate f) params (args.map (Argument.relocate f)) = accepts cx params args := by
  unfold accepts
  rw [List.length_map, List.zip_map_right, List.all_map]
  simp only [Function.comp_def, Prod.map, ClassContext.relocate_isAssignable]
  rfl

theorem select?_relocate (candidates : List OwnedMethod) (name : String) :
    select? (cx.relocate f) candidates name (args.map (Argument.relocate f))
      = select? cx candidates name args := by
  unfold select?
  simp only [accepts_relocate]

theorem callee?_relocate (receiver : StaticType) (name : String) :
    callee? (cx.relocate f) receiver name (args.map (Argument.relocate f))
      = callee? cx receiver name args := by
  unfold callee?
  simp only [select?_relocate, ClassContext.relocate_methodsOf, List.length_map, ← List.map_take,
    accepts_relocate]

theorem coerceArgs_moves (params : List TypeRef) :
    Moves f id (coerceArgs cx params args)
      (coerceArgs (cx.relocate f) params (args.map (Argument.relocate f))) := by
  induction args generalizing params with
  | nil => cases params <;> exact .pure rfl
  | cons a args ih =>
    cases params with
    | nil =>
      have rest : Moves f id (do return a.code :: (← coerceArgs cx [] args))
          (do return a.code :: (← coerceArgs (cx.relocate f) []
            (args.map (Argument.relocate f)))) := (ih []).bind fun _ => .pure rfl
      exact .ite ((moves_report _ a.span).bind fun _ => rest) rest
    | cons p params =>
      exact (coerce_moves cx a.code a.type p a.span).bind fun _ =>
        (ih params).bind fun _ => .pure rfl

theorem lowerCall_moves (receiver : Lowered) (name : String) (span : Span) :
    Moves f id (lowerCall cx receiver name args span)
      (lowerCall (cx.relocate f) receiver name (args.map (Argument.relocate f)) (f span)) := by
  unfold lowerCall
  split
  · exact .pure rfl
  · rw [callee?_relocate, types_relocate]
    split
    · exact moves_fail _ span
    · exact (coerceArgs_moves cx args _).bind fun _ => .pure rfl
  · exact moves_fail _ span

theorem lowerSuperCall_moves (name : String) (span : Span) :
    Moves f id (lowerSuperCall cx name args span)
      (lowerSuperCall (cx.relocate f) name (args.map (Argument.relocate f)) (f span)) := by
  unfold lowerSuperCall
  rw [ClassContext.relocate_inheritedMethods, select?_relocate, types_relocate, List.length_map]
  split
  · exact .ite (moves_fail _ span) ((coerceArgs_moves cx args _).bind fun _ => .pure rfl)
  · split
    · exact moves_fail _ span
    · exact (coerceArgs_moves cx args _).bind fun _ => .pure rfl

end Calls

/-! ### Expressions -/

mutual

theorem lowerExpr_moves (cx : ClassContext) (kind : BodyKind) : (e : Source.Expr) →
    Moves f id (lowerExpr cx kind e) (lowerExpr (cx.relocate f) kind (e.relocate f))
  | .literal v _ => by
    rw [Source.Expr.relocate, lowerExpr, lowerExpr]
    exact .pure rfl
  | .name name span => by
    rw [Source.Expr.relocate, lowerExpr, lowerExpr]
    exact (namePlace?_moves cx kind name span).bind fun _ => .pure rfl
  | .this span => by
    rw [Source.Expr.relocate, lowerExpr, lowerExpr]
    exact lowerThis_moves cx kind _ span
  | .access target name span => by
    rw [Source.Expr.relocate, lowerExpr, lowerExpr]
    exact (accessPlace?_moves cx kind target name span).bind fun _ => .pure rfl
  | .call target name args span => by
    rw [Source.Expr.relocate, lowerExpr, lowerExpr]
    refine (lowerExpr_moves cx kind target).bind fun receiver => ?_
    exact (lowerArgs_moves cx kind args).bind fun args => lowerCall_moves cx args receiver name span
  | .ownCall name args span => by
    rw [Source.Expr.relocate, lowerExpr, lowerExpr]
    refine (lowerThis_moves cx kind _ span).bind fun receiver => .ite (.pure rfl) ?_
    exact (lowerArgs_moves cx kind args).bind fun args => lowerCall_moves cx args receiver name span
  | .superCall name args span => by
    rw [Source.Expr.relocate, lowerExpr, lowerExpr]
    refine .ite (moves_fail _ span) ?_
    exact (lowerArgs_moves cx kind args).bind fun args => lowerSuperCall_moves cx args name span
  | .unary op e span => by
    rw [Source.Expr.relocate, lowerExpr, lowerExpr]
    exact (lowerExpr_moves cx kind e).bind fun operand => lowerUnary_moves op operand span
  | .binary op l r span => by
    rw [Source.Expr.relocate, lowerExpr, lowerExpr]
    refine (lowerExpr_moves cx kind l).bind fun left => ?_
    exact (lowerExpr_moves cx kind r).bind fun right => lowerBinary_moves op left right span
  | .logical op l r _ => by
    rw [Source.Expr.relocate, lowerExpr, lowerExpr, Source.Expr.relocate_span,
      Source.Expr.relocate_span]
    refine (lowerExpr_moves cx kind l).bind fun left => ?_
    refine (asCondition_moves left l.span).bind fun leftCode => ?_
    refine (lowerExpr_moves cx kind r).bind fun right => ?_
    refine (asCondition_moves right r.span).bind fun rightCode => ?_
    cases op <;> exact .pure rfl
  | .assign op target value span => by
    rw [Source.Expr.relocate, lowerExpr, lowerExpr, Source.Expr.relocate_span]
    refine (targetPlace?_moves cx kind target).bind fun found => ?_
    refine (lowerExpr_moves cx kind value).bind fun lowered => ?_
    cases found with
    | none => exact .pure rfl
    | some place => exact lowerStore_moves cx op place lowered span value.span
  | .conditional c t e _ => by
    rw [Source.Expr.relocate, lowerExpr, lowerExpr, Source.Expr.relocate_span,
      Source.Expr.relocate_span]
    refine (lowerExpr_moves cx kind c).bind fun condition => ?_
    refine (asCondition_moves condition c.span).bind fun code => ?_
    refine (lowerExpr_moves cx kind t).bind fun thenBranch => ?_
    refine (lowerExpr_moves cx kind e).bind fun elseBranch => ?_
    exact (joinBranches_moves thenBranch elseBranch t.span).bind fun _ => .pure rfl
  | .cast type e span => by
    rw [Source.Expr.relocate, lowerExpr, lowerExpr, Source.Expr.relocate_span,
      ClassContext.relocate_scope, TypeScope.resolve_relocate]
    cases cx.scope.resolve type with
    | error d =>
      refine (moves_report d.cause d.span).bind fun _ => ?_
      exact (lowerExpr_moves cx kind e).bind fun _ => .pure rfl
    | ok target =>
      exact (lowerExpr_moves cx kind e).bind fun operand =>
        lowerCast_moves target operand span e.span

theorem lowerArgs_moves (cx : ClassContext) (kind : BodyKind) : (es : List Source.Expr) →
    Moves f (List.map (Argument.relocate f)) (lowerArgs cx kind es)
      (lowerArgs (cx.relocate f) kind (Source.Expr.relocateAll f es))
  | [] => by
    rw [Source.Expr.relocateAll, lowerArgs, lowerArgs]
    exact .pure rfl
  | e :: es => by
    rw [Source.Expr.relocateAll, lowerArgs, lowerArgs, Source.Expr.relocate_span]
    refine (lowerExpr_moves cx kind e).bind fun lowered => ?_
    exact (lowerArgs_moves cx kind es).bind fun _ => .pure rfl

end

/-! ### Statements -/

theorem lowerAs_moves (kind : BodyKind) (e : Source.Expr) (target : TypeRef) :
    Moves f id (lowerAs cx kind e target) (lowerAs (cx.relocate f) kind (e.relocate f) target) := by
  unfold lowerAs
  rw [Source.Expr.relocate_span]
  exact (lowerExpr_moves cx kind e).bind fun lowered => coerce_moves cx _ _ target e.span

theorem lowerCondition_moves (kind : BodyKind) (e : Source.Expr) :
    Moves f id (lowerCondition cx kind e)
      (lowerCondition (cx.relocate f) kind (e.relocate f)) := by
  unfold lowerCondition
  rw [Source.Expr.relocate_span]
  exact (lowerExpr_moves cx kind e).bind fun lowered => asCondition_moves lowered e.span

theorem lowerReturn_moves (kind : BodyKind) (value : Option Source.Expr) (span : Span) :
    Moves f id (lowerReturn cx kind value span)
      (lowerReturn (cx.relocate f) kind (value.map (Source.Expr.relocate f)) (f span)) := by
  have refused : ∀ cause {s s'}, s' = f s → Moves f id
      (do
        report cause s
        return none : Lower (Option Code.Expr))
      (do
        report cause s'
        return none) := by
    rintro cause s _ rfl
    exact (moves_report cause s).bind fun _ => .pure rfl
  unfold lowerReturn
  cases value with
  | none =>
    cases kind with
    | method type => cases type <;> first | exact .pure rfl | exact refused _ rfl
    | _ => exact .pure rfl
  | some e =>
    have there : (e.relocate f).span = f e.span := Source.Expr.relocate_span e
    cases kind with
    | method type =>
      cases type <;> first
        | exact refused _ there
        | exact (lowerAs_moves cx _ e _).bind fun _ => .pure rfl
    | _ => exact refused _ there

mutual

theorem lowerStmt_moves (cx : ClassContext) (kind : BodyKind) : (s : Source.Stmt) →
    Moves f id (lowerStmt cx kind s) (lowerStmt (cx.relocate f) kind (s.relocate f))
  | .block body _ => by
    rw [Source.Stmt.relocate, lowerStmt, lowerStmt]
    exact (lowerStmts_moves cx kind body).inScope.bind fun _ => .pure rfl
  | .empty _ => by
    rw [Source.Stmt.relocate, lowerStmt, lowerStmt]
    exact .pure rfl
  | .expr e => by
    rw [Source.Stmt.relocate, lowerStmt, lowerStmt]
    exact (lowerExpr_moves cx kind e).bind fun _ => .pure rfl
  | .declare type name init span => by
    rw [Source.Stmt.relocate, lowerStmt, lowerStmt]
    refine (moves_resolve cx type).bind fun type => ?_
    have declared : ∀ value : Code.Expr, Moves f id
        (do
          let slot ← declare name type span
          return [Code.Stmt.expr (.storeVar slot value)])
        (do
          let slot ← declare name type (f span)
          return [Code.Stmt.expr (.storeVar slot value)]) := fun value =>
      (moves_declare name type span).bind fun _ => .pure rfl
    cases init with
    | none => exact Moves.bind (v := id) (.pure rfl) declared
    | some e => exact (lowerAs_moves cx kind e type).bind declared
  | .ret value span => by
    rw [Source.Stmt.relocate, lowerStmt, lowerStmt]
    exact (lowerReturn_moves cx kind value span).bind fun _ => .pure rfl
  | .ifThen c t _ => by
    rw [Source.Stmt.relocate, lowerStmt, lowerStmt]
    refine (lowerCondition_moves cx kind c).bind fun _ => ?_
    exact (lowerStmt_moves cx kind t).inScope.bind fun _ => .pure rfl
  | .ifElse c t e _ => by
    rw [Source.Stmt.relocate, lowerStmt, lowerStmt]
    refine (lowerCondition_moves cx kind c).bind fun _ => ?_
    refine (lowerStmt_moves cx kind t).inScope.bind fun _ => ?_
    exact (lowerStmt_moves cx kind e).inScope.bind fun _ => .pure rfl
  | .loop c b _ => by
    rw [Source.Stmt.relocate, lowerStmt, lowerStmt]
    refine (lowerCondition_moves cx kind c).bind fun _ => ?_
    exact (lowerStmt_moves cx kind b).inScope.bind fun _ => .pure rfl
  | .throw e span => by
    rw [Source.Stmt.relocate, lowerStmt, lowerStmt]
    refine (lowerExpr_moves cx kind e).bind fun lowered => ?_
    exact .ite ((moves_report _ span).bind fun _ => .pure rfl) (.pure rfl)

theorem lowerStmts_moves (cx : ClassContext) (kind : BodyKind) : (ss : List Source.Stmt) →
    Moves f id (lowerStmts cx kind ss)
      (lowerStmts (cx.relocate f) kind (Source.Stmt.relocateAll f ss))
  | [] => by
    rw [Source.Stmt.relocateAll, lowerStmts, lowerStmts]
    exact .pure rfl
  | s :: ss => by
    rw [Source.Stmt.relocateAll, lowerStmts, lowerStmts]
    refine (lowerStmt_moves cx kind s).bind fun _ => ?_
    exact (lowerStmts_moves cx kind ss).bind fun _ => .pure rfl

end

theorem declareParams_moves (params : List Param) (types : List TypeRef) :
    Moves f id (declareParams params types)
      (declareParams (params.map (Param.relocate f)) types) := by
  induction params generalizing types with
  | nil => exact .pure rfl
  | cons p params ih =>
    cases types with
    | nil => exact .pure rfl
    | cons t types => exact (moves_declare p.name t p.span).bind fun _ => ih types

mutual

theorem completes_relocate : (s : Source.Stmt) → completes (s.relocate f) = completes s
  | .ret .. | .throw .. | .empty _ | .expr _ | .declare .. | .ifThen .. => rfl
  | .block body _ => by
    rw [Source.Stmt.relocate, completes, completes, allComplete_relocate body]
  | .ifElse _ t e _ => by
    rw [Source.Stmt.relocate, completes, completes, completes_relocate t, completes_relocate e]
  | .loop c _ _ => by
    cases c with
    | literal v _ => cases v with
      | bool b => cases b <;> rfl
      | _ => rfl
    | _ => rfl

theorem allComplete_relocate : (ss : List Source.Stmt) →
    allComplete (Source.Stmt.relocateAll f ss) = allComplete ss
  | [] => rfl
  | s :: ss => by
    rw [Source.Stmt.relocateAll, allComplete, allComplete, completes_relocate s,
      allComplete_relocate ss]

end

/-! ### Members -/

theorem reportIf_relocate (wrong : Bool) (cause : Cause) (span : Span) :
    reportIf wrong cause (f span) = (reportIf wrong cause span).map (Diagnostic.relocate f) := by
  cases wrong <;> rfl

theorem lowerBody_found {α : Type} {body body' : Lower α} (h : Moves f id body body') :
    lowerBody body' = ((lowerBody body).1, (lowerBody body).2.relocate f) := h {}

theorem compileMember_relocate (m : DeclaredMember) :
    compileMember (cx.relocate f) (m.relocate f)
      = ((compileMember cx m).1, (compileMember cx m).2.map (Diagnostic.relocate f)) := by
  have bodies : ∀ (params : List Param) (types : List TypeRef) (kind : BodyKind)
      (body : Source.Block), Moves f id
        (do
          declareParams params types
          Lower.inScope (lowerStmts cx kind body.statements))
        (do
          declareParams (params.map (Param.relocate f)) types
          Lower.inScope (lowerStmts (cx.relocate f) kind (body.relocate f).statements)) :=
    fun params types kind body => (declareParams_moves params types).bind fun _ =>
      (lowerStmts_moves cx kind body.statements).inScope
  cases m with
  | field decl info =>
    unfold compileMember DeclaredMember.relocate compileField
    cases initial : decl.init with
    | none => simp [Source.FieldDecl.relocate, initial]
    | some e =>
      simp only [Source.FieldDecl.relocate, initial, Option.map_some]
      rw [lowerBody_found (lowerAs_moves cx _ e info.type)]
      rfl
  | method decl info =>
    unfold compileMember DeclaredMember.relocate compileMethod
    simp only [Source.MethodDecl.relocate]
    rw [lowerBody_found (bodies decl.params _ _ decl.body)]
    simp only [Source.Block.relocate, allComplete_relocate, reportIf_relocate, List.map_append]
    rfl
  | constructor decl params =>
    unfold compileMember DeclaredMember.relocate compileConstructor
    simp only [Source.ConstructorDecl.relocate]
    rw [lowerBody_found (bodies decl.params _ _ decl.body)]
    simp only [reportIf_relocate, List.map_append]
    rfl

/-! ### Declarations -/

section Declarations

variable (scope : TypeScope)

theorem resolveOr_relocate (t : Source.TypeName) :
    scope.resolveOr (t.relocate f)
      = ((scope.resolveOr t).1, (scope.resolveOr t).2.map (Diagnostic.relocate f)) := by
  unfold TypeScope.resolveOr
  rw [TypeScope.resolve_relocate]
  cases scope.resolve t <;> rfl

theorem resolveAll_relocate (ts : List Source.TypeName) :
    scope.resolveAll (ts.map (Source.TypeName.relocate f))
      = ((scope.resolveAll ts).1, (scope.resolveAll ts).2.map (Diagnostic.relocate f)) := by
  unfold TypeScope.resolveAll
  simp only [List.map_map, List.map_flatMap, List.flatMap_map, Function.comp_def,
    resolveOr_relocate]

theorem superclassOf_relocate (className : String) (written : Source.TypeName) :
    superclassOf scope className (written.relocate f)
      = ((superclassOf scope className written).1,
        (superclassOf scope className written).2.map (Diagnostic.relocate f)) := by
  unfold superclassOf
  rw [TypeScope.resolve_relocate]
  cases scope.resolve written with
  | error d => rfl
  | ok type =>
    dsimp only [Except.mapError]
    cases type with
    | named name =>
      dsimp only
      repeat' split
      all_goals rfl
    | _ => rfl

theorem interfacesOf_relocate (seen : List String) (written : List Source.TypeName) :
    interfacesOf scope seen (written.map (Source.TypeName.relocate f))
      = ((interfacesOf scope seen written).1,
        (interfacesOf scope seen written).2.map (Diagnostic.relocate f)) := by
  induction written generalizing seen with
  | nil => rfl
  | cons first rest ih =>
    rw [List.map_cons, interfacesOf, interfacesOf, TypeScope.resolve_relocate]
    cases scope.resolve first with
    | error d =>
      dsimp only [Except.mapError]
      rw [ih]
      rfl
    | ok type =>
      dsimp only [Except.mapError]
      cases type with
      | named name =>
        dsimp only
        rw [ih, ih]
        repeat' split
        all_goals rfl
      | _ =>
        dsimp only
        rw [ih]
        rfl

theorem declareMember_relocate (className : String) (before : List DeclaredMember)
    (m : Source.Member) :
    declareMember scope className (before.map (DeclaredMember.relocate f)) (m.relocate f)
      = ((declareMember scope className before m).1.relocate f,
        (declareMember scope className before m).2.map (Diagnostic.relocate f)) := by
  have types : ∀ params : List Param, (params.map (Param.relocate f)).map (·.type)
      = (params.map (·.type)).map (Source.TypeName.relocate f) := fun params => by
    rw [List.map_map, List.map_map]
    rfl
  cases m with
  | field decl =>
    simp only [declareMember, Source.Member.relocate, Source.FieldDecl.relocate,
      filterMap_relocate DeclaredMember.relocate_field?, resolveOr_relocate, reportIf_relocate,
      List.map_append, DeclaredMember.relocate]
  | method decl =>
    simp only [declareMember, Source.Member.relocate, Source.MethodDecl.relocate,
      filterMap_relocate DeclaredMember.relocate_method?, types, resolveAll_relocate,
      reportIf_relocate, List.map_append, DeclaredMember.relocate]
    cases decl.returnType with
    | none => rfl
    | some written => simp only [Option.map_some, resolveOr_relocate]
  | constructor decl =>
    simp only [declareMember, Source.Member.relocate, Source.ConstructorDecl.relocate,
      filterMap_relocate DeclaredMember.relocate_constructor?, types, resolveAll_relocate,
      reportIf_relocate, List.map_append, DeclaredMember.relocate]

theorem declareMembers_relocate (className : String) (members : List Source.Member) :
    declareMembers scope className (members.map (Source.Member.relocate f))
      = ((declareMembers scope className members).1.map (DeclaredMember.relocate f),
        (declareMembers scope className members).2.map (Diagnostic.relocate f)) := by
  induction members using List.reverseRecOn with
  | nil => rfl
  | append_singleton members m ih =>
    unfold declareMembers at ih ⊢
    rw [List.map_append, List.foldl_append, List.foldl_append, ih]
    simp only [List.map_cons, List.map_nil, List.foldl_cons, List.foldl_nil,
      declareMember_relocate, List.map_append]

theorem declare_relocate (decl : Source.ClassDecl) :
    ClassContext.declare scope (decl.relocate f)
      = ((ClassContext.declare scope decl).1.relocate f,
        (ClassContext.declare scope decl).2.map (Diagnostic.relocate f)) := by
  unfold ClassContext.declare
  simp only [Source.ClassDecl.relocate, interfacesOf_relocate, declareMembers_relocate]
  cases decl.superclass with
  | none => simp [ClassContext.relocate]
  | some written => simp [ClassContext.relocate, superclassOf_relocate]

theorem addImport_relocate (i : Source.Import) :
    scope.addImport (i.relocate f) = (scope.addImport i).mapError (Diagnostic.relocate f) := by
  obtain ⟨path, span⟩ := i
  change scope.addImport ⟨path, f span⟩ = _
  unfold TypeScope.addImport
  dsimp only
  by_cases unknown : (!scope.table.resolves path) = true
  · rw [if_pos unknown, if_pos unknown]
    rfl
  · rw [if_neg unknown, if_neg unknown]
    cases scope.imported? (simpleName path) with
    | none => rfl
    | some existing =>
      by_cases same : existing = path
      · simp only [if_pos same]
        rfl
      · simp only [if_neg same]
        rfl

theorem ofImports_relocate (table : TypeTable) (ownName : String)
    (imports : List Source.Import) :
    TypeScope.ofImports table ownName (imports.map (Source.Import.relocate f))
      = ((TypeScope.ofImports table ownName imports).1,
        (TypeScope.ofImports table ownName imports).2.map (Diagnostic.relocate f)) := by
  induction imports using List.reverseRecOn with
  | nil => rfl
  | append_singleton imports i ih =>
    unfold TypeScope.ofImports at ih ⊢
    rw [List.map_append, List.foldl_append, List.foldl_append, ih]
    simp only [List.map_cons, List.map_nil, List.foldl_cons, List.foldl_nil, addImport_relocate]
    cases TypeScope.addImport _ i with
    | ok scope => rfl
    | error d => simp [Except.mapError]

end Declarations

theorem checkOverride_relocate (span : Span) (own parent : OwnedMethod) :
    (cx.relocate f).checkOverride (f span) own parent
      = (cx.checkOverride span own parent).map (Diagnostic.relocate f) := by
  have fits : ∀ a b, (cx.relocate f).returnFits a b = cx.returnFits a b := fun _ _ => rfl
  unfold ClassContext.checkOverride
  split
  · rfl
  · rw [fits, reportIf_relocate, reportIf_relocate, List.map_append]
    rfl

theorem missing_relocate (inherited : List OwnedMethod) (reported : List String)
    (ms : List OwnedMethod) :
    (cx.relocate f).missing inherited reported ms = cx.missing inherited reported ms := by
  have implemented : ∀ m, (cx.relocate f).implements inherited m = cx.implements inherited m :=
    fun m => by rw [ClassContext.implements, ClassContext.relocate_methods, ClassContext.implements]
  induction ms generalizing reported with
  | nil => rfl
  | cons m ms ih => rw [ClassContext.missing, ClassContext.missing, implemented, ih, ih]

theorem checkInheritance_relocate (span : Span) :
    (cx.relocate f).checkInheritance (f span)
      = (cx.checkInheritance span).map (Diagnostic.relocate f) := by
  unfold ClassContext.checkInheritance
  simp only [ClassContext.relocate_inheritedMethods, missing_relocate, List.map_append,
    List.map_map, List.map_flatMap]
  refine congr (congrArg _ ?_) rfl
  rw [ClassContext.relocate, List.flatMap_map]
  refine congrArg (List.flatMap · cx.members) (funext fun m => ?_)
  cases m with
  | method decl own =>
    simp only [DeclaredMember.relocate, Source.MethodDecl.relocate, List.map_flatMap]
    exact congrArg (List.flatMap · _) (funext fun parent =>
      checkOverride_relocate cx decl.span own parent)
  | _ => rfl

/-! ### Units -/

/-- The class of a unit, its members compiled, and everything that is wrong with the unit, as it
is found. -/
def examine (table : TypeTable) (unit : Source.CompilationUnit) :
    Code.Class × List Diagnostic :=
  let scope := TypeScope.ofImports table unit.decl.name unit.imports
  let cx := ClassContext.declare scope.1 unit.decl
  let compiled := cx.1.members.map (compileMember cx.1)
  (assemble cx.1 unit.decl.modifiers.effective (compiled.map (·.1)),
    scope.2 ++ cx.2 ++ cx.1.checkInheritance unit.decl.span ++ compiled.flatMap (·.2))

theorem compileUnit_eq (table : TypeTable) (unit : Source.CompilationUnit) :
    compileUnit table unit =
      if (examine table unit).2 = [] then .ok (examine table unit).1
      else .error ((examine table unit).2.mergeSort Diagnostic.notAfter) := by
  unfold compileUnit examine
  dsimp only
  split
  · rename_i clean
    rw [if_pos clean]
  · rename_i faulty
    rw [if_neg faulty]

/-- A unit on other stretches of source is the same class, with the same faults. -/
theorem examine_relocate (table : TypeTable) (unit : Source.CompilationUnit) :
    examine table (unit.relocate f)
      = ((examine table unit).1, (examine table unit).2.map (Diagnostic.relocate f)) := by
  unfold examine
  dsimp only [Source.CompilationUnit.relocate]
  have name : (unit.decl.relocate f).name = unit.decl.name := rfl
  have span : (unit.decl.relocate f).span = f unit.decl.span := rfl
  rw [name, span, ofImports_relocate, declare_relocate, checkInheritance_relocate]
  have members : ∀ cx : ClassContext, (cx.relocate f).members.map (compileMember (cx.relocate f))
      = (cx.members.map (compileMember cx)).map
        fun r => (r.1, r.2.map (Diagnostic.relocate f)) := by
    intro cx
    rw [ClassContext.relocate, List.map_map, List.map_map]
    exact congrArg (List.map · cx.members) (funext fun m => compileMember_relocate cx m)
  simp only [members, List.map_map, List.flatMap_map, List.map_append, List.map_flatMap]
  rfl

end Classwright.Check
