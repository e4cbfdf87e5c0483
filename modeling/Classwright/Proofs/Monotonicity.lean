import Classwright.Proofs.Accesses
import Classwright.Proofs.Implementing
import Classwright.Proofs.Redeclaring

/-!
# Compiling against more types

What compiles against a table of types compiles to the same class against a table that declares
more. The static types of a source without errors are made of names that are known to the table;
so the checker asks the table about known names only, chooses the same methods, and lowers the
source to the same code.
-/

namespace Classwright.Check

/-! ### Static types are known -/

/-- The variables in scope have types of such names. -/
def BodyState.Over (known : String → Prop) (st : BodyState) : Prop :=
  ∀ x ∈ st.scopes.flatten, x.2.type.Over known

theorem BuiltinMethod.over_returnType {known : String → Prop}
    (builtin : ∀ name ∈ Builtin.all, known name) {receiver : StaticType} {name : String}
    {arity : Nat} {b : BuiltinMethod} (found : find? receiver name arity = some b) :
    b.returnType.Over known := by
  have string : known Builtin.string := builtin _ (by decide)
  have object : known Builtin.object := builtin _ (by decide)
  have any (found : ofAny? name arity = some b) : b.returnType.Over known := by
    unfold ofAny? at found
    split at found <;> cases found <;> first | exact string | trivial
  unfold find? at found
  rcases Option.or_eq_some_iff.1 found with found | ⟨_, found⟩
  · obtain ⟨typeName, _, found⟩ := Option.bind_eq_some_iff.1 found
    unfold ofType? at found
    repeat' split at found
    all_goals cases found <;> first | exact string | exact object | trivial
  · exact any found

namespace Lower

variable {known : String → Prop}

theorem lowerLiteral_over (string : known Builtin.string) (v : Source.Literal) :
    (lowerLiteral v).2.Over known := by
  cases v with
  | string s => exact string
  | _ => trivial

theorem lowerUnary_over (op : SignOp) (operand : Lowered) (span : Span) :
    Yields (lowerUnary op operand span) fun _ lowered => lowered.2.Over known := by
  unfold lowerUnary
  dsimp only
  split
  · exact .pure fun _ => trivial
  · cases op with
    | not =>
      simp only
      split
      · exact .fail
      · exact .pure fun _ => trivial
    | _ =>
      simp only
      split
      · exact .fail
      · exact .pure fun _ => trivial

theorem lowerBinary_over (string : known Builtin.string) (op : BinaryOp) (left right : Lowered)
    (span : Span) :
    Yields (lowerBinary op left right span) fun _ lowered => lowered.2.Over known := by
  unfold lowerBinary
  dsimp only
  split
  · exact .pure fun _ => trivial
  · split
    · split
      · exact .fail
      · exact .pure fun _ => string
    · split
      · refine .pure fun _ => ?_
        dsimp only
        split <;> trivial
      · split
        · split
          · exact .pure fun _ => trivial
          · exact .fail
        · exact .fail

theorem joinBranches_over (object : known Builtin.object) (thenBranch elseBranch : Lowered)
    (span : Span) :
    Yields (joinBranches thenBranch elseBranch span) fun _ joined =>
      thenBranch.2.Over known → elseBranch.2.Over known → joined.2.2.Over known := by
  unfold joinBranches
  dsimp only
  split
  · exact .pure fun _ ht _ => ht
  · split
    · exact .pure fun _ _ _ => trivial
    · split
      · exact .pure fun _ _ _ => trivial
      · split
        · exact .pure fun _ _ he => he
        · split
          · exact .pure fun _ ht _ => ht
          · split
            · exact .reportThen fun _ => .pure fun _ => trivial
            · exact .pure fun _ _ _ => object

theorem lowerCast_over {target : TypeRef} (held : target.Over known) (operand : Lowered)
    (span operandSpan : Span) :
    Yields (lowerCast target operand span operandSpan) fun _ lowered => lowered.2.Over known := by
  have cast : ∀ mode, Yields (pure (.cast target mode operand.1, .of target))
      fun _ (lowered : Lowered) => lowered.2.Over known := fun mode =>
    .pure fun _ => StaticType.over_of held
  unfold lowerCast
  dsimp only
  split
  · exact .fail
  · split
    · exact .fail
    · exact cast .convert
  · split
    · exact cast .convert
    · exact .fail
  · exact .fail
  · exact cast .check

theorem fieldPlace?_over {cx : ClassContext} (fields : ∀ f ∈ cx.fields, f.type.Over known)
    (kind : BodyKind) (name : String) (span : Span) :
    Yields (fieldPlace? cx kind name span) fun _ found => ∀ p ∈ found, p.type.Over known := by
  unfold fieldPlace?
  split
  · exact .reportThen fun _ => .pure fun _ => trivial
  · rename_i info field
    have held := fields info (List.mem_of_find?_eq_some field)
    split
    · exact .pure fun _ _ is => Option.some.inj is ▸ held
    · split
      · exact .reportThen fun _ => .pure fun _ => trivial
      · exact .pure fun _ _ is => Option.some.inj is ▸ held

theorem namePlace?_over {cx : ClassContext} (fields : ∀ f ∈ cx.fields, f.type.Over known)
    (kind : BodyKind) (name : String) (span : Span) :
    Yields (namePlace? cx kind name span) fun st found =>
      st.Over known → ∀ p ∈ found, p.type.Over known := by
  unfold namePlace?
  refine .bind (.lookupVariable? name) fun v => ?_
  cases v with
  | none => exact (fieldPlace?_over fields kind name span).mono fun _ _ held _ _ => held
  | some v =>
    refine .pure fun st found hst p is => ?_
    obtain ⟨x, inScope, rfl⟩ := Option.map_eq_some_iff.1 found.symm
    exact Option.some.inj is ▸ hst x (List.mem_of_find?_eq_some inScope)

theorem accessPlace?_over {cx : ClassContext} (fields : ∀ f ∈ cx.fields, f.type.Over known)
    (kind : BodyKind) (target : Source.Expr) (name : String) (span : Span) :
    Yields (accessPlace? cx kind target name span) fun _ found =>
      ∀ p ∈ found, p.type.Over known := by
  unfold accessPlace?
  split
  · split
    · exact .reportThen fun _ => .pure fun _ => trivial
    · exact fieldPlace?_over fields kind name span
  · exact .reportThen fun _ => .pure fun _ => trivial

theorem targetPlace?_over {cx : ClassContext} (fields : ∀ f ∈ cx.fields, f.type.Over known)
    (kind : BodyKind) (target : Source.Expr) :
    Yields (targetPlace? cx kind target) fun st found =>
      st.Over known → ∀ p ∈ found, p.type.Over known := by
  have guarded : ∀ place name span, Yields
      (do
        guardFinal cx kind name place span
        pure (some place))
      (fun _ result => result = some place) := fun place name span =>
    .bind (World.guardFinal_yields cx kind name place span) fun _ => .pure fun _ _ => rfl
  unfold targetPlace?
  split
  · refine .bind (namePlace?_over fields kind _ _) fun found => ?_
    cases found with
    | none => exact .pure fun _ _ _ _ none_ => nomatch none_
    | some place => exact (guarded place _ _).mono fun _ _ same held hst => same ▸ held hst
  · refine .bind (accessPlace?_over fields kind _ _ _) fun found => ?_
    cases found with
    | none => exact .pure fun _ _ _ _ none_ => nomatch none_
    | some place => exact (guarded place _ _).mono fun _ _ same held _ => same ▸ held
  · exact .reportThen fun _ => .pure fun _ => trivial

theorem lowerPlace_over {found : Option Place} (held : ∀ p ∈ found, p.type.Over known) :
    (lowerPlace found).2.Over known := by
  cases found with
  | none => trivial
  | some place => exact StaticType.over_of (held place rfl)

theorem lowerThis_over {cx : ClassContext} (own : known cx.name) (kind : BodyKind) (cause : Cause)
    (span : Span) :
    Yields (lowerThis cx kind cause span) fun _ lowered => lowered.2.Over known := by
  unfold lowerThis
  split
  · exact .fail
  · exact .pure fun _ => own

end Lower

section Members

variable {cx : ClassContext} (grounded : cx.Grounded)

include grounded

theorem over_of_mem_lineage {name : String} {interfaces : List String} {m : OwnedMethod}
    (member : m ∈ ownedMethods (cx.table.lineage name interfaces)) :
    m.method.returnType.Over cx.scope.Knows := by
  obtain ⟨d, above, method, declared, rfl⟩ := mem_ownedMethods.1 member
  have found := TypeTable.lookup_of_mem_lineage above
  exact (grounded.closed.returnTypes d.name d found method declared).mono fun _ => .inr

theorem over_of_mem_methodsOf {name : String} {m : OwnedMethod} (member : m ∈ cx.methodsOf name) :
    m.method.returnType.Over cx.scope.Knows := by
  unfold ClassContext.methodsOf at member
  split at member
  · rcases List.mem_append.1 member with own | inherited
    · exact grounded.methods m own
    · exact over_of_mem_lineage grounded inherited
  · exact over_of_mem_lineage grounded member

theorem lowerCall_over (receiver : Lowered) (name : String) (args : List Argument) (span : Span) :
    Lower.Yields (lowerCall cx receiver name args span) fun _ lowered =>
      lowered.2.Over cx.scope.Knows := by
  obtain ⟨receiver, type⟩ := receiver
  unfold lowerCall
  dsimp only
  split
  · exact .pure fun _ => trivial
  · split
    · exact .fail
    · rename_i params result chosen
      refine .bind (Lower.coerceArgs_accesses cx params args) fun codes => .pure fun _ _ => ?_
      rcases World.callee?_eq_some chosen with
        ⟨target, m, _, _, selected, _, rfl⟩ | ⟨b, found, _, rfl⟩
      · exact StaticType.over_of
          (over_of_mem_methodsOf grounded (List.mem_of_find?_eq_some selected))
      · exact StaticType.over_of
          (BuiltinMethod.over_returnType (fun _ => TypeScope.knows_of_builtin) found)
  · exact .fail

theorem lowerSuperCall_over (name : String) (args : List Argument) (span : Span) :
    Lower.Yields (lowerSuperCall cx name args span) fun _ lowered =>
      lowered.2.Over cx.scope.Knows := by
  have called : ∀ (params : List TypeRef) (result : TypeRef), result.Over cx.scope.Knows →
      Lower.Yields (do
        let codes ← coerceArgs cx params args
        return (.invokeSuper name codes, .of result)) fun _ (lowered : Lowered) =>
          lowered.2.Over cx.scope.Knows := by
    intro params result held
    refine .bind (Lower.coerceArgs_accesses cx params args) fun codes => ?_
    exact .pure fun _ _ => StaticType.over_of held
  unfold lowerSuperCall
  split
  · rename_i m selected
    split
    · exact .fail
    · exact called _ _ (over_of_mem_lineage grounded (List.mem_of_find?_eq_some selected))
  · split
    · exact .fail
    · rename_i b found
      have any : BuiltinMethod.find? .null name args.length = some b := found
      exact called _ _ (BuiltinMethod.over_returnType (fun _ => TypeScope.knows_of_builtin) any)

end Members

/-! ### Calls and conversions against more types -/

section Selection

variable {cx : ClassContext} {t' : TypeTable} (grounded : cx.Grounded)
  (h : t'.Enriches cx.table)

include grounded h

theorem coerce_withTable (code : Code.Expr) {source : StaticType}
    (known : source.Over cx.scope.Knows) (target : TypeRef) (span : Span) :
    coerce (cx.withTable t') code source target span = coerce cx code source target span := by
  unfold coerce
  rw [isAssignable_withTable grounded h known]

theorem coerceArgs_withTable (params : List TypeRef) {args : List Argument}
    (known : ∀ a ∈ args, a.type.Over cx.scope.Knows) :
    coerceArgs (cx.withTable t') params args = coerceArgs cx params args := by
  induction args generalizing params with
  | nil => cases params <;> rfl
  | cons a args ih =>
    obtain ⟨first, rest⟩ := List.forall_mem_cons.1 known
    cases params with
    | nil => rw [coerceArgs, coerceArgs, ih _ rest]
    | cons p params =>
      rw [coerceArgs, coerceArgs, coerce_withTable grounded h a.code first, ih _ rest]

theorem accepts_withTable (params : List TypeRef) {args : List Argument}
    (known : ∀ a ∈ args, a.type.Over cx.scope.Knows) :
    accepts (cx.withTable t') params args = accepts cx params args := by
  unfold accepts
  refine congrArg _ ?_
  rw [Bool.eq_iff_iff, List.all_eq_true, List.all_eq_true]
  refine forall₂_congr fun pair member => ?_
  dsimp only
  rw [isAssignable_withTable grounded h (known pair.2 (List.of_mem_zip member).2)]

theorem select?_withTable (candidates : List OwnedMethod) (name : String) {args : List Argument}
    (known : ∀ a ∈ args, a.type.Over cx.scope.Knows) :
    select? (cx.withTable t') candidates name args = select? cx candidates name args := by
  unfold select?
  refine congrArg (List.find? · candidates) (funext fun m => ?_)
  rw [accepts_withTable grounded h m.method.params known]

theorem callee?_withTable {receiver : StaticType} (knownReceiver : receiver.Over cx.scope.Knows)
    (name : String) {args : List Argument} (known : ∀ a ∈ args, a.type.Over cx.scope.Knows) :
    callee? (cx.withTable t') receiver name args = callee? cx receiver name args := by
  have declared : (receiver.named?.bind fun typeName =>
        if Builtin.all.contains typeName then none
        else select? (cx.withTable t') ((cx.withTable t').methodsOf typeName) name args)
      = receiver.named?.bind fun typeName =>
        if Builtin.all.contains typeName then none
        else select? cx (cx.methodsOf typeName) name args := by
    cases named : receiver.named? with
    | none => rfl
    | some typeName =>
      have isName : cx.scope.Knows typeName := by
        cases receiver with
        | ref t => cases t <;> cases named; exact knownReceiver
        | _ => cases named
      rw [Option.bind_some, Option.bind_some, methodsOf_withTable grounded h isName,
        select?_withTable grounded h _ name known]
  have builtin : ∀ (b : BuiltinMethod), accepts (cx.withTable t') b.params
      (args.take b.params.length) = accepts cx b.params (args.take b.params.length) :=
    fun b => accepts_withTable grounded h _ fun a member => known a (List.mem_of_mem_take member)
  unfold callee?
  dsimp only
  rw [declared]
  simp only [builtin]

theorem lowerCall_withTable {receiver : Lowered} (knownReceiver : receiver.2.Over cx.scope.Knows)
    (name : String) {args : List Argument} (known : ∀ a ∈ args, a.type.Over cx.scope.Knows)
    (span : Span) :
    lowerCall (cx.withTable t') receiver name args span = lowerCall cx receiver name args span := by
  unfold lowerCall
  rw [callee?_withTable grounded h knownReceiver name known]
  simp only [coerceArgs_withTable grounded h _ known]

theorem lowerSuperCall_withTable (name : String) {args : List Argument}
    (known : ∀ a ∈ args, a.type.Over cx.scope.Knows) (span : Span) :
    lowerSuperCall (cx.withTable t') name args span = lowerSuperCall cx name args span := by
  unfold lowerSuperCall
  rw [inheritedMethods_withTable grounded h, select?_withTable grounded h _ name known]
  simp only [coerceArgs_withTable grounded h _ known]
  rfl

end Selection

/-! ### Lowering against more types -/

namespace Lower

variable {α β : Type} {K : BodyState → Prop}

/-- If the one lowering ends without diagnostics, the other goes through the same states and gives
the same, where `pre` holds. -/
def Repeats (K : BodyState → Prop) (pre : Prop) (body body' : Lower α) (P : α → Prop) : Prop :=
  Checks body fun st a st' => pre → K st → body' st = (a, st') ∧ K st' ∧ P a

namespace Repeats

variable {pre : Prop} {P : α → Prop} {Q : β → Prop}

theorem bind {body body' : Lower α} {next next' : α → Lower β} (h : Repeats K pre body body' P)
    (hnext : ∀ a, Repeats K (pre ∧ P a) (next a) (next' a) Q) :
    Repeats K pre (body >>= next) (body' >>= next') Q := by
  refine Checks.bind h hnext ?_
  intro st a st' b st'' first second holds hst
  obtain ⟨same, hst', ha⟩ := first holds hst
  obtain ⟨same', hst'', hb⟩ := second ⟨holds, ha⟩ hst'
  refine ⟨?_, hst'', hb⟩
  change next' (body' st).1 (body' st).2 = (b, st'')
  rw [same]
  exact same'

/-- A lowering that does not depend on the table. -/
theorem of_checks {body body' : Lower α} (h : Checks body fun st a st' => pre → K st → K st' ∧ P a)
    (same : pre → body' = body) : Repeats K pre body body' P := by
  intro st clean
  obtain ⟨start, ended⟩ := h st clean
  refine ⟨start, fun holds hst => ⟨?_, ended holds hst⟩⟩
  rw [same holds]
  rfl

theorem of_yields {body body' : Lower α} (h : Yields body fun st a => pre → K st → P a)
    (same : pre → body' = body) : Repeats K pre body body' P := by
  refine of_checks (Checks.mono h ?_) same
  rintro st a _ ⟨rfl, ha⟩ holds hst
  exact ⟨hst, ha holds hst⟩

theorem pure {a : α} (h : pre → P a) : Repeats K pre (pure a) (pure a) P :=
  of_yields (.pure fun _ holds _ => h holds) fun _ => rfl

theorem weaken {body body' : Lower α} {pre' : Prop} {P' : α → Prop}
    (h : Repeats K pre body body' P) (stronger : pre' → pre) (weaker : ∀ a, P a → P' a) :
    Repeats K pre' body body' P' := by
  refine Checks.mono h fun st a st' repeats holds hst => ?_
  obtain ⟨same, hst', ha⟩ := repeats (stronger holds) hst
  exact ⟨same, hst', weaker a ha⟩

end Repeats

theorem asCondition_repeats {pre : Prop} (lowered : Lowered) (span : Span) :
    Repeats K pre (asCondition lowered span) (asCondition lowered span) fun _ => True :=
  .of_yields ((asCondition_code lowered span).mono fun _ _ _ _ _ => trivial) fun _ => rfl

section Expressions

variable {cx : ClassContext} {t' : TypeTable} (grounded : cx.Grounded)
  (h : t'.Enriches cx.table) {pre : Prop}

include grounded h

theorem coerce_repeats (code : Code.Expr) {source : StaticType}
    (known : pre → source.Over cx.scope.Knows) (target : TypeRef) (span : Span) :
    Repeats (BodyState.Over cx.scope.Knows) pre (coerce cx code source target span)
      (coerce (cx.withTable t') code source target span) fun _ => True :=
  .of_yields ((coerce_accesses cx code source target span).mono fun _ _ _ _ _ => trivial)
    fun holds => coerce_withTable grounded h code (known holds) target span

theorem lowerStore_repeats (op : Option BinaryOp) {place : Place}
    (knownPlace : pre → place.type.Over cx.scope.Knows) {value : Lowered}
    (known : pre → value.2.Over cx.scope.Knows) (span valueSpan : Span) :
    Repeats (BodyState.Over cx.scope.Knows) pre (lowerStore cx op place value span valueSpan)
      (lowerStore (cx.withTable t') op place value span valueSpan)
      fun lowered => lowered.2.Over cx.scope.Knows := by
  have string : cx.scope.Knows Builtin.string := TypeScope.knows_of_builtin (by decide)
  unfold lowerStore
  dsimp only
  cases op with
  | none =>
    refine .bind (coerce_repeats grounded h value.1 known place.type valueSpan) fun stored => ?_
    exact .pure fun holds => StaticType.over_of (knownPlace holds.1)
  | some op =>
    refine .bind (.of_yields ((lowerBinary_over string op (place.load, .of place.type) value
      span).mono fun _ _ held _ _ => held) fun _ => rfl) fun combined => ?_
    obtain ⟨code, type⟩ := combined
    dsimp only
    split
    · exact .pure fun holds => StaticType.over_of (knownPlace holds.1)
    · refine .bind (coerce_repeats grounded h code And.right place.type span) fun stored => ?_
      exact .pure fun holds => StaticType.over_of (knownPlace holds.1.1)

end Expressions

mutual

theorem lowerExpr_repeats {cx : ClassContext} {t' : TypeTable} (grounded : cx.Grounded)
    (h : t'.Enriches cx.table) (kind : BodyKind) : (e : Source.Expr) → {pre : Prop} →
    Repeats (BodyState.Over cx.scope.Knows) pre (lowerExpr cx kind e)
      (lowerExpr (cx.withTable t') kind e) fun lowered => lowered.2.Over cx.scope.Knows
  | .literal v _, _ => by
    rw [lowerExpr, lowerExpr]
    exact .pure fun _ => lowerLiteral_over (TypeScope.knows_of_builtin (by decide)) v
  | .name name span, _ => by
    rw [lowerExpr, lowerExpr]
    refine .bind (.of_yields ((namePlace?_over grounded.fields kind name span).mono
      fun _ _ held _ => held) fun _ => rfl) fun found => ?_
    exact .pure fun holds => lowerPlace_over holds.2
  | .this span, _ => by
    rw [lowerExpr, lowerExpr]
    have own : cx.scope.Knows cx.name := .inl grounded.own.symm
    exact .of_yields ((lowerThis_over own kind _ span).mono fun _ _ held _ _ => held) fun _ => rfl
  | .access target name span, _ => by
    rw [lowerExpr, lowerExpr]
    refine .bind (.of_yields ((accessPlace?_over grounded.fields kind target name span).mono
      fun _ _ held _ _ => held) fun _ => rfl) fun found => ?_
    exact .pure fun holds => lowerPlace_over holds.2
  | .call target name args span, _ => by
    rw [lowerExpr, lowerExpr]
    refine .bind (lowerExpr_repeats grounded h kind target) fun receiver => ?_
    refine .bind (lowerArgs_repeats grounded h kind args) fun args => ?_
    refine .of_yields ((lowerCall_over grounded receiver name args span).mono
      fun _ _ held _ _ => held) fun holds => ?_
    exact lowerCall_withTable grounded h holds.1.2 name holds.2 span
  | .ownCall name args span, _ => by
    rw [lowerExpr, lowerExpr]
    have own : cx.scope.Knows cx.name := .inl grounded.own.symm
    refine .bind (.of_yields ((lowerThis_over own kind _ span).mono fun _ _ held _ _ => held)
      fun _ => rfl) fun receiver => ?_
    split
    · exact .pure fun _ => trivial
    · refine .bind (lowerArgs_repeats grounded h kind args) fun args => ?_
      refine .of_yields ((lowerCall_over grounded receiver name args span).mono
        fun _ _ held _ _ => held) fun holds => ?_
      exact lowerCall_withTable grounded h holds.1.2 name holds.2 span
  | .superCall name args span, _ => by
    rw [lowerExpr, lowerExpr]
    split
    · exact .of_yields .fail fun _ => rfl
    · refine .bind (lowerArgs_repeats grounded h kind args) fun args => ?_
      refine .of_yields ((lowerSuperCall_over grounded name args span).mono
        fun _ _ held _ _ => held) fun holds => ?_
      exact lowerSuperCall_withTable grounded h name holds.2 span
  | .unary op e span, _ => by
    rw [lowerExpr, lowerExpr]
    refine .bind (lowerExpr_repeats grounded h kind e) fun operand => ?_
    exact .of_yields ((lowerUnary_over op operand span).mono fun _ _ held _ _ => held) fun _ => rfl
  | .binary op l r span, _ => by
    rw [lowerExpr, lowerExpr]
    refine .bind (lowerExpr_repeats grounded h kind l) fun left => ?_
    refine .bind (lowerExpr_repeats grounded h kind r) fun right => ?_
    exact .of_yields ((lowerBinary_over (TypeScope.knows_of_builtin (by decide)) op left right
      span).mono fun _ _ held _ _ => held) fun _ => rfl
  | .logical op l r _, _ => by
    rw [lowerExpr, lowerExpr]
    refine .bind (lowerExpr_repeats grounded h kind l) fun left => ?_
    refine .bind (asCondition_repeats left _) fun leftCode => ?_
    refine .bind (lowerExpr_repeats grounded h kind r) fun right => ?_
    refine .bind (asCondition_repeats right _) fun rightCode => ?_
    cases op <;> exact .pure fun _ => trivial
  | .assign op target value span, _ => by
    rw [lowerExpr, lowerExpr]
    refine .bind (.of_yields ((targetPlace?_over grounded.fields kind target).mono
      fun _ _ held _ => held) fun _ => rfl) fun found => ?_
    refine .bind (lowerExpr_repeats grounded h kind value) fun lowered => ?_
    cases found with
    | none => exact .pure fun _ => trivial
    | some place =>
      exact lowerStore_repeats grounded h op (fun holds => holds.1.2 place rfl) And.right span _
  | .conditional c t e _, _ => by
    rw [lowerExpr, lowerExpr]
    refine .bind (lowerExpr_repeats grounded h kind c) fun condition => ?_
    refine .bind (asCondition_repeats condition _) fun conditionCode => ?_
    refine .bind (lowerExpr_repeats grounded h kind t) fun thenBranch => ?_
    refine .bind (lowerExpr_repeats grounded h kind e) fun elseBranch => ?_
    refine .bind (.of_yields ((joinBranches_over (TypeScope.knows_of_builtin (by decide))
      thenBranch elseBranch _).mono fun _ _ held holds _ => held holds.1.2 holds.2)
      fun _ => rfl) fun joined => ?_
    exact .pure fun holds => holds.2
  | .cast type e span, _ => by
    rw [lowerExpr, lowerExpr]
    cases found : cx.scope.resolve type with
    | error d =>
      exact Checks.reportThen fun _ =>
        Checks.seq (lowerExpr_touches cx kind e) fun _ => Checks.pure _
    | ok target =>
      have found' : (cx.withTable t').scope.resolve type = .ok target :=
        TypeScope.resolve_withTable h found
      rw [found']
      refine .bind (lowerExpr_repeats grounded h kind e) fun operand => ?_
      exact .of_yields ((lowerCast_over (TypeScope.over_of_resolve grounded.imports found) operand
        span _).mono fun _ _ held _ _ => held) fun _ => rfl

theorem lowerArgs_repeats {cx : ClassContext} {t' : TypeTable} (grounded : cx.Grounded)
    (h : t'.Enriches cx.table) (kind : BodyKind) : (es : List Source.Expr) → {pre : Prop} →
    Repeats (BodyState.Over cx.scope.Knows) pre (lowerArgs cx kind es)
      (lowerArgs (cx.withTable t') kind es) fun args => ∀ a ∈ args, a.type.Over cx.scope.Knows
  | [], _ => by
    rw [lowerArgs, lowerArgs]
    exact .pure fun _ _ none_ => nomatch none_
  | e :: es, _ => by
    rw [lowerArgs, lowerArgs]
    refine .bind (lowerExpr_repeats grounded h kind e) fun lowered => ?_
    refine .bind (lowerArgs_repeats grounded h kind es) fun args => .pure fun holds => ?_
    exact List.forall_mem_cons.2 ⟨holds.1.2, holds.2⟩

end

/-! ### Statements -/

theorem Repeats.inScope {α : Type} {known : String → Prop} {pre : Prop} {body body' : Lower α}
    {P : α → Prop} (h : Repeats (BodyState.Over known) pre body body' P) :
    Repeats (BodyState.Over known) pre (inScope body) (inScope body') P := by
  intro st clean
  obtain ⟨start, ended⟩ := h { st with scopes := [] :: st.scopes } clean
  refine ⟨start, fun holds hst => ?_⟩
  obtain ⟨same, held, ha⟩ := ended holds hst
  refine ⟨?_, ?_, ha⟩
  · have run : ∀ b : Lower α, Lower.inScope b st = ((b { st with scopes := [] :: st.scopes }).1,
        { (b { st with scopes := [] :: st.scopes }).2 with
          scopes := (b { st with scopes := [] :: st.scopes }).2.scopes.drop 1 }) := fun _ => rfl
    rw [run, run, same]
  · intro x member
    obtain ⟨scope, outer, there⟩ := List.mem_flatten.1 member
    exact held x (List.mem_flatten.2 ⟨scope, List.mem_of_mem_drop outer, there⟩)

section Statements

variable {cx : ClassContext} {t' : TypeTable} (grounded : cx.Grounded)
  (h : t'.Enriches cx.table) {pre : Prop}

theorem declare_repeats {known : String → Prop} {pre : Prop} (name : String) {type : TypeRef}
    (held : pre → type.Over known) (span : Span) :
    Repeats (BodyState.Over known) pre (declare name type span) (declare name type span)
      fun _ => True := by
  refine .of_checks ((declare_checks name type span).mono ?_) fun _ => rfl
  rintro st slot st' ⟨_, _, _, more, _⟩ holds hst
  refine ⟨fun x member => ?_, trivial⟩
  rcases more x member with rfl | outer
  · exact held holds
  · exact hst x outer

include grounded h

theorem resolve_repeats (type : Source.TypeName) :
    Repeats (BodyState.Over cx.scope.Knows) pre (resolve cx type) (resolve (cx.withTable t') type)
      fun type => type.Over cx.scope.Knows := by
  unfold resolve
  cases found : cx.scope.resolve type with
  | error d => exact Checks.reportThen fun _ => Checks.pure _
  | ok target =>
    have found' : (cx.withTable t').scope.resolve type = .ok target :=
      TypeScope.resolve_withTable h found
    rw [found']
    exact .pure fun _ => TypeScope.over_of_resolve grounded.imports found

theorem lowerAs_repeats (kind : BodyKind) (e : Source.Expr) (target : TypeRef) :
    Repeats (BodyState.Over cx.scope.Knows) pre (lowerAs cx kind e target)
      (lowerAs (cx.withTable t') kind e target) fun _ => True := by
  unfold lowerAs
  refine .bind (lowerExpr_repeats grounded h kind e) fun lowered => ?_
  exact coerce_repeats grounded h lowered.1 And.right target e.span

theorem lowerCondition_repeats (kind : BodyKind) (e : Source.Expr) :
    Repeats (BodyState.Over cx.scope.Knows) pre (lowerCondition cx kind e)
      (lowerCondition (cx.withTable t') kind e) fun _ => True := by
  unfold lowerCondition
  refine .bind (lowerExpr_repeats grounded h kind e) fun lowered => ?_
  exact asCondition_repeats lowered e.span

theorem lowerReturn_repeats (kind : BodyKind) (value : Option Source.Expr) (span : Span) :
    Repeats (BodyState.Over cx.scope.Knows) pre (lowerReturn cx kind value span)
      (lowerReturn (cx.withTable t') kind value span) fun _ => True := by
  unfold lowerReturn
  split
  · exact Checks.reportThen fun _ => Checks.pure _
  · exact .pure fun _ => trivial
  · exact Checks.reportThen fun _ => Checks.pure _
  · rename_i type e _
    exact .bind (lowerAs_repeats grounded h _ e type) fun code => .pure fun _ => trivial
  · exact Checks.reportThen fun _ => Checks.pure _
  · exact .pure fun _ => trivial

end Statements

mutual

theorem lowerStmt_repeats {cx : ClassContext} {t' : TypeTable} (grounded : cx.Grounded)
    (h : t'.Enriches cx.table) (kind : BodyKind) : (s : Source.Stmt) → {pre : Prop} →
    Repeats (BodyState.Over cx.scope.Knows) pre (lowerStmt cx kind s)
      (lowerStmt (cx.withTable t') kind s) fun _ => True
  | .block body _, _ => by
    rw [lowerStmt, lowerStmt]
    refine .bind (lowerStmts_repeats grounded h kind body).inScope fun code => ?_
    exact .pure fun _ => trivial
  | .empty _, _ => by
    rw [lowerStmt, lowerStmt]
    exact .pure fun _ => trivial
  | .expr e, _ => by
    rw [lowerStmt, lowerStmt]
    exact .bind (lowerExpr_repeats grounded h kind e) fun lowered => .pure fun _ => trivial
  | .declare type name init span, _ => by
    rw [lowerStmt, lowerStmt]
    refine .bind (resolve_repeats grounded h type) fun type => ?_
    have declared : ∀ {pre : Prop} (value : Code.Expr), (pre → type.Over cx.scope.Knows) →
        Repeats (BodyState.Over cx.scope.Knows) pre
          (do
            let slot ← declare name type span
            return [Code.Stmt.expr (.storeVar slot value)])
          (do
            let slot ← declare name type span
            return [Code.Stmt.expr (.storeVar slot value)]) fun _ => True :=
      fun value held => .bind (declare_repeats name held span) fun slot => .pure fun _ => trivial
    cases init with
    | none =>
      simp only [pure_bind]
      exact declared (defaultCode type) And.right
    | some e =>
      exact .bind (lowerAs_repeats grounded h kind e type) fun value =>
        declared value fun holds => holds.1.2
  | .ret value span, _ => by
    rw [lowerStmt, lowerStmt]
    exact .bind (lowerReturn_repeats grounded h kind value span) fun code => .pure fun _ => trivial
  | .ifThen c t _, _ => by
    rw [lowerStmt, lowerStmt]
    refine .bind (lowerCondition_repeats grounded h kind c) fun condition => ?_
    refine .bind (lowerStmt_repeats grounded h kind t).inScope fun thenBranch => ?_
    exact .pure fun _ => trivial
  | .ifElse c t e _, _ => by
    rw [lowerStmt, lowerStmt]
    refine .bind (lowerCondition_repeats grounded h kind c) fun condition => ?_
    refine .bind (lowerStmt_repeats grounded h kind t).inScope fun thenBranch => ?_
    refine .bind (lowerStmt_repeats grounded h kind e).inScope fun elseBranch => ?_
    exact .pure fun _ => trivial
  | .loop c b _, _ => by
    rw [lowerStmt, lowerStmt]
    refine .bind (lowerCondition_repeats grounded h kind c) fun condition => ?_
    refine .bind (lowerStmt_repeats grounded h kind b).inScope fun body => ?_
    exact .pure fun _ => trivial
  | .throw e span, _ => by
    rw [lowerStmt, lowerStmt]
    refine .bind (lowerExpr_repeats grounded h kind e) fun lowered => ?_
    dsimp only
    split
    · exact Checks.reportThen fun _ => Checks.pure _
    · exact .pure fun _ => trivial

theorem lowerStmts_repeats {cx : ClassContext} {t' : TypeTable} (grounded : cx.Grounded)
    (h : t'.Enriches cx.table) (kind : BodyKind) : (ss : List Source.Stmt) → {pre : Prop} →
    Repeats (BodyState.Over cx.scope.Knows) pre (lowerStmts cx kind ss)
      (lowerStmts (cx.withTable t') kind ss) fun _ => True
  | [], _ => by
    rw [lowerStmts, lowerStmts]
    exact .pure fun _ => trivial
  | s :: ss, _ => by
    rw [lowerStmts, lowerStmts]
    refine .bind (lowerStmt_repeats grounded h kind s) fun code => ?_
    exact .bind (lowerStmts_repeats grounded h kind ss) fun codes => .pure fun _ => trivial

end

theorem declareParams_repeats {known : String → Prop} {pre : Prop} (params : List Source.Param)
    {types : List TypeRef} (held : ∀ t ∈ types, t.Over known) :
    Repeats (BodyState.Over known) pre (declareParams params types) (declareParams params types)
      fun _ => True := by
  induction params generalizing types pre with
  | nil => exact .pure fun _ => trivial
  | cons p params ih =>
    cases types with
    | nil => exact .pure fun _ => trivial
    | cons t types =>
      obtain ⟨first, rest⟩ := List.forall_mem_cons.1 held
      exact .bind (declare_repeats p.name (fun _ => first) p.span) fun _ => ih rest

end Lower

/-! ### Classes -/

section Members

variable {cx : ClassContext} {t' : TypeTable} (grounded : cx.Grounded)
  (h : t'.Enriches cx.table)

theorem lowerBody_repeats {α : Type} {known : String → Prop} {body body' : Lower α}
    {P : α → Prop} (repeats : Lower.Repeats (BodyState.Over known) True body body' P)
    (clean : (lowerBody body).2.diagnostics = []) : lowerBody body' = lowerBody body :=
  ((repeats {} clean).2 trivial fun _ none_ => nomatch none_).1

include grounded h

theorem body_repeats (params : List Source.Param) {types : List TypeRef}
    (held : ∀ t ∈ types, t.Over cx.scope.Knows) (kind : BodyKind) (statements : List Source.Stmt) :
    Lower.Repeats (BodyState.Over cx.scope.Knows) True
      (do
        declareParams params types
        Lower.inScope (lowerStmts cx kind statements))
      (do
        declareParams params types
        Lower.inScope (lowerStmts (cx.withTable t') kind statements)) fun _ => True :=
  .bind (Lower.declareParams_repeats params held) fun _ =>
    (Lower.lowerStmts_repeats grounded h kind statements).inScope

theorem compileMember_withTable {m : DeclaredMember} (member : m ∈ cx.members)
    (clean : (compileMember cx m).2 = []) :
    compileMember (cx.withTable t') m = compileMember cx m := by
  cases m with
  | field decl info =>
    unfold compileMember compileField at clean ⊢
    dsimp only at clean ⊢
    cases initial : decl.init with
    | none => rfl
    | some e =>
      rw [initial] at clean
      dsimp only at clean ⊢
      rw [lowerBody_repeats (Lower.lowerAs_repeats grounded h _ e info.type) clean]
  | method decl info =>
    unfold compileMember compileMethod at clean ⊢
    dsimp only at clean ⊢
    have held : ∀ p ∈ info.method.params, p.Over cx.scope.Knows := grounded.params _ member
    have lowered := (List.append_eq_nil_iff.1 clean).1
    rw [lowerBody_repeats (body_repeats grounded h decl.params held _ _) lowered]
  | constructor decl params =>
    unfold compileMember compileConstructor at clean ⊢
    dsimp only at clean ⊢
    have held : ∀ p ∈ params, p.Over cx.scope.Knows := grounded.params _ member
    have lowered := (List.append_eq_nil_iff.1 clean).2
    rw [lowerBody_repeats (body_repeats grounded h decl.params held _ _) lowered]
    rfl

end Members

theorem compileUnit_of_enriches {t t' : TypeTable} (closed : t.Closed) (enriches : t'.Enriches t)
    {unit : Source.CompilationUnit} {code : Code.Class} (compiled : compileUnit t unit = .ok code) :
    compileUnit t' unit = .ok code := by
  have accepted := accepted_of_compileUnit compiled
  have grounded := accepted.grounded closed
  have h : t'.Enriches (contextOf t unit).table := by rwa [contextOf_table]
  obtain ⟨imported, declared⟩ := accepted.contextOf_withTable enriches
  have members : ∀ m ∈ (contextOf t unit).members,
      compileMember ((contextOf t unit).withTable t') m = compileMember (contextOf t unit) m :=
    fun m member => compileMember_withTable grounded h member (accepted.members_clean m member)
  have context : contextOf t' unit = (contextOf t unit).withTable t' := by
    rw [contextOf, imported, declared]
  refine Accepted.compiles ⟨by rw [imported], by rw [imported, declared], ?_, ?_, ?_⟩
  · rw [context, checkInheritance_withTable grounded h]
    exact accepted.inheritance_clean
  · rw [context]
    intro m member
    rw [members m member]
    exact accepted.members_clean m member
  · rw [context, accepted.assembled]
    exact congrArg _ (List.map_congr_left fun m member => congrArg _ (members m member).symm)

end Classwright.Check

namespace Classwright

/-- Compiling is monotone in the types that are declared. Where the supertypes and return types of
the declared types are known, a source that compiles still compiles to the same class when further
types are declared under new names that are not builtin, be it under the name of the class. -/
theorem compileSource_of_enriches {t t' : TypeTable} (closed : t.Closed)
    (enriches : t'.Enriches t) {source : String} {code : Code.Class}
    (compiled : compileSource t source = .ok code) : compileSource t' source = .ok code := by
  obtain ⟨tokens, unit, scanned, parsed, checked⟩ := Check.compileUnit_of_compileSource compiled
  exact Check.compileSource_of_compileUnit scanned parsed
    (Check.compileUnit_of_enriches closed enriches checked)

namespace Sample

/-- A table with one interface. -/
def figures : TypeTable where
  types := [{
    name := "Figure"
    kind := .interface
    methods := [{ name := "area", returnType := .int },
      { name := "scaled", returnType := .named "Figure", params := [.string] }] }]

/-- The same with two more types, one of the name of the class below. -/
def moreFigures : TypeTable :=
  (figures.defineIfAbsent { name := "Tile", kind := .interface, interfaces := ["Figure"] })
    |>.defineIfAbsent { name := "Mosaic", kind := .concreteClass, superclass := some "Tile" }

def tile : String :=
  "class Tile implements Figure \x7b int side = 2; public int area() \x7b return side * side; \x7d "
    ++ "public Figure scaled(String by) \x7b side = side + by.length(); return this; \x7d \x7d"

theorem tile_isOk : (compileSource figures tile).toOption.isSome = true := by
  decide +kernel

theorem tile_compiles : compileSource figures tile = .ok (codeOf figures tile) ∧
    compileSource moreFigures tile = .ok (codeOf figures tile) := by
  have compiled : compileSource figures tile = .ok (codeOf figures tile) :=
    (compiles_of_isOk tile_isOk).1
  have closed : figures.Closed := TypeTable.closed_of_types (by decide)
  have enriches : moreFigures.Enriches figures :=
    (TypeTable.enriches_defineIfAbsent _ (by decide)).trans
      (TypeTable.enriches_defineIfAbsent _ (by decide))
  exact ⟨compiled, compileSource_of_enriches closed enriches compiled⟩

end Sample

end Classwright
