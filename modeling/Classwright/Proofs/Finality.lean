import Classwright.Proofs.Members
import Classwright.Proofs.Returning

/-!
# Final fields are stored only where they are initialized

The checker lets a final field be assigned by initial values of its kind and, if it belongs to the
objects, by constructors. What it accepts is lowered to the store of a slot, so the compiled class
stores final fields nowhere else, however an assignment was written.
-/

namespace Classwright

namespace Code

/-- The fields of a kind. -/
def Class.fieldsOf (code : Class) : SlotKind → List Field
  | .local_ => []
  | .field => code.fields
  | .static => code.statics

/-- Whether the field of this kind and slot is final. -/
def Class.isFinal (code : Class) (kind : SlotKind) (slot : Nat) : Bool :=
  (code.fieldsOf kind)[slot]?.any (·.isFinal)

/-- Methods store no final fields. Constructors and the initial values of fields store none that are
static, and initial values of static fields none of an object. -/
structure Class.FinalsKept (code : Class) : Prop where
  methods : ∀ m ∈ code.methods, ∀ scope kind slot,
    .write kind slot ∈ Stmt.allAccesses scope m.body → code.isFinal kind slot = false
  constructors : ∀ k ∈ code.constructors, ∀ scope slot,
    .write .static slot ∈ Stmt.allAccesses scope k.body → code.isFinal .static slot = false
  fields : ∀ f ∈ code.fields, ∀ e, f.init = some e → ∀ slot,
    .write .static slot ∈ e.accesses → code.isFinal .static slot = false
  statics : ∀ f ∈ code.statics, ∀ e, f.init = some e → ∀ slot,
    .write .field slot ∈ e.accesses → code.isFinal .field slot = false

end Code

namespace Check

open Source (writeOf slotOf?)

/-- Code of this kind may do so: what it stores is a variable, or a field that it may assign. -/
def ClassContext.Grants (cx : ClassContext) (kind : BodyKind) : Access → Prop
  | .write k slot => k = .local_ ∨ ∃ info ∈ cx.fields, info.slotOf = (k, slot) ∧
    (info.isFinal = true → mayAssignFinal kind info.isStatic = true)
  | _ => True

variable {cx : ClassContext} {kind : BodyKind}

theorem grants_of_own? {name : String} {k : SlotKind} {slot : Nat}
    (own : cx.own? name = some (k, slot))
    (may : ∀ info, cx.field? name = some info → info.isFinal = true →
      mayAssignFinal kind info.isStatic = true) : cx.Grants kind (.write k slot) := by
  obtain ⟨info, found, same⟩ := Option.map_eq_some_iff.1 own
  exact .inr ⟨info, List.mem_of_find?_eq_some found, same, may info found⟩

namespace Lower

/-! ### Assignments -/

/-- Only a field that may be assigned passes the guard. -/
theorem guardFinal_grants (name : String) {place : Place} (noVar : place.isVar = false)
    (span : Span) : Yields (guardFinal cx kind name place span) fun _ _ =>
      ∀ info, cx.field? name = some info → info.isFinal = true →
        mayAssignFinal kind info.isStatic = true := by
  unfold guardFinal
  rw [noVar, if_neg (by simp)]
  cases found : cx.field? name with
  | none => exact .pure fun _ _ none_ => nomatch none_
  | some info =>
    cases final : info.isFinal with
    | false =>
      rw [Option.filter_some, if_neg (by simp [final])]
      refine .pure fun _ info' same final' => ?_
      cases same
      rw [final] at final'
      cases final'
    | true =>
      rw [Option.filter_some, if_pos (by simp [final])]
      dsimp only
      split
      · exact .report
      · rename_i may
        refine .pure fun _ info' same _ => ?_
        cases same
        simpa using may

/-- The slot of what the name stands for may be stored behind the guard. -/
theorem guarded_grants {slot? : Option SlotOf} (name : String) (place : Place) (span : Span)
    (own : place.slot.1 ≠ .local_ → slot? = some place.slot → cx.own? name = some place.slot) :
    Yields (do
        guardFinal cx kind name place span
        return some place) fun _ _ =>
      slot? = some place.slot → ∀ a ∈ writeOf slot?, cx.Grants kind a := by
  have written : ∀ {a}, slot? = some place.slot → a ∈ writeOf slot? →
      a = .write place.slot.1 place.slot.2 := by
    rintro a rfl member
    exact List.mem_singleton.1 member
  cases noVar : place.isVar with
  | true =>
    refine .bind (World.guardFinal_yields cx kind name place span) fun _ => .pure fun _ _ => ?_
    intro same a member
    rw [written same member]
    cases place with
    | var slot type => exact .inl rfl
    | field slot type => cases noVar
    | static slot type => cases noVar
  | false =>
    refine .bind (guardFinal_grants name noVar span) fun _ => .pure fun _ may same a member => ?_
    have noLocal : place.slot.1 ≠ .local_ := by
      cases place with
      | var slot type => cases noVar
      | field slot type => nofun
      | static slot type => nofun
    rw [written same member]
    exact grants_of_own? (own noLocal same) may

/-- The target of an assignment may be stored. -/
theorem targetPlace?_grants (cx : ClassContext) (kind : BodyKind) (target : Source.Expr) :
    Yields (targetPlace? cx kind target) fun st _ =>
      ∀ a ∈ writeOf (target.slot? cx.own? st.vars), cx.Grants kind a := by
  unfold targetPlace?
  split
  · rename_i name span
    refine .bind (namePlace?_isPlace cx kind name span) fun found => ?_
    cases found with
    | none =>
      refine .pure fun _ => ?_
      rintro ⟨_, ⟨⟩, _⟩
    | some place =>
      intro st clean
      have own : place.slot.1 ≠ .local_ → slotOf? cx.own? st.vars name = some place.slot →
          cx.own? name = some place.slot := by
        intro noLocal same
        unfold slotOf? at same
        split at same
        · exact absurd (congrArg Prod.fst (Option.some.inj same)).symm noLocal
        · exact same
      obtain ⟨start, same, grants⟩ := guarded_grants name place span own st clean
      refine ⟨start, same, ?_⟩
      rintro ⟨_, ⟨⟩, slot, _⟩
      exact grants slot
  · rename_i inner name span
    refine .bind (accessPlace?_isPlace cx kind inner name span) fun found => ?_
    cases found with
    | none =>
      refine .pure fun _ => ?_
      rintro ⟨_, ⟨⟩, _⟩
    | some place =>
      intro st clean
      have own : place.slot.1 ≠ .local_ →
          (Source.Expr.access inner name span).slot? cx.own? st.vars = some place.slot →
          cx.own? name = some place.slot := by
        intro _ same
        unfold Source.Expr.slot? at same
        split at same
        · rename_i other
          cases other
        · rename_i other
          cases other
          exact same
        · cases same
      obtain ⟨start, same, grants⟩ := guarded_grants name place span own st clean
      refine ⟨start, same, ?_⟩
      rintro ⟨_, ⟨⟩, slot, _⟩
      exact grants slot
  · exact .reportThen fun _ => .pure fun _ => trivial

/-! ### Expressions -/

/-- Reading stores nothing. -/
theorem readOf_grants (slot? : Option SlotOf) :
    ∀ a ∈ Source.readOf slot?, cx.Grants kind a := by
  intro a member
  obtain ⟨slot, _, rfl⟩ := List.mem_map.1 member
  trivial

theorem single_grants {a : Access} (h : cx.Grants kind a) : ∀ b ∈ [a], cx.Grants kind b := by
  intro b member
  rw [List.mem_singleton.1 member]
  exact h

mutual

/-- An expression that is lowered without a report assigns no final field that it may not. -/
theorem lowerExpr_grants (cx : ClassContext) (kind : BodyKind) : (e : Source.Expr) →
    Yields (lowerExpr cx kind e) fun st _ =>
      ∀ a ∈ e.accesses cx.own? st.vars, cx.Grants kind a
  | .literal v _ => by
    rw [lowerExpr]
    refine .pure fun st => ?_
    rw [Source.Expr.accesses]
    exact fun _ member => nomatch member
  | .name name span => by
    rw [lowerExpr]
    refine .bind (namePlace?_isPlace cx kind name span) fun found => .pure fun st _ => ?_
    rw [Source.Expr.accesses]
    exact readOf_grants _
  | .this span => by
    rw [lowerExpr]
    refine (lowerThis_touches cx kind _ span).mono fun st _ _ => ?_
    rw [Source.Expr.accesses]
    exact single_grants trivial
  | .access target name span => by
    rw [lowerExpr]
    refine .bind (accessPlace?_isPlace cx kind target name span) fun found => .pure fun st _ => ?_
    rw [Source.Expr.accesses]
    exact readOf_grants _
  | .call target name args span => by
    rw [lowerExpr]
    refine .bind (lowerExpr_grants cx kind target) fun receiver => ?_
    refine .bind (lowerArgs_grants cx kind args) fun args => ?_
    refine (lowerCall_touches cx receiver name args span).mono fun st _ _ hargs hreceiver => ?_
    rw [Source.Expr.accesses, List.forall_mem_append, List.forall_mem_append]
    exact ⟨hreceiver, hargs, single_grants trivial⟩
  | .ownCall name args span => by
    rw [lowerExpr]
    refine .bind (lowerThis_touches cx kind _ span) fun receiver => ?_
    split
    · rename_i reported
      exact .pure fun _ hreceiver => absurd reported hreceiver.1.1
    · refine .bind (lowerArgs_grants cx kind args) fun args => ?_
      refine (lowerCall_touches cx receiver name args span).mono fun st _ _ hargs _ => ?_
      rw [Source.Expr.accesses, List.forall_mem_cons, List.forall_mem_append]
      exact ⟨trivial, hargs, single_grants trivial⟩
  | .superCall name args span => by
    rw [lowerExpr]
    split
    · exact .fail
    · refine .bind (lowerArgs_grants cx kind args) fun args => ?_
      refine (lowerSuperCall_touches cx name args span).mono fun st _ _ hargs => ?_
      rw [Source.Expr.accesses, List.forall_mem_append]
      exact ⟨hargs, single_grants trivial⟩
  | .unary op e span => by
    rw [lowerExpr]
    refine .bind (lowerExpr_grants cx kind e) fun operand => ?_
    refine (lowerUnary_touches op operand span).mono fun st _ _ he => ?_
    rw [Source.Expr.accesses]
    exact he
  | .binary op l r span => by
    rw [lowerExpr]
    refine .bind (lowerExpr_grants cx kind l) fun left => ?_
    refine .bind (lowerExpr_grants cx kind r) fun right => ?_
    refine (lowerBinary_touches op left right span).mono fun st _ _ hr hl => ?_
    rw [Source.Expr.accesses, List.forall_mem_append]
    exact ⟨hl, hr⟩
  | .logical op l r span => by
    rw [lowerExpr]
    refine .bind (lowerExpr_grants cx kind l) fun left => ?_
    refine .bind (asCondition_code left _) fun leftCode => ?_
    refine .bind (lowerExpr_grants cx kind r) fun right => ?_
    refine .bind (asCondition_code right _) fun rightCode => ?_
    have both : ∀ (code : Code.Expr), Yields (pure (code, StaticType.boolean) : Lower Lowered)
        fun st _ => rightCode = right.1 → (∀ a ∈ r.accesses cx.own? st.vars, cx.Grants kind a) →
          leftCode = left.1 → (∀ a ∈ l.accesses cx.own? st.vars, cx.Grants kind a) →
          ∀ a ∈ (Source.Expr.logical op l r span).accesses cx.own? st.vars, cx.Grants kind a := by
      refine fun code => .pure fun st _ hr _ hl => ?_
      rw [Source.Expr.accesses, List.forall_mem_append]
      exact ⟨hl, hr⟩
    cases op with
    | and => exact both _
    | or => exact both _
  | .assign op target value span => by
    rw [lowerExpr]
    refine .bind ((targetPlace?_isPlace cx kind target).and (targetPlace?_grants cx kind target))
      fun found => ?_
    refine .bind (lowerExpr_grants cx kind value) fun lowered => ?_
    cases found with
    | none => exact .pure fun _ _ ⟨⟨_, none_, _⟩, _⟩ => nomatch none_
    | some place =>
      refine (lowerStore_touches cx op place lowered span _).mono fun st _ _ hvalue target => ?_
      rw [Source.Expr.accesses, List.forall_mem_append, List.forall_mem_append]
      refine ⟨⟨?_, hvalue⟩, target.2⟩
      split
      · exact readOf_grants _
      · exact fun _ member => nomatch member
  | .conditional c t e _ => by
    rw [lowerExpr]
    refine .bind (lowerExpr_grants cx kind c) fun condition => ?_
    refine .bind (asCondition_code condition _) fun conditionCode => ?_
    refine .bind (lowerExpr_grants cx kind t) fun thenBranch => ?_
    refine .bind (lowerExpr_grants cx kind e) fun elseBranch => ?_
    refine .bind (joinBranches_touches thenBranch elseBranch _) fun joined => ?_
    refine .pure fun st _ he ht _ hc => ?_
    rw [Source.Expr.accesses, List.forall_mem_append, List.forall_mem_append]
    exact ⟨hc, ht, he⟩
  | .cast type e span => by
    rw [lowerExpr]
    split
    · refine .reportThen fun _ => .bind (lowerExpr_grants cx kind e) fun _ => ?_
      exact .pure fun _ _ => trivial
    · refine .bind (lowerExpr_grants cx kind e) fun operand => ?_
      refine (lowerCast_touches _ operand span _).mono fun st _ _ he => ?_
      rw [Source.Expr.accesses]
      exact he

theorem lowerArgs_grants (cx : ClassContext) (kind : BodyKind) : (es : List Source.Expr) →
    Yields (lowerArgs cx kind es) fun st _ =>
      ∀ a ∈ Source.Expr.allAccesses cx.own? st.vars es, cx.Grants kind a
  | [] => by
    rw [lowerArgs]
    refine .pure fun st => ?_
    rw [Source.Expr.allAccesses]
    exact fun _ member => nomatch member
  | e :: es => by
    rw [lowerArgs]
    refine .bind (lowerExpr_grants cx kind e) fun lowered => ?_
    refine .bind (lowerArgs_grants cx kind es) fun args => .pure fun st hargs he => ?_
    rw [Source.Expr.allAccesses, List.forall_mem_append]
    exact ⟨he, hargs⟩

end

/-- The code of an expression does what the expression does. -/
theorem lowerExpr_code_grants (e : Source.Expr) :
    Yields (lowerExpr cx kind e) fun _ lowered => ∀ a ∈ lowered.1.accesses, cx.Grants kind a := by
  refine ((lowerExpr_touches cx kind e).and (lowerExpr_grants cx kind e)).mono ?_
  rintro st lowered ⟨⟨⟨_, same⟩, _⟩, grants⟩
  rw [same]
  exact grants

theorem lowerAs_code_grants (e : Source.Expr) (t : TypeRef) :
    Yields (lowerAs cx kind e t) fun _ code => ∀ a ∈ code.accesses, cx.Grants kind a := by
  unfold lowerAs
  refine .bind (lowerExpr_code_grants e) fun lowered => ?_
  refine (coerce_accesses cx lowered.1 lowered.2 t e.span).mono fun st code same grants => ?_
  rw [same]
  exact grants

theorem lowerCondition_code_grants (e : Source.Expr) :
    Yields (lowerCondition cx kind e) fun _ code => ∀ a ∈ code.accesses, cx.Grants kind a := by
  unfold lowerCondition
  refine .bind (lowerExpr_code_grants e) fun lowered => ?_
  refine (asCondition_code lowered e.span).mono fun st code same grants => ?_
  rw [same]
  exact grants

/-! ### Statements -/

/-- Whatever is in scope, the statements do what code of this kind may do. -/
def AllGranted (cx : ClassContext) (kind : BodyKind) (ss : List Code.Stmt) : Prop :=
  ∀ scope, ∀ a ∈ Code.Stmt.allAccesses scope ss, cx.Grants kind a

theorem AllGranted.append {ss ts : List Code.Stmt} (first : AllGranted cx kind ss)
    (second : AllGranted cx kind ts) : AllGranted cx kind (ss ++ ts) := by
  intro scope
  rw [Code.Stmt.allAccesses_append, List.forall_mem_append]
  exact ⟨first scope, second _⟩

/-- A stored variable is no field. -/
theorem allGranted_expr {e : Code.Expr} (h : ∀ a ∈ e.accesses, cx.Grants kind a) :
    AllGranted cx kind [.expr e] := by
  intro scope
  rw [allAccesses_single]
  cases e with
  | storeVar slot value =>
    rw [Code.Expr.accesses, List.forall_mem_append] at h
    rw [Code.Stmt.accesses, List.forall_mem_append]
    refine ⟨h.1, single_grants ?_⟩
    split
    · exact .inl rfl
    · trivial
  | _ => exact h

theorem allGranted_declare {value : Code.Expr} (h : ∀ a ∈ value.accesses, cx.Grants kind a)
    (slot : Nat) : AllGranted cx kind [.expr (.storeVar slot value)] := by
  refine allGranted_expr ?_
  rw [Code.Expr.accesses, List.forall_mem_append]
  exact ⟨h, single_grants (.inl rfl)⟩

theorem lowerReturn_grants (value : Option Source.Expr) (span : Span) :
    Yields (lowerReturn cx kind value span) fun _ code =>
      ∀ e, code = some e → ∀ a ∈ e.accesses, cx.Grants kind a := by
  unfold lowerReturn
  split
  · exact .reportThen fun _ => .pure fun _ => trivial
  · exact .pure fun _ _ none_ => nomatch none_
  · exact .reportThen fun _ => .pure fun _ => trivial
  · rename_i type e _
    refine .bind (lowerAs_code_grants e type) fun code => .pure fun _ grants e' same => ?_
    cases same
    exact grants
  · exact .reportThen fun _ => .pure fun _ => trivial
  · exact .pure fun _ _ none_ => nomatch none_

theorem Checks.of_yields {α : Type} {body : Lower α} {P : α → Prop}
    (h : Yields body fun _ a => P a) : Checks body fun _ a _ => P a :=
  Checks.mono h fun _ _ _ ended => ended.2

theorem declare_grants {value : Lower Code.Expr}
    (h : Yields value fun _ code => ∀ a ∈ code.accesses, cx.Grants kind a) (name : String)
    (t : TypeRef) (span : Span) :
    Checks (do
        let value ← value
        let slot ← declare name t span
        return [Code.Stmt.expr (.storeVar slot value)])
      fun _ code _ => AllGranted cx kind code := by
  refine (Checks.seq (.of_yields h) fun value =>
    Checks.seq (declare_checks name t span) fun slot => Checks.pure _).mono ?_
  rintro _ _ _ ⟨value, _, grants, slot, _, _, rfl, rfl⟩
  exact allGranted_declare grants slot

mutual

/-- A statement that is lowered without a report assigns no final field that it may not. -/
theorem lowerStmt_grants (cx : ClassContext) (kind : BodyKind) : (s : Source.Stmt) →
    Checks (lowerStmt cx kind s) fun _ code _ => AllGranted cx kind code
  | .block body span => by
    rw [lowerStmt]
    refine (Checks.seq (lowerStmts_grants cx kind body).inScope_code
      fun _ => Checks.pure _).mono ?_
    rintro st _ st' ⟨code, _, inner, rfl, rfl⟩ scope
    rw [allAccesses_single, Code.Stmt.accesses]
    exact inner scope
  | .empty _ => by
    rw [lowerStmt]
    refine (Checks.pure _).mono ?_
    rintro st _ _ ⟨rfl, _⟩ scope a member
    cases member
  | .expr e => by
    rw [lowerStmt]
    refine .of_yields (.bind (lowerExpr_code_grants e) fun lowered => .pure fun _ grants => ?_)
    exact allGranted_expr grants
  | .declare type name none span => by
    rw [lowerStmt]
    refine .after (resolve_yields cx type) fun t => declare_grants (.pure fun _ => ?_) name t span
    rw [accesses_defaultCode]
    exact fun _ member => nomatch member
  | .declare type name (some e) span => by
    rw [lowerStmt]
    refine .after (resolve_yields cx type) fun t => ?_
    exact declare_grants (lowerAs_code_grants e t) name t span
  | .ret value span => by
    rw [lowerStmt]
    refine .of_yields (.bind (lowerReturn_grants value span) fun code => .pure fun _ grants => ?_)
    intro scope
    rw [allAccesses_single]
    cases code with
    | none => exact fun _ member => nomatch member
    | some e => exact grants e rfl
  | .ifThen c t span => by
    rw [lowerStmt]
    refine (Checks.seq (.of_yields (lowerCondition_code_grants c)) fun condition =>
      Checks.seq (lowerStmt_grants cx kind t).inScope_code fun _ => Checks.pure _).mono ?_
    rintro _ _ _ ⟨condition, _, hc, code, _, ht, rfl, rfl⟩ scope
    rw [allAccesses_single, Code.Stmt.accesses, List.forall_mem_append, List.forall_mem_append]
    exact ⟨hc, ht scope, fun _ member => nomatch member⟩
  | .ifElse c t e span => by
    rw [lowerStmt]
    refine (Checks.seq (.of_yields (lowerCondition_code_grants c)) fun condition =>
      Checks.seq (lowerStmt_grants cx kind t).inScope_code fun _ =>
      Checks.seq (lowerStmt_grants cx kind e).inScope_code fun _ => Checks.pure _).mono ?_
    rintro _ _ _ ⟨condition, _, hc, _, _, ht, _, _, he, rfl, rfl⟩ scope
    rw [allAccesses_single, Code.Stmt.accesses, List.forall_mem_append, List.forall_mem_append]
    exact ⟨hc, ht scope, he scope⟩
  | .loop c b span => by
    rw [lowerStmt]
    refine (Checks.seq (.of_yields (lowerCondition_code_grants c)) fun condition =>
      Checks.seq (lowerStmt_grants cx kind b).inScope_code fun _ => Checks.pure _).mono ?_
    rintro _ _ _ ⟨condition, _, hc, _, _, hb, rfl, rfl⟩ scope
    rw [allAccesses_single, Code.Stmt.accesses, List.forall_mem_append]
    exact ⟨hc, hb scope⟩
  | .throw e span => by
    rw [lowerStmt]
    refine .of_yields (.bind (lowerExpr_code_grants e) fun lowered => ?_)
    dsimp only
    split
    · exact .reportThen fun _ => .pure fun _ => trivial
    · refine .pure fun _ grants scope => ?_
      rw [allAccesses_single]
      exact grants

theorem lowerStmts_grants (cx : ClassContext) (kind : BodyKind) : (ss : List Source.Stmt) →
    Checks (lowerStmts cx kind ss) fun _ code _ => AllGranted cx kind code
  | [] => by
    rw [lowerStmts]
    refine (Checks.pure _).mono ?_
    rintro st _ _ ⟨rfl, _⟩ scope a member
    cases member
  | s :: ss => by
    rw [lowerStmts]
    refine (Checks.seq (lowerStmt_grants cx kind s) fun _ =>
      Checks.seq (lowerStmts_grants cx kind ss) fun _ => Checks.pure _).mono ?_
    rintro _ _ _ ⟨_, _, first, _, _, rest, rfl, rfl⟩
    exact first.append rest

end

end Lower

/-! ### Classes -/

section

variable {table : TypeTable} {unit : Source.CompilationUnit} {code : Code.Class}

end

end Check

end Classwright
