import Classwright.Check.Compile
import Classwright.Proofs.Lowering

/-!
# Bodies of a class are typed

Every expression and statement of a body is lowered to code of its type if the calls in it serve, by
induction on the syntax. A statement that control cannot pass does not end normally.
-/

namespace Classwright.World

open Check Check.Lower

variable {W : World} {n : Nat}

/-- The calls in an expression serve where it stands. -/
def Served (W : World) (n : Nat) (kind : BodyKind) (st : BodyState) (e : Source.Expr) : Prop :=
  ∀ p ∈ e.parts, ∀ call, Site.call? (W.context n) ⟨kind, st, p⟩ = some call → W.Serves n call

theorem Served.child {kind : BodyKind} {st : BodyState} {c e : Source.Expr}
    (served : W.Served n kind st e) (child : c ∈ e.children) : W.Served n kind st c :=
  fun p part => served p (Source.Expr.parts_of_child child part)

mutual

/-- An expression that is not reported has the static type that it is given. -/
theorem lowerExpr_yields (valid : W.Valid) {d : LoadedClass} (hd : W.classes n = some d)
    (placed : W.FieldsPlaced n) (kind : BodyKind) : (e : Source.Expr) →
    Yields (lowerExpr (W.context n) kind e) (fun st lowered =>
      st.Scoped → W.Served n kind st e → W.Typed n st lowered)
  | .literal v _ => by
    rw [lowerExpr]
    exact .pure fun st _ _ => lowerLiteral_typed st v
  | .name name span => by
    rw [lowerExpr]
    refine .bind (namePlace?_yields placed kind name span) fun found => ?_
    exact .pure fun _ hfound hst _ => lowerPlace_typed valid hst hfound
  | .this span => by
    rw [lowerExpr]
    exact (lowerThis_yields valid hd kind _ span).mono fun _ _ typed _ _ => typed.1
  | .access target name span => by
    rw [lowerExpr]
    refine .bind (accessPlace?_yields placed kind target name span) fun found => ?_
    exact .pure fun _ hfound hst _ => lowerPlace_typed valid hst hfound
  | .call target name args span => by
    rw [lowerExpr]
    refine .bind (lowerExpr_yields valid hd placed kind target).exact fun receiver => ?_
    refine .bind (lowerArgs_yields valid hd placed kind args).exact fun lowered => ?_
    refine (lowerCall_yields valid hd receiver name lowered span).mono ?_
    rintro st _ typed ⟨hargs, rfl⟩ ⟨hreceiver, rfl⟩ hst served
    have receiverServed : W.Served n kind st target :=
      served.child (by simp [Source.Expr.children])
    refine typed (fun type same => ?_) (hreceiver hst receiverServed)
      (hargs hst fun e member => served.child (List.mem_cons_of_mem _ member))
    refine served _ (Source.Expr.mem_parts_self _) _ ?_
    simp only [Site.call?, same]
    rfl
  | .ownCall name args span => by
    rw [lowerExpr]
    refine .bind (lowerThis_yields valid hd kind _ span) fun receiver => ?_
    split
    · rename_i reported
      refine .pure fun _ hreceiver _ => ?_
      rw [reported] at hreceiver
      cases hreceiver.2
    · refine .bind (lowerArgs_yields valid hd placed kind args).exact fun lowered => ?_
      refine (lowerCall_yields valid hd receiver name lowered span).mono ?_
      rintro st _ typed ⟨hargs, rfl⟩ ⟨hreceiver, own⟩ hst served
      refine typed (fun type same => ?_) hreceiver (hargs hst fun e member => served.child member)
      rw [own] at same
      cases same
      exact served _ (Source.Expr.mem_parts_self _) _ rfl
  | .superCall name args span => by
    rw [lowerExpr]
    split
    · exact .fail
    · refine .bind (lowerArgs_yields valid hd placed kind args).exact fun lowered => ?_
      refine (lowerSuperCall_yields valid hd name lowered span).mono ?_
      rintro st _ typed ⟨hargs, rfl⟩ hst served
      exact typed (served _ (Source.Expr.mem_parts_self _) _ rfl)
        (hargs hst fun e member => served.child member)
  | .unary op e span => by
    rw [lowerExpr]
    refine .bind (lowerExpr_yields valid hd placed kind e) fun operand => ?_
    refine (lowerUnary_yields (W := W) (n := n) op operand span).mono ?_
    exact fun _ _ typed he hst served =>
      typed (he hst (served.child (by simp [Source.Expr.children])))
  | .binary op l r span => by
    rw [lowerExpr]
    refine .bind (lowerExpr_yields valid hd placed kind l) fun left => ?_
    refine .bind (lowerExpr_yields valid hd placed kind r) fun right => ?_
    refine (lowerBinary_yields (W := W) (n := n) op left right span).mono ?_
    exact fun _ _ typed hr hl hst served =>
      typed (hl hst (served.child (by simp [Source.Expr.children])))
        (hr hst (served.child (by simp [Source.Expr.children])))
  | .logical op l r _ => by
    rw [lowerExpr]
    refine .bind (lowerExpr_yields valid hd placed kind l) fun left => ?_
    refine .bind (asCondition_yields left _) fun leftCode => ?_
    refine .bind (lowerExpr_yields valid hd placed kind r) fun right => ?_
    refine .bind (asCondition_yields right _) fun rightCode => ?_
    have typed : ∀ st : BodyState, (right.2.Proper → rightCode = right.1 ∧ right.2 = .boolean) →
        (st.Scoped → W.Served n kind st r → W.Typed n st right) →
        (left.2.Proper → leftCode = left.1 ∧ left.2 = .boolean) →
        (st.Scoped → W.Served n kind st l → W.Typed n st left) → st.Scoped →
        W.Served n kind st (.logical op l r ‹_›) →
        W.Evaluates n st.scopes.flatten leftCode left.2 ∧
          W.Evaluates n st.scopes.flatten rightCode right.2 := by
      intro st hrc hr hlc hl hst served
      have hl := hl hst (served.child (by simp [Source.Expr.children]))
      have hr := hr hst (served.child (by simp [Source.Expr.children]))
      obtain ⟨rfl, _⟩ := hlc hl.1
      obtain ⟨rfl, _⟩ := hrc hr.1
      exact ⟨hl.2, hr.2⟩
    cases op with
    | and =>
      refine .pure fun st hrc hr hlc hl hst served => ⟨trivial, ?_⟩
      obtain ⟨left, right⟩ := typed st hrc hr hlc hl hst served
      exact left.and right
    | or =>
      refine .pure fun st hrc hr hlc hl hst served => ⟨trivial, ?_⟩
      obtain ⟨left, right⟩ := typed st hrc hr hlc hl hst served
      exact left.or right
  | .assign op target value span => by
    rw [lowerExpr]
    refine .bind (targetPlace?_yields placed kind target) fun found => ?_
    refine .bind (lowerExpr_yields valid hd placed kind value) fun lowered => ?_
    cases found with
    | none => exact .pure fun _ _ ⟨_, none_, _⟩ => nomatch none_
    | some place =>
      refine (lowerStore_yields valid hd op place lowered span _).mono ?_
      rintro _ _ stored hvalue ⟨place', same, hplace⟩ hst served
      cases same
      exact stored hst hplace (hvalue hst (served.child (by simp [Source.Expr.children])))
  | .conditional c t e _ => by
    rw [lowerExpr]
    refine .bind (lowerExpr_yields valid hd placed kind c) fun condition => ?_
    refine .bind (asCondition_yields condition _) fun conditionCode => ?_
    refine .bind (lowerExpr_yields valid hd placed kind t) fun thenBranch => ?_
    refine .bind (lowerExpr_yields valid hd placed kind e) fun elseBranch => ?_
    refine .bind (joinBranches_yields (W := W) (n := n) thenBranch elseBranch _) fun joined => ?_
    refine .pure fun _ hjoined he ht hcc hc hst served => ?_
    have hc := hc hst (served.child (by simp [Source.Expr.children]))
    have ht := ht hst (served.child (by simp [Source.Expr.children]))
    have he := he hst (served.child (by simp [Source.Expr.children]))
    obtain ⟨rfl, _⟩ := hcc hc.1
    obtain ⟨proper, hthen, helse⟩ := hjoined ht he
    exact ⟨proper, hc.2.conditional hthen helse⟩
  | .cast type e span => by
    rw [lowerExpr]
    split
    · refine .reportThen fun _ => ?_
      refine .bind (lowerExpr_yields valid hd placed kind e) fun _ => ?_
      exact .pure fun _ _ => trivial
    · refine .bind (lowerExpr_yields valid hd placed kind e) fun operand => ?_
      refine (lowerCast_yields (W := W) (n := n) _ operand span _).mono ?_
      exact fun _ _ typed he hst served =>
        typed (he hst (served.child (by simp [Source.Expr.children])))

theorem lowerArgs_yields (valid : W.Valid) {d : LoadedClass} (hd : W.classes n = some d)
    (placed : W.FieldsPlaced n) (kind : BodyKind) : (es : List Source.Expr) →
    Yields (lowerArgs (W.context n) kind es) (fun st args =>
      st.Scoped → (∀ e ∈ es, W.Served n kind st e) → ∀ a ∈ args, W.Typed n st (a.code, a.type))
  | [] => by
    rw [lowerArgs]
    exact .pure fun _ _ _ a member => nomatch member
  | e :: es => by
    rw [lowerArgs]
    refine .bind (lowerExpr_yields valid hd placed kind e) fun lowered => ?_
    refine .bind (lowerArgs_yields valid hd placed kind es) fun args => ?_
    refine .pure fun _ hargs he hst served a member => ?_
    rcases List.mem_cons.1 member with rfl | member
    · exact he hst (served e List.mem_cons_self)
    · exact hargs hst (fun e' later => served e' (List.mem_cons_of_mem _ later)) a member

end

section Expressions

variable (valid : W.Valid) {d : LoadedClass} (hd : W.classes n = some d)
  (placed : W.FieldsPlaced n) (kind : BodyKind)

include valid hd placed

theorem lowerAs_yields (e : Source.Expr) (target : TypeRef) :
    Yields (lowerAs (W.context n) kind e target) (fun st code => st.Scoped →
      W.Served n kind st e → W.Evaluates n st.scopes.flatten code (.of target)) := by
  unfold lowerAs
  refine .bind (lowerExpr_yields valid hd placed kind e) fun lowered => ?_
  refine (coerce_yields valid hd lowered.1 lowered.2 target _).mono ?_
  intro _ _ fitted he hst served
  obtain ⟨novoid, hcode⟩ := fitted (he hst served)
  exact hcode.evaluates novoid

theorem lowerCondition_yields (e : Source.Expr) :
    Yields (lowerCondition (W.context n) kind e) (fun st code => st.Scoped →
      W.Served n kind st e → ∃ type, W.Evaluates n st.scopes.flatten code type) := by
  unfold lowerCondition
  refine .bind (lowerExpr_yields valid hd placed kind e) fun lowered => ?_
  refine (asCondition_yields lowered _).mono fun _ _ same he hst served => ?_
  have typed := he hst served
  obtain ⟨rfl, _⟩ := same typed.1
  exact ⟨_, typed.2⟩

end Expressions

/-! ### Statements -/

/-- The statements keep everything typed from where the first variables are in scope. If control
passes them, which takes `passable`, the variables `after` hold what they should. -/
def Executes (W : World) (n : Nat) (vars : Vars) (body : List Code.Stmt) (after : Vars)
    (passable : Prop) : Prop :=
  ∀ calls frame, calls.Sound W → W.FrameOf n frame →
    Body.Keeps W vars (execAll calls frame body) fun flow locals => W.Holding vars locals ∧
      match flow with
      | .normal => W.Holding after locals ∧ passable
      | .returned v => W.Knows v

variable {vars after : Vars} {passable : Prop}

theorem executes_nil : W.Executes n vars [] vars True := fun _ _ _ _ _ held =>
  .pure ⟨held, held, trivial⟩

theorem execAll_append (calls : Calls) (frame : Frame) (body body' : List Code.Stmt) :
    execAll calls frame (body ++ body') = (do
      match ← execAll calls frame body with
      | .normal => execAll calls frame body'
      | .returned v => return .returned v) := by
  induction body with
  | nil => rw [List.nil_append, execAll, pure_bind]
  | cons s ss ih =>
    rw [List.cons_append, execAll, execAll, bind_assoc]
    refine congrArg _ (funext fun flow => ?_)
    cases flow with
    | normal => exact ih
    | returned v => rw [pure_bind]

theorem Executes.append {body body' : List Code.Stmt} {last : Vars} {passable' : Prop}
    (h : W.Executes n vars body after passable)
    (rest : W.Executes n after body' last passable') (more : ∀ x ∈ vars, x ∈ after) :
    W.Executes n vars (body ++ body') last (passable ∧ passable') := by
  intro calls frame sound hframe
  rw [execAll_append]
  refine (h calls frame sound hframe).bind fun flow locals => ?_
  cases flow with
  | normal =>
    rintro ⟨_, held, passed⟩
    refine (rest calls frame sound hframe locals held).mono ?_
    rintro ⟨flow, locals'⟩ ⟨held', ended⟩
    refine ⟨held'.subset more, ?_⟩
    cases flow with
    | normal => exact ⟨ended.1, passed, ended.2⟩
    | returned v => exact ended
  | returned v => exact fun ⟨held, known⟩ => .pure ⟨held, known⟩

/-- A single statement. -/
theorem executes_single {s : Code.Stmt} (h : ∀ calls frame, calls.Sound W →
    W.FrameOf n frame → Body.Keeps W vars (exec calls frame s) fun flow locals =>
      W.Holding vars locals ∧
        match flow with
        | .normal => W.Holding after locals ∧ passable
        | .returned v => W.Knows v) : W.Executes n vars [s] after passable := by
  intro calls frame sound hframe
  rw [execAll]
  refine (h calls frame sound hframe).bind fun flow locals => ?_
  cases flow with
  | normal =>
    intro ended
    rw [execAll]
    exact .pure ended
  | returned v => exact fun ended => .pure ended

theorem Executes.weaken {body : List Code.Stmt} {after' : Vars} {passable' : Prop}
    (h : W.Executes n vars body after passable) (fewer : ∀ x ∈ after', x ∈ after)
    (passes : passable → passable') : W.Executes n vars body after' passable' := by
  intro calls frame sound hframe
  refine (h calls frame sound hframe).mono fun flow locals => ?_
  rintro ⟨held, ended⟩
  refine ⟨held, ?_⟩
  cases flow with
  | normal => exact ⟨ended.1.subset fewer, passes ended.2⟩
  | returned v => exact ended

theorem executes_expr {code : Code.Expr} {type : StaticType}
    (h : W.Evaluates n vars code type) : W.Executes n vars [.expr code] vars True := by
  refine executes_single fun calls frame sound hframe => ?_
  rw [exec]
  exact Body.Keeps.bind (h calls frame sound hframe) fun v locals conforms =>
    .pure ⟨conforms.1, conforms.1, trivial⟩

/-- A declaration puts a value of the type of the variable into its new slot. -/
theorem executes_declare {code : Code.Expr} (name : String) {slot : Nat} {t : TypeRef}
    (novoid : t ≠ .void) (h : W.Evaluates n vars code (.of t))
    (free : ∀ x ∈ vars, x.2.slot ≠ slot) :
    W.Executes n vars [.expr (.storeVar slot code)] ((name, ⟨slot, t⟩) :: vars) True := by
  refine executes_single fun calls frame sound hframe => ?_
  rw [exec, eval, bind_assoc]
  refine Body.Keeps.bind (h calls frame sound hframe) ?_
  rintro v locals ⟨held, known, holds⟩
  rw [bind_assoc]
  have stored := Body.Gives.writeVar frame slot known
    fun x hx same => absurd same (free x hx)
  refine (stored locals held).bind ?_
  rintro ⟨_, locals⟩ ⟨held, at_⟩
  refine .pure ⟨held, ⟨held.known, ?_⟩, trivial⟩
  intro x hx
  rcases List.mem_cons.1 hx with rfl | hx
  · exact ⟨v, at_, (StaticType.holds_of_iff novoid).1 holds⟩
  · exact held.typed x hx

theorem executes_ret_none : W.Executes n vars [.ret none] after False := by
  refine executes_single fun calls frame _ _ => ?_
  rw [exec]
  exact fun _ held => .pure ⟨held, trivial⟩

theorem executes_ret {code : Code.Expr} {type : StaticType} (h : W.Evaluates n vars code type) :
    W.Executes n vars [.ret (some code)] after False := by
  refine executes_single fun calls frame sound hframe => ?_
  rw [exec]
  exact Body.Keeps.bind (h calls frame sound hframe) fun v locals conforms =>
    .pure ⟨conforms.1, conforms.2.1⟩

theorem executes_throw {code : Code.Expr} {type : StaticType} (h : W.Evaluates n vars code type) :
    W.Executes n vars [.throw code] after False := by
  refine executes_single fun calls frame sound hframe => ?_
  rw [exec]
  exact Body.Keeps.bind (h calls frame sound hframe) fun v locals conforms =>
    Body.Keeps.failAt conforms.2.1

theorem Executes.block {body : List Code.Stmt} (h : W.Executes n vars body after passable) :
    W.Executes n vars [.block body] after passable :=
  executes_single fun calls frame sound hframe => by
    rw [exec]
    exact h calls frame sound hframe

theorem Evaluates.condition {code : Code.Expr} {type : StaticType}
    (h : W.Evaluates n vars code type) {calls : Calls} {frame : Frame}
    (sound : calls.Sound W) (hframe : W.FrameOf n frame) :
    Body.Gives W vars (evalCondition calls frame code) (fun _ => True) :=
  (h calls frame sound hframe).bind fun _ _ => Body.Gives.truth.mono fun _ _ => trivial

theorem executes_cond {condition : Code.Expr} {type : StaticType}
    {thenCode elseCode : List Code.Stmt} {passable' : Prop} (hc : W.Evaluates n vars condition type)
    (ht : W.Executes n vars thenCode vars passable)
    (he : W.Executes n vars elseCode vars passable') :
    W.Executes n vars [.cond condition thenCode elseCode] vars (passable ∨ passable') := by
  refine executes_single fun calls frame sound hframe => ?_
  rw [exec]
  refine Body.Keeps.bind (hc.condition sound hframe) fun b locals conforms => ?_
  cases b with
  | true => exact (ht.weaken (fun _ hx => hx) .inl) calls frame sound hframe locals conforms.1
  | false => exact (he.weaken (fun _ hx => hx) .inr) calls frame sound hframe locals conforms.1

/-- Control passes a loop only where its condition may be false. -/
theorem executes_loop {condition : Code.Expr} {type : StaticType} {body : List Code.Stmt}
    (hc : W.Evaluates n vars condition type) (hbody : W.Executes n vars body vars passable) :
    W.Executes n vars [.loop condition body] vars (condition ≠ .const (.bool true)) := by
  refine executes_single fun calls frame sound hframe => ?_
  rw [exec]
  have tested : Body.Gives W vars (evalCondition calls frame condition)
      (fun b => condition = .const (.bool true) → b = true) := by
    by_cases forever : condition = .const (.bool true)
    · subst forever
      rw [evalCondition, eval, pure_bind]
      exact Body.Gives.pure fun _ => rfl
    · exact (hc.condition sound hframe).mono fun _ _ is => absurd is forever
  have once : Body.Keeps W vars (execAll calls frame body) fun flow locals =>
      W.Holding vars locals ∧ ∀ v, flow = .returned v → W.Knows v := by
    refine (hbody calls frame sound hframe).mono ?_
    rintro flow locals ⟨held, ended⟩
    refine ⟨held, ?_⟩
    rintro v rfl
    exact ended
  refine Body.Keeps.mono (Body.Gives.loop tested once calls.rounds) ?_
  rintro flow locals ⟨held, ended⟩
  refine ⟨held, ?_⟩
  cases flow with
  | normal => exact ⟨held, fun forever => Bool.false_ne_true (ended forever)⟩
  | returned v => exact ended

end Classwright.World

namespace Classwright.Check

/-- New variables come into the innermost scope only, with slots of their own. -/
structure BodyState.Grows (st st' : BodyState) : Prop where
  next : st.nextSlot ≤ st'.nextSlot
  outer : st'.scopes.drop 1 = st.scopes.drop 1
  vars : ∃ new, st'.scopes.flatten = new ++ st.scopes.flatten

namespace BodyState

theorem Grows.refl (st : BodyState) : st.Grows st := ⟨Nat.le_refl _, rfl, [], rfl⟩

theorem Grows.trans {st st' st'' : BodyState} (first : st.Grows st') (second : st'.Grows st'') :
    st.Grows st'' := by
  obtain ⟨new, hnew⟩ := first.vars
  obtain ⟨newer, hnewer⟩ := second.vars
  refine ⟨Nat.le_trans first.next second.next, second.outer.trans first.outer, newer ++ new, ?_⟩
  rw [hnewer, hnew, List.append_assoc]

theorem Grows.mem {st st' : BodyState} (h : st.Grows st') :
    ∀ x ∈ st.scopes.flatten, x ∈ st'.scopes.flatten := by
  obtain ⟨new, hnew⟩ := h.vars
  intro x hx
  rw [hnew]
  exact List.mem_append_right new hx

/-- The state in which `name` is a variable of the innermost scope, with the next slot. -/
def declaring (name : String) (t : TypeRef) (st : BodyState) : BodyState :=
  { st with
    scopes := match st.scopes with
      | [] => []
      | scope :: outer => ((name, ⟨st.nextSlot, t⟩) :: scope) :: outer
    nextSlot := st.nextSlot + 1 }

theorem mem_declaring {name : String} {t : TypeRef} {st : BodyState} {x : String × Variable}
    (member : x ∈ (st.declaring name t).scopes.flatten) :
    x = (name, ⟨st.nextSlot, t⟩) ∨ x ∈ st.scopes.flatten := by
  unfold declaring at member
  dsimp only at member
  split at member
  · cases member
  · rename_i open_
    rw [open_]
    exact List.mem_cons.1 member

theorem grows_declaring (name : String) (t : TypeRef) (st : BodyState) :
    st.Grows (st.declaring name t) := by
  obtain ⟨diagnostics, scopes, next⟩ := st
  cases scopes with
  | nil => exact ⟨Nat.le_succ _, rfl, [], rfl⟩
  | cons scope outer => exact ⟨Nat.le_succ _, rfl, [_], rfl⟩

end BodyState

namespace Lower

variable {α : Type}

theorem resolve_yields (cx : ClassContext) (t : Source.TypeName) :
    Yields (resolve cx t) (fun _ type => type ≠ .void) := by
  unfold resolve
  split
  · rename_i type resolved
    refine .pure fun _ => ?_
    unfold TypeScope.resolve at resolved
    split at resolved
    · cases resolved
      cases t.dims <;> simp [TypeRef.withDims]
    · split at resolved
      · cases resolved
        cases t.dims <;> simp [TypeRef.withDims]
      · cases resolved
  · exact .reportThen fun _ => .pure fun _ => trivial

/-- What is reported or not, the variable comes into the innermost scope. -/
theorem declare_binds (name : String) (t : TypeRef) (span : Span) :
    Checks (declare name t span) fun st slot st' =>
      slot = st.nextSlot ∧ st' = st.declaring name t := by
  have given : Checks (modifyGet fun s : BodyState => (s.nextSlot, s.declaring name t) : Lower Nat)
      fun st slot st' => slot = st.nextSlot ∧ st' = st.declaring name t :=
    (Checks.modifyGet fun _ => rfl).mono fun _ _ _ same => Prod.mk.inj same
  unfold declare
  refine .get fun s => ?_
  dsimp only
  split
  · exact .reportThen fun _ => given
  · exact given.mono fun _ _ _ h _ => h

/-- A new variable gets the next slot. -/
theorem declare_checks (name : String) (t : TypeRef) (span : Span) :
    Checks (declare name t span) fun st slot st' => slot = st.nextSlot ∧
      st'.nextSlot = st.nextSlot + 1 ∧ st.Grows st' ∧
      (∀ x ∈ st'.scopes.flatten, x = (name, ⟨slot, t⟩) ∨ x ∈ st.scopes.flatten) ∧
      (t ≠ .void → st.Scoped → st'.Scoped) := by
  refine (declare_binds name t span).mono ?_
  rintro st _ _ ⟨rfl, rfl⟩
  refine ⟨rfl, rfl, st.grows_declaring name t, fun _ => BodyState.mem_declaring,
    fun novoid hst => ⟨?_, ?_, ?_⟩⟩
  · intro x hx
    rcases BodyState.mem_declaring hx with rfl | hx
    · exact novoid
    · exact hst.novoid x hx
  · intro x hx
    rcases BodyState.mem_declaring hx with rfl | hx
    · exact Nat.lt_succ_self _
    · exact Nat.lt_succ_of_lt (hst.inside x hx)
  · intro x hx y hy same
    rcases BodyState.mem_declaring hx with rfl | hx
    · rcases BodyState.mem_declaring hy with rfl | hy
      · rfl
      · exact absurd same.symm (Nat.ne_of_lt (hst.inside y hy))
    · rcases BodyState.mem_declaring hy with rfl | hy
      · exact absurd same (Nat.ne_of_lt (hst.inside x hx))
      · exact hst.distinct x hx y hy same

/-- A scope of its own leaves the variables as they were, and fewer free slots. -/
theorem Checks.inScope {body : Lower α} {Q : BodyState → α → Vars → Prop}
    (h : Checks body fun st a st' => st.Scoped →
      st'.Scoped ∧ st.Grows st' ∧ Q st a st'.scopes.flatten) :
    Checks (inScope body) fun st a st' => st.Scoped → st'.Scoped ∧ st.nextSlot ≤ st'.nextSlot ∧
      st'.scopes = st.scopes ∧ ∃ inner, (∀ x ∈ st.scopes.flatten, x ∈ inner) ∧
        Q st.opened a inner := by
  intro st clean
  obtain ⟨start, ended⟩ := h st.opened clean
  refine ⟨start, fun hst => ?_⟩
  obtain ⟨hst', grows, hq⟩ := ended ⟨hst.novoid, hst.inside, hst.distinct⟩
  have same : ((Lower.inScope body) st).2.scopes = st.scopes := grows.outer
  refine ⟨?_, grows.next, same, _, grows.mem, hq⟩
  refine ⟨?_, ?_, ?_⟩
  · rw [same]
    exact hst.novoid
  · rw [same]
    exact fun x hx => Nat.lt_of_lt_of_le (hst.inside x hx) grows.next
  · rw [same]
    exact hst.distinct

end Lower

end Classwright.Check

namespace Classwright.World

open Check Check.Lower

variable {W : World} {n : Nat}

/-- The calls in the expressions of the statements serve where these stand. -/
def AllServed (W : World) (n : Nat) (sites : List (Site Source.Stmt)) : Prop :=
  ∀ site ∈ sites, ∀ e ∈ site.node.exprs, W.Served n site.kind site.scope e

theorem AllServed.direct {kind : BodyKind} {st : BodyState} {s : Source.Stmt}
    (served : W.AllServed n (sitesOf (W.context n) kind s st)) {e : Source.Expr}
    (member : e ∈ s.exprs) : W.Served n kind st e :=
  served _ List.mem_cons_self e member

theorem AllServed.inner {kind : BodyKind} {st : BodyState} {s : Source.Stmt}
    (served : W.AllServed n (sitesOf (W.context n) kind s st)) :
    W.AllServed n (innerSites (W.context n) kind s st) :=
  fun site member => served site (List.mem_cons_of_mem _ member)

theorem allServed_append {sites sites' : List (Site Source.Stmt)} :
    W.AllServed n (sites ++ sites') ↔ W.AllServed n sites ∧ W.AllServed n sites' :=
  List.forall_mem_append

/-- The lowering of a part of a body with these sites, whose end can be reached only if
`passable`. -/
def Lowers (W : World) (n : Nat) (sites : BodyState → List (Site Source.Stmt))
    (body : Lower (List Code.Stmt)) (passable : Prop) : Prop :=
  Checks body fun st code st' => st.Scoped → st'.Scoped ∧ st.Grows st' ∧
    (W.AllServed n (sites st) → W.Executes n st.scopes.flatten code st'.scopes.flatten passable)

variable {sites : BodyState → List (Site Source.Stmt)}

theorem Lowers.of_yields {body : Lower (List Code.Stmt)} {passable : Prop}
    (h : Yields body fun st code => st.Scoped → W.AllServed n (sites st) →
      W.Executes n st.scopes.flatten code st.scopes.flatten passable) :
    W.Lowers n sites body passable := by
  refine Checks.mono h ?_
  rintro st code st' ⟨rfl, executes⟩ hst
  exact ⟨hst, .refl st', executes hst⟩

theorem Lowers.weaken {body : Lower (List Code.Stmt)} {passable passable' : Prop}
    (h : W.Lowers n sites body passable) (passes : passable → passable') :
    W.Lowers n sites body passable' := by
  refine Checks.mono h fun st code st' h hst => ?_
  obtain ⟨hst', grows, executes⟩ := h hst
  exact ⟨hst', grows, fun served => (executes served).weaken (fun _ hx => hx) passes⟩

theorem Lowers.inScope {body : Lower (List Code.Stmt)} {passable : Prop}
    (h : W.Lowers n sites body passable) :
    Checks (inScope body) fun st code st' => st.Scoped → st'.Scoped ∧ st.Grows st' ∧
      st'.scopes = st.scopes ∧ (W.AllServed n (sites st.opened) →
        W.Executes n st.scopes.flatten code st.scopes.flatten passable) := by
  refine (Checks.inScope (Q := fun st code inner => W.AllServed n (sites st) →
    W.Executes n st.scopes.flatten code inner passable) h).mono fun st code st' hst' hst => ?_
  obtain ⟨hst', next, same, inner, more, executes⟩ := hst' hst
  refine ⟨hst', ⟨next, by rw [same], [], by rw [same]; rfl⟩, same, fun served => ?_⟩
  exact (executes served).weaken more id

/-- Only a loop whose condition is written `true` does not complete. -/
theorem literal_of_not_completes {condition : Source.Expr} {body : Source.Stmt} {span : Span}
    (forever : completes (.loop condition body span) ≠ true) :
    ∃ span, condition = .literal (.bool true) span := by
  unfold completes at forever
  split at forever
  all_goals rename_i shape
  all_goals first
    | exact absurd rfl forever
    | (cases shape; exact ⟨_, rfl⟩)
    | cases shape

section Statements

variable (valid : W.Valid) {d : LoadedClass} (hd : W.classes n = some d)
  (placed : W.FieldsPlaced n) (kind : BodyKind)

include valid hd placed

/-- A return ends a body, with a value of any type. -/
theorem lowerReturn_lowers (value : Option Source.Expr) (span : Span) :
    W.Lowers n (sitesOf (W.context n) kind (.ret value span))
      (do return [.ret (← lowerReturn (W.context n) kind value span)]) False := by
  have lowered : Yields (lowerReturn (W.context n) kind value span) (fun st code => st.Scoped →
      (∀ e, value = some e → W.Served n kind st e) →
        ∃ type, ∀ c, code = some c → W.Evaluates n st.scopes.flatten c type) := by
    unfold lowerReturn
    split
    · exact .reportThen fun _ => .pure fun _ => trivial
    · exact .pure fun _ _ _ => ⟨.void, fun c none_ => nomatch none_⟩
    · exact .reportThen fun _ => .pure fun _ => trivial
    · rename_i type e _
      refine .bind (lowerAs_yields valid hd placed _ e type) fun code => ?_
      refine .pure fun _ typed hst served => ⟨.of type, ?_⟩
      rintro c ⟨⟩
      exact typed hst (served e rfl)
    · exact .reportThen fun _ => .pure fun _ => trivial
    · exact .pure fun _ _ _ => ⟨.void, fun c none_ => nomatch none_⟩
  refine .of_yields (.bind lowered fun code => .pure fun _ typed hst served => ?_)
  obtain ⟨type, typed⟩ := typed hst fun e same => served.direct (Option.mem_toList.2 same)
  cases code with
  | none => exact executes_ret_none
  | some c => exact executes_ret (typed c rfl)

/-- A condition that is written `true` is the constant. -/
theorem lowerCondition_forever (e : Source.Expr) :
    Yields (lowerCondition (W.context n) kind e) fun _ code =>
      ∀ span, e = .literal (.bool true) span → code = .const (.bool true) := by
  by_cases forever : ∃ span, e = .literal (.bool true) span
  · obtain ⟨span, rfl⟩ := forever
    rw [lowerCondition, lowerExpr, pure_bind]
    exact .pure fun _ _ _ => rfl
  · refine (lowerCondition_yields valid hd placed kind e).mono fun _ _ _ span is => ?_
    exact absurd ⟨span, is⟩ forever

omit valid hd placed in
/-- A declared variable holds a value of its type from then on. -/
theorem declare_lowers {served : BodyState → Prop} {value : Lower Code.Expr} {t : TypeRef}
    (typed : Yields value fun st code => t ≠ .void → st.Scoped → served st →
      W.Evaluates n st.scopes.flatten code (.of t)) (name : String) (span : Span) :
    Checks (do
        let value ← value
        let slot ← declare name t span
        return [Code.Stmt.expr (.storeVar slot value)])
      fun st code st' => t ≠ .void → st.Scoped → st'.Scoped ∧ st.Grows st' ∧ (served st →
        W.Executes n st.scopes.flatten code st'.scopes.flatten True) := by
  have declared : ∀ value, Checks
      (do
        let slot ← declare name t span
        return [Code.Stmt.expr (.storeVar slot value)])
      fun st code st' => code = [.expr (.storeVar st.nextSlot value)] ∧ st.Grows st' ∧
        (∀ x ∈ st'.scopes.flatten,
          x = (name, ⟨st.nextSlot, t⟩) ∨ x ∈ st.scopes.flatten) ∧
        (t ≠ .void → st.Scoped → st'.Scoped) := by
    intro value
    refine Checks.bind (declare_checks name t span) (fun slot => Checks.pure _) ?_
    rintro st slot st' code st'' ⟨rfl, _, h⟩ ⟨rfl, rfl⟩
    exact ⟨rfl, h⟩
  refine Checks.bind typed declared ?_
  rintro st value st' code st'' ⟨rfl, typed⟩ ⟨rfl, grows, more, kept⟩ novoid hst
  refine ⟨kept novoid hst, grows, fun served => ?_⟩
  have free : ∀ x ∈ st'.scopes.flatten, x.2.slot ≠ st'.nextSlot := fun x hx =>
    Nat.ne_of_lt (hst.inside x hx)
  refine (executes_declare name novoid (typed novoid hst served) free).weaken ?_ id
  intro x hx
  exact List.mem_cons.2 (more x hx)

end Statements

mutual

/-- A statement that is not reported is typed, and passed only if it completes. -/
theorem lowerStmt_lowers (valid : W.Valid) {d : LoadedClass} (hd : W.classes n = some d)
    (placed : W.FieldsPlaced n) (kind : BodyKind) : (s : Source.Stmt) →
    W.Lowers n (sitesOf (W.context n) kind s) (lowerStmt (W.context n) kind s)
      (completes s = true)
  | .block body _ => by
    rw [lowerStmt]
    have inner := (lowerStmts_lowers valid hd placed kind body).inScope
    refine (Checks.seq inner fun code => Checks.pure _).mono ?_
    rintro st _ _ ⟨code, st', inner, rfl, rfl⟩ hst
    obtain ⟨hst', grows, same, executes⟩ := inner hst
    rw [same]
    refine ⟨hst', grows, fun served => ?_⟩
    exact (executes served.inner).block.weaken (fun _ hx => hx) (by rw [completes]; exact id)
  | .empty _ => by
    rw [lowerStmt]
    exact .of_yields (.pure fun _ _ _ => executes_nil.weaken (fun _ hx => hx) fun _ => rfl)
  | .expr e => by
    rw [lowerStmt]
    refine .of_yields (.bind (lowerExpr_yields valid hd placed kind e) fun lowered => ?_)
    refine .pure fun _ typed hst served => ?_
    have typed := typed hst (served.direct List.mem_cons_self)
    exact (executes_expr typed.2).weaken (fun _ hx => hx) fun _ => rfl
  | .declare type name init span => by
    rw [lowerStmt]
    refine (Checks.seq (resolve_yields (W.context n) type) fun t => (?_ : Checks _
      fun st code st' => t ≠ .void → st.Scoped → st'.Scoped ∧ st.Grows st' ∧
        ((∀ e, init = some e → W.Served n kind st e) →
          W.Executes n st.scopes.flatten code st'.scopes.flatten True))).mono ?_
    · cases init with
      | none =>
        refine declare_lowers (.pure fun _ novoid _ _ => ?_) name span
        exact evaluates_defaultCode novoid
      | some e =>
        refine declare_lowers ((lowerAs_yields valid hd placed kind e t).mono ?_) name span
        exact fun _ _ typed _ hst served => typed hst (served e rfl)
    · rintro st code st'' ⟨t, st', ⟨rfl, novoid⟩, lowered⟩ hst
      obtain ⟨hst', grows, executes⟩ := lowered novoid hst
      refine ⟨hst', grows, fun served => ?_⟩
      have executes := executes fun e same => served.direct (Option.mem_toList.2 same)
      exact executes.weaken (fun _ hx => hx) fun _ => rfl
  | .ret value span => by
    rw [lowerStmt]
    exact (lowerReturn_lowers valid hd placed kind value span).weaken False.elim
  | .ifThen c t _ => by
    rw [lowerStmt]
    have inner := (lowerStmt_lowers valid hd placed kind t).inScope
    refine (Checks.seq (lowerCondition_yields valid hd placed kind c) fun condition =>
      Checks.seq inner fun thenCode => Checks.pure _).mono ?_
    rintro st _ _ ⟨condition, st', ⟨rfl, hc⟩, thenCode, _, ht, rfl, rfl⟩ hst
    obtain ⟨hst', grows, same, ht⟩ := ht hst
    refine ⟨hst', grows, fun served => ?_⟩
    obtain ⟨type, hc⟩ := hc hst (served.direct List.mem_cons_self)
    rw [same]
    exact (executes_cond hc (ht served.inner) executes_nil).weaken (fun _ hx => hx) fun _ => rfl
  | .ifElse c t e _ => by
    rw [lowerStmt]
    have first := (lowerStmt_lowers valid hd placed kind t).inScope
    have second := (lowerStmt_lowers valid hd placed kind e).inScope
    refine (Checks.seq (lowerCondition_yields valid hd placed kind c) fun condition =>
      Checks.seq first.exact fun thenCode => Checks.seq second fun elseCode => Checks.pure _).mono
        ?_
    rintro st _ _ ⟨condition, st', ⟨rfl, hc⟩, thenCode, _, ⟨ht, rfl⟩, elseCode, _, he, rfl, rfl⟩
      hst
    obtain ⟨hst₁, grows, same, ht⟩ := ht hst
    obtain ⟨hst₂, grows', same', he⟩ := he hst₁
    refine ⟨hst₂, grows.trans grows', fun served => ?_⟩
    obtain ⟨type, hc⟩ := hc hst (served.direct List.mem_cons_self)
    obtain ⟨inThen, inElse⟩ := allServed_append.1 served.inner
    have ht := ht inThen
    have he := he inElse
    rw [same] at he
    rw [same', same]
    refine (executes_cond hc ht he).weaken (fun _ hx => hx) ?_
    rw [completes, Bool.or_eq_true]
    exact id
  | .loop c b _ => by
    rw [lowerStmt]
    have inner := (lowerStmt_lowers valid hd placed kind b).inScope
    refine (Checks.seq ((lowerCondition_yields valid hd placed kind c).and
      (lowerCondition_forever valid hd placed kind c)) fun condition =>
        Checks.seq inner fun body => Checks.pure _).mono ?_
    rintro st _ _ ⟨condition, st', ⟨rfl, hc, forever⟩, body, _, hb, rfl, rfl⟩ hst
    obtain ⟨hst', grows, same, hb⟩ := hb hst
    refine ⟨hst', grows, fun served => ?_⟩
    obtain ⟨type, hc⟩ := hc hst (served.direct List.mem_cons_self)
    rw [same]
    refine (executes_loop hc (hb served.inner)).weaken (fun _ hx => hx) fun passed => ?_
    by_contra stuck
    obtain ⟨span, is⟩ := literal_of_not_completes stuck
    exact passed (forever span is)
  | .throw e span => by
    rw [lowerStmt]
    refine .of_yields (.bind (lowerExpr_yields valid hd placed kind e) fun lowered => ?_)
    dsimp only
    split
    · exact .reportThen fun _ => .pure fun _ => trivial
    · refine .pure fun _ typed hst served => ?_
      have typed := typed hst (served.direct List.mem_cons_self)
      exact (executes_throw typed.2).weaken (fun _ hx => hx) False.elim

theorem lowerStmts_lowers (valid : W.Valid) {d : LoadedClass} (hd : W.classes n = some d)
    (placed : W.FieldsPlaced n) (kind : BodyKind) : (ss : List Source.Stmt) →
    W.Lowers n (allSites (W.context n) kind ss) (lowerStmts (W.context n) kind ss)
      (allComplete ss = true)
  | [] => by
    rw [lowerStmts]
    exact .of_yields (.pure fun _ _ _ => executes_nil.weaken (fun _ hx => hx) fun _ => rfl)
  | s :: ss => by
    rw [lowerStmts]
    have others := lowerStmts_lowers valid hd placed kind ss
    refine (Checks.seq (lowerStmt_lowers valid hd placed kind s).exact fun code =>
      Checks.seq others fun codes => Checks.pure _).mono ?_
    rintro st _ _ ⟨code, _, ⟨hs, rfl⟩, codes, _, hss, rfl, rfl⟩ hst
    obtain ⟨hst₁, grows, executes⟩ := hs hst
    obtain ⟨hst₂, grows', executes'⟩ := hss hst₁
    refine ⟨hst₂, grows.trans grows', fun served => ?_⟩
    obtain ⟨first, rest⟩ := allServed_append.1 served
    refine ((executes first).append (executes' rest) grows.mem).weaken (fun _ hx => hx) ?_
    rw [allComplete, Bool.and_eq_true]
    exact id

end

end Classwright.World
