import Classwright.Machine.Invoke
import Classwright.Proofs.Conformance
import Classwright.Proofs.Numbering

/-!
# Methods return values of their types

Where the checker says that control cannot reach the end of a body, it does not: whenever the body
ends without a failure it has run into a `return`. In a method with a return type every `return`
gives a value, so that such a method never ends without one.
-/

namespace Classwright

open Check Check.Lower

/-! ### How statements end -/

namespace Code

mutual

/-- Whether control may reach the end of a statement. -/
def Stmt.passes : Stmt → Bool
  | .ret _ | .throw _ => false
  | .block body => Stmt.allPass body
  | .cond _ t e => Stmt.allPass t || Stmt.allPass e
  | .loop (.const (.bool true)) _ => false
  | .expr _ | .loop _ _ => true

def Stmt.allPass : List Stmt → Bool
  | [] => true
  | s :: ss => s.passes && Stmt.allPass ss

end

mutual

/-- What the returns in a statement give. -/
def Stmt.returns : Stmt → List (Option Expr)
  | .ret value => [value]
  | .block body | .loop _ body => Stmt.allReturns body
  | .cond _ t e => Stmt.allReturns t ++ Stmt.allReturns e
  | .expr _ | .throw _ => []

def Stmt.allReturns : List Stmt → List (Option Expr)
  | [] => []
  | s :: ss => s.returns ++ Stmt.allReturns ss

end

end Code

namespace Body

variable {α β : Type}

/-- A body that does not stop has its parts end one behind the other. -/
theorem bind_ok {body : Body α} {next : α → Body β} {locals locals' : List Value} {s s' : Store}
    {b : β} (h : (body >>= next) locals s = (.ok (b, locals'), s')) :
    ∃ a between t, body locals s = (.ok (a, between), t) ∧
      next a between t = (.ok (b, locals'), s') := by
  change (ExceptT.bindCont (fun p : α × List Value => next p.1 p.2) (body locals s).1)
    (body locals s).2 = (.ok (b, locals'), s') at h
  cases out : body locals s with
  | mk result t =>
    rw [out] at h
    cases result with
    | ok p => exact ⟨p.1, p.2, t, rfl, h⟩
    | error stop => cases h

theorem pure_ok {a b : α} {locals locals' : List Value} {s s' : Store}
    (h : (pure a : Body α) locals s = (.ok (b, locals'), s')) :
    a = b ∧ locals = locals' ∧ s = s' := by
  cases h
  exact ⟨rfl, rfl, rfl⟩

/-- A loop ends normally only where its condition has been false. -/
theorem loop_ok {condition : Body Bool} {body : Body Flow} {rounds : Nat}
    {locals locals' : List Value} {s s' : Store} {flow : Flow}
    (h : loop condition body rounds locals s = (.ok (flow, locals'), s')) :
    (flow = .normal → ∃ before t, condition before t = (.ok (false, locals'), s')) ∧
      ∀ v, flow = .returned v → ∃ before t, body before t = (.ok (.returned v, locals'), s') := by
  induction rounds generalizing locals s with
  | zero => cases h
  | succ rounds ih =>
    rw [loop_succ] at h
    obtain ⟨go, before, t, tested, h⟩ := bind_ok h
    cases go with
    | false =>
      cases h
      exact ⟨fun _ => ⟨locals, s, tested⟩, nofun⟩
    | true =>
      rw [if_pos rfl] at h
      obtain ⟨ended, between, t', ran, h⟩ := bind_ok h
      cases ended with
      | normal => exact ih h
      | returned v =>
        cases h
        refine ⟨nofun, fun w same => ?_⟩
        cases same
        exact ⟨before, t, ran⟩

end Body

section

variable (calls : Calls) (frame : Frame)

/-- How statements end: normally only if control may pass, and else with the value of one of their
returns, evaluated where they end. -/
def Ends (passes : Bool) (returns : List (Option Code.Expr)) (locals : List Value) (s : Store) :
    Flow → Prop
  | .normal => passes = true
  | .returned v => ∃ r ∈ returns, match r with
    | none => v = .null
    | some e => ∃ before t, eval calls frame e before t = (.ok (v, locals), s)

variable {calls frame}

theorem Ends.more {passes passes' : Bool} {returns returns' : List (Option Code.Expr)}
    {locals : List Value} {s : Store} {flow : Flow}
    (h : Ends calls frame passes returns locals s flow)
    (weaker : passes = true → passes' = true) (more : ∀ r ∈ returns, r ∈ returns') :
    Ends calls frame passes' returns' locals s flow := by
  cases flow with
  | normal => exact weaker h
  | returned v =>
    obtain ⟨r, member, gives⟩ := h
    exact ⟨r, more r member, gives⟩

/-- The constant is never false. -/
theorem not_false_of_true {locals locals' : List Value} {s s' : Store}
    (h : evalCondition calls frame (.const (.bool true)) locals s = (.ok (false, locals'), s')) :
    False := by
  rw [evalCondition, eval, pure_bind] at h
  obtain ⟨same, _⟩ := Body.pure_ok h
  cases same

theorem passes_loop {condition : Code.Expr} {body : List Code.Stmt}
    (h : condition ≠ .const (.bool true)) : (Code.Stmt.loop condition body).passes = true := by
  unfold Code.Stmt.passes
  split <;> simp_all

mutual

theorem exec_ends : (stmt : Code.Stmt) → {locals locals' : List Value} → {s s' : Store} →
    {flow : Flow} → exec calls frame stmt locals s = (.ok (flow, locals'), s') →
    Ends calls frame stmt.passes stmt.returns locals' s' flow
  | .expr e, locals, locals', s, s', flow, h => by
    rw [exec] at h
    obtain ⟨_, _, _, _, ended⟩ := Body.bind_ok h
    obtain ⟨rfl, _⟩ := Body.pure_ok ended
    rfl
  | .ret none, locals, locals', s, s', flow, h => by
    rw [exec] at h
    obtain ⟨rfl, _⟩ := Body.pure_ok h
    exact ⟨none, List.mem_singleton.2 rfl, rfl⟩
  | .ret (some e), locals, locals', s, s', flow, h => by
    rw [exec] at h
    obtain ⟨v, between, t, evaluated, ended⟩ := Body.bind_ok h
    obtain ⟨rfl, rfl, rfl⟩ := Body.pure_ok ended
    exact ⟨some e, List.mem_singleton.2 rfl, locals, s, evaluated⟩
  | .cond c t e, locals, locals', s, s', flow, h => by
    rw [exec] at h
    obtain ⟨b, _, _, _, ended⟩ := Body.bind_ok h
    rw [Code.Stmt.passes, Code.Stmt.returns]
    cases b with
    | true =>
      refine (execAll_ends t ended).more (fun passed => ?_) fun r => List.mem_append_left _
      rw [passed, Bool.true_or]
    | false =>
      refine (execAll_ends e ended).more (fun passed => ?_) fun r => List.mem_append_right _
      rw [passed, Bool.or_true]
  | .loop c body, locals, locals', s, s', flow, h => by
    rw [exec] at h
    obtain ⟨passed, returned⟩ := Body.loop_ok h
    cases flow with
    | normal =>
      obtain ⟨before, t, tested⟩ := passed rfl
      exact passes_loop fun forever => not_false_of_true (forever ▸ tested)
    | returned v =>
      obtain ⟨before, t, ended⟩ := returned v rfl
      rw [Code.Stmt.returns]
      exact execAll_ends body ended
  | .throw e, locals, locals', s, s', flow, h => by
    rw [exec] at h
    obtain ⟨_, _, _, _, ended⟩ := Body.bind_ok h
    cases ended
  | .block body, locals, locals', s, s', flow, h => by
    rw [exec] at h
    rw [Code.Stmt.passes, Code.Stmt.returns]
    exact execAll_ends body h

/-- Statements end normally only where control may pass them, and else with the value of a
return. -/
theorem execAll_ends : (body : List Code.Stmt) → {locals locals' : List Value} → {s s' : Store} →
    {flow : Flow} → execAll calls frame body locals s = (.ok (flow, locals'), s') →
    Ends calls frame (Code.Stmt.allPass body) (Code.Stmt.allReturns body) locals' s' flow
  | [], locals, locals', s, s', flow, h => by
    rw [execAll] at h
    obtain ⟨rfl, _⟩ := Body.pure_ok h
    rfl
  | stmt :: body, locals, locals', s, s', flow, h => by
    rw [execAll] at h
    obtain ⟨first, between, t, ended, rest⟩ := Body.bind_ok h
    have ended := exec_ends stmt ended
    rw [Code.Stmt.allPass, Code.Stmt.allReturns]
    cases first with
    | normal =>
      have passed : stmt.passes = true := ended
      refine (execAll_ends body rest).more (fun passes => ?_) fun r => List.mem_append_right _
      rw [passed, passes, Bool.and_true]
    | returned v =>
      obtain ⟨rfl, rfl, rfl⟩ := Body.pure_ok rest
      obtain ⟨r, member, gives⟩ := ended
      exact ⟨r, List.mem_append_left _ member, gives⟩

end

end

/-! ### Lowered bodies -/

namespace Code.Stmt

theorem allPass_append (ss ts : List Stmt) : allPass (ss ++ ts) = (allPass ss && allPass ts) := by
  induction ss with
  | nil => rfl
  | cons s ss ih => rw [List.cons_append, allPass, allPass, ih, Bool.and_assoc]

theorem allReturns_append (ss ts : List Stmt) :
    allReturns (ss ++ ts) = allReturns ss ++ allReturns ts := by
  induction ss with
  | nil => rfl
  | cons s ss ih => rw [List.cons_append, allReturns, allReturns, ih, List.append_assoc]

end Code.Stmt

namespace Check.Lower

variable (cx : ClassContext) (kind : BodyKind)

/-- Control passes the code only if `passable`, and its returns give values just in methods with a
return type. -/
structure EndsAs (kind : BodyKind) (passable : Bool) (code : List Code.Stmt) : Prop where
  passes : Code.Stmt.allPass code = true → passable = true
  returns : ∀ r ∈ Code.Stmt.allReturns code, ∀ t, kind = .method t → r.isNone = t.isVoid

theorem EndsAs.single {kind : BodyKind} {passable : Bool} {s : Code.Stmt}
    (passes : s.passes = true → passable = true)
    (returns : ∀ r ∈ s.returns, ∀ t, kind = .method t → r.isNone = t.isVoid) :
    EndsAs kind passable [s] where
  passes := by
    rw [Code.Stmt.allPass, Code.Stmt.allPass, Bool.and_true]
    exact passes
  returns := by
    rw [Code.Stmt.allReturns, Code.Stmt.allReturns, List.append_nil]
    exact returns

/-- What only the last step of a lowering decides. -/
theorem Checks.after {α β : Type} {body : Lower α} {next : α → Lower β}
    {P : BodyState → α → BodyState → Prop} {Q : β → Prop} (h : Checks body P)
    (hnext : ∀ a, Checks (next a) fun _ b _ => Q b) : Checks (body >>= next) fun _ b _ => Q b :=
  h.bind hnext fun _ _ _ _ _ _ last => last

/-- A scope of its own changes nothing about the code. -/
theorem Checks.inScope_code {α : Type} {body : Lower α} {P : α → Prop}
    (h : Checks body fun _ a _ => P a) : Checks (Lower.inScope body) fun _ a _ => P a := by
  intro st clean
  exact h { st with scopes := [] :: st.scopes } clean

theorem lowerReturn_isNone (value : Option Source.Expr) (span : Span) :
    Yields (lowerReturn cx kind value span) fun _ code =>
      ∀ t, kind = .method t → code.isNone = t.isVoid := by
  have nonVoid : ∀ {type : TypeRef}, type ≠ .void → type.isVoid = false := by
    intro type novoid
    cases type <;> first | rfl | exact absurd rfl novoid
  unfold lowerReturn
  split
  · exact .reportThen fun _ => .pure fun _ => trivial
  · refine .pure fun _ t same => ?_
    cases same
    rfl
  · exact .reportThen fun _ => .pure fun _ => trivial
  · rename_i type e other
    refine .bind (lowerAs_accesses cx _ e type) fun code => .pure fun _ _ t same => ?_
    cases same
    exact (nonVoid other).symm
  · exact .reportThen fun _ => .pure fun _ => trivial
  · rename_i noMethod
    refine .pure fun _ t same => ?_
    exact absurd same (noMethod t)

/-- A condition that is written `true` is the constant. -/
theorem lowerCondition_true (e : Source.Expr) : Yields (lowerCondition cx kind e) fun _ code =>
    ∀ span, e = .literal (.bool true) span → code = .const (.bool true) := by
  unfold lowerCondition
  by_cases forever : ∃ span, e = .literal (.bool true) span
  · obtain ⟨span, rfl⟩ := forever
    rw [lowerExpr, pure_bind]
    exact (asCondition_code _ _).mono fun _ _ same _ _ => same
  · refine .bind (lowerExpr_touches cx kind e) fun lowered => ?_
    exact (asCondition_code lowered _).mono fun _ _ _ _ span is => absurd ⟨span, is⟩ forever

mutual

theorem lowerStmt_ends : (s : Source.Stmt) →
    Checks (lowerStmt cx kind s) fun _ code _ => EndsAs kind (completes s) code
  | .block body _ => by
    rw [lowerStmt]
    refine (Checks.seq (lowerStmts_ends body).inScope_code fun code => Checks.pure _).mono ?_
    rintro _ _ _ ⟨code, _, ends, rfl, _⟩
    refine .single (fun passed => ?_) fun r member => ?_
    · rw [completes]
      exact ends.passes (by rwa [Code.Stmt.passes] at passed)
    · exact ends.returns r (by rwa [Code.Stmt.returns] at member)
  | .empty _ => by
    rw [lowerStmt]
    refine (Checks.pure _).mono ?_
    rintro _ _ _ ⟨rfl, _⟩
    exact ⟨fun _ => rfl, fun _ member => nomatch member⟩
  | .expr e => by
    rw [lowerStmt]
    refine Checks.after (lowerExpr_touches cx kind e) fun lowered => (Checks.pure _).mono ?_
    rintro _ _ _ ⟨rfl, _⟩
    exact .single (fun _ => rfl) fun _ member => nomatch member
  | .declare type name init span => by
    rw [lowerStmt]
    have declared : ∀ (value : Lower Code.Expr) t, Yields value (fun _ _ => True) → Checks (do
        let value ← value
        let slot ← declare name t span
        return [Code.Stmt.expr (.storeVar slot value)]) fun _ code _ => EndsAs kind true code := by
      intro value t given
      refine Checks.after given fun value => Checks.after (declare_vars name t span) fun slot =>
        (Checks.pure _).mono ?_
      rintro _ _ _ ⟨rfl, _⟩
      exact .single (fun _ => rfl) fun _ member => nomatch member
    refine Checks.after (resolve_yields cx type) fun t => ?_
    cases init with
    | none => exact declared _ t (.pure fun _ => trivial)
    | some e => exact declared _ t ((lowerAs_accesses cx kind e t).mono fun _ _ _ => trivial)
  | .ret value span => by
    rw [lowerStmt]
    refine (Checks.seq (lowerReturn_isNone cx kind value span) fun code => Checks.pure _).mono ?_
    rintro _ _ _ ⟨code, _, ⟨_, isNone⟩, rfl, _⟩
    refine .single (fun passed => nomatch passed) fun r member => ?_
    rw [List.mem_singleton.1 member]
    exact isNone
  | .ifThen c t _ => by
    rw [lowerStmt]
    refine (Checks.seq (lowerCondition_accesses cx kind c) fun condition =>
      Checks.seq (lowerStmt_ends t).inScope_code fun code => Checks.pure _).mono ?_
    rintro _ _ _ ⟨condition, _, _, code, _, ends, rfl, _⟩
    refine .single (fun _ => rfl) fun r member => ?_
    rw [Code.Stmt.returns, Code.Stmt.allReturns, List.append_nil] at member
    exact ends.returns r member
  | .ifElse c t e _ => by
    rw [lowerStmt]
    refine (Checks.seq (lowerCondition_accesses cx kind c) fun condition =>
      Checks.seq (lowerStmt_ends t).inScope_code fun thenCode =>
        Checks.seq (lowerStmt_ends e).inScope_code fun elseCode => Checks.pure _).mono ?_
    rintro _ _ _ ⟨condition, _, _, thenCode, _, first, elseCode, _, second, rfl, _⟩
    refine .single (fun passed => ?_) fun r member => ?_
    · rw [Code.Stmt.passes, Bool.or_eq_true] at passed
      rw [completes, Bool.or_eq_true]
      exact passed.imp first.passes second.passes
    · rw [Code.Stmt.returns, List.mem_append] at member
      rcases member with member | member
      · exact first.returns r member
      · exact second.returns r member
  | .loop c b _ => by
    rw [lowerStmt]
    refine (Checks.seq (lowerCondition_true cx kind c) fun condition =>
      Checks.seq (lowerStmt_ends b).inScope_code fun code => Checks.pure _).mono ?_
    rintro _ _ _ ⟨condition, _, ⟨_, forever⟩, code, _, ends, rfl, _⟩
    refine .single (fun passed => ?_) fun r member => ?_
    · by_contra stuck
      obtain ⟨span, is⟩ := World.literal_of_not_completes stuck
      rw [forever span is] at passed
      cases passed
    · exact ends.returns r (by rwa [Code.Stmt.returns] at member)
  | .throw e span => by
    rw [lowerStmt]
    refine Checks.after (lowerExpr_touches cx kind e) fun lowered => ?_
    dsimp only
    split
    · exact .reportThen fun _ => Checks.pure _
    · refine (Checks.pure _).mono ?_
      rintro _ _ _ ⟨rfl, _⟩
      exact .single (fun passed => nomatch passed) fun _ member => nomatch member

theorem lowerStmts_ends : (ss : List Source.Stmt) →
    Checks (lowerStmts cx kind ss) fun _ code _ => EndsAs kind (allComplete ss) code
  | [] => by
    rw [lowerStmts]
    refine (Checks.pure _).mono ?_
    rintro _ _ _ ⟨rfl, _⟩
    exact ⟨fun _ => rfl, fun _ member => nomatch member⟩
  | s :: ss => by
    rw [lowerStmts]
    have others := lowerStmts_ends ss
    refine (Checks.seq (lowerStmt_ends s) fun code =>
      Checks.seq others fun codes => Checks.pure _).mono ?_
    rintro _ _ _ ⟨code, _, first, codes, _, rest, rfl, _⟩
    refine ⟨fun passed => ?_, fun r member => ?_⟩
    · rw [Code.Stmt.allPass_append, Bool.and_eq_true] at passed
      rw [allComplete, first.passes passed.1, rest.passes passed.2, Bool.and_true]
    · rw [Code.Stmt.allReturns_append, List.mem_append] at member
      rcases member with member | member
      · exact first.returns r member
      · exact rest.returns r member

end

end Check.Lower

/-! ### Methods -/

namespace Run

variable {α β : Type}

theorem bind_ok {body : Run α} {next : α → Run β} {s s' : Store} {b : β}
    (h : (body >>= next) s = (.ok b, s')) :
    ∃ a t, body s = (.ok a, t) ∧ next a t = (.ok b, s') := by
  change (ExceptT.bindCont next (body s).1) (body s).2 = (.ok b, s') at h
  cases out : body s with
  | mk result t =>
    rw [out] at h
    cases result with
    | ok a => exact ⟨a, t, rfl, h⟩
    | error stop => cases h

/-- A run one call deeper leaves the depth as it was, and nothing else is changed. -/
theorem nested_ok {limit : Nat} {body : Run α} {s s' : Store} {a : α}
    (h : nested limit body s = (.ok a, s')) : ∃ start t, body start = (.ok a, t) ∧
      s'.tables = t.tables := by
  unfold nested at h
  split at h
  · cases h
  · cases out : body { s with depth := s.depth + 1 } with
    | mk result t =>
      rw [out] at h
      cases h
      exact ⟨_, t, out, rfl⟩

theorem coerce_ok {t : TypeRef} {v w : Value} {s s' : Store}
    (h : coerce t v s = (.ok w, s')) : w.isInstanceOf s'.tables t = true := by
  obtain ⟨tables, s₁, read, rest⟩ := bind_ok h
  cases read
  cases made : v.coerceTo s.tables t with
  | none =>
    rw [made] at rest
    cases rest
  | some w' =>
    rw [made] at rest
    cases rest
    exact Value.isInstanceOf_of_coerceTo made

end Run

theorem runBody_ok {calls : Calls} {frame : Frame} {locals : Nat} {args : List Value}
    {body : List Code.Stmt} {s s' : Store} {flow : Flow}
    (h : runBody calls frame locals args body s = (.ok flow, s')) :
    ∃ locals', execAll calls frame body (args ++ List.replicate (locals - args.length) .null) s
      = (.ok (flow, locals'), s') := by
  obtain ⟨p, t, ran, rest⟩ := Run.bind_ok h
  cases rest
  exact ⟨p.2, ran⟩

/-- In the code of a method, control reaches the end only where nothing is returned, and just the
returns of methods with a return type give values. -/
theorem method_ends {table : TypeTable} {unit : Source.CompilationUnit} {code : Code.Class}
    (compiled : compileUnit table unit = .ok code) {m : Code.Method} (hm : m ∈ code.methods) :
    (Code.Stmt.allPass m.body = true → m.returnType.isVoid = true) ∧
      ∀ r ∈ Code.Stmt.allReturns m.body, r.isNone = m.returnType.isVoid := by
  have accepted := accepted_of_compileUnit compiled
  rw [accepted.assembled] at hm
  simp only [assemble, List.filterMap_map, List.mem_filterMap, Function.comp] at hm
  obtain ⟨member, inMembers, isMethod⟩ := hm
  have clean := accepted.members_clean _ inMembers
  cases member with
  | field decl info => cases isMethod
  | constructor decl params => cases isMethod
  | method decl info =>
    cases isMethod
    obtain ⟨clean, returns⟩ := List.append_eq_nil_iff.1 clean
    have ends := Checks.after (World.declareParams_checks decl.params info.method.params)
      fun _ => (lowerStmts_ends (contextOf table unit) (.method info.method.returnType)
        decl.body.statements).inScope_code
    obtain ⟨_, ends⟩ := ends {} clean
    refine ⟨fun passed => ?_, fun r member => ends.returns r member _ rfl⟩
    by_contra value
    rw [Bool.not_eq_true] at value
    simp [ends.passes passed, value, reportIf] at returns

/-- A method with a return type ends with the value of one of its returns, and never otherwise; a
call of it gives an instance of the type. A call of a `void` method gives `null` whenever its body
ends. -/
theorem methods_return {table : TypeTable} {unit : Source.CompilationUnit} {code : Code.Class}
    (compiled : compileUnit table unit = .ok code) {m : Code.Method} (hm : m ∈ code.methods) :
    (m.returnType ≠ .void → ∀ calls frame locals s flow locals' s',
      execAll calls frame m.body locals s = (.ok (flow, locals'), s') →
        ∃ e v before t, flow = .returned v ∧ some e ∈ Code.Stmt.allReturns m.body ∧
          eval calls frame e before t = (.ok (v, locals'), s')) ∧
    (m.returnType ≠ .void → ∀ calls o args s v s', callMethod calls o m args s = (.ok v, s') →
      v.isInstanceOf s'.tables m.returnType = true) ∧
    (m.returnType = .void → ∀ calls o args,
      callMethod calls o m args = Run.nested o.cls.maxCallDepth (do
        let _ ← runBody calls ⟨some o, o.cls⟩ m.locals args m.body
        return .null)) := by
  obtain ⟨passes, returns⟩ := method_ends compiled hm
  have isVoid : m.returnType ≠ .void → m.returnType.isVoid = false := by
    intro novoid
    cases type : m.returnType <;> first | rfl | exact absurd type novoid
  have ends : m.returnType ≠ .void → ∀ calls frame locals s flow locals' s',
      execAll calls frame m.body locals s = (.ok (flow, locals'), s') →
        ∃ e v before t, flow = .returned v ∧ some e ∈ Code.Stmt.allReturns m.body ∧
          eval calls frame e before t = (.ok (v, locals'), s') := by
    intro novoid calls frame locals s flow locals' s' ran
    have ended := execAll_ends m.body ran
    cases flow with
    | normal =>
      have void := passes ended
      rw [isVoid novoid] at void
      cases void
    | returned v =>
      obtain ⟨r, member, gives⟩ := ended
      have isSome := returns r member
      rw [isVoid novoid] at isSome
      cases r with
      | none => cases isSome
      | some e =>
        obtain ⟨before, t, evaluated⟩ := gives
        exact ⟨e, v, before, t, rfl, member, evaluated⟩
  refine ⟨ends, ?_, ?_⟩
  · intro novoid calls o args s v s' called
    obtain ⟨start, t, ran, tables⟩ := Run.nested_ok called
    obtain ⟨flow, t₁, body, rest⟩ := Run.bind_ok ran
    obtain ⟨locals', executed⟩ := runBody_ok body
    obtain ⟨e, w, _, _, rfl, _, _⟩ := ends novoid _ _ _ _ _ _ _ executed
    dsimp only at rest
    rw [isVoid novoid, if_neg Bool.false_ne_true] at rest
    rw [tables]
    exact Run.coerce_ok rest
  · intro void calls o args
    unfold callMethod
    refine congrArg _ (congrArg _ (funext fun flow => ?_))
    cases flow with
    | normal => rfl
    | returned v =>
      dsimp only
      rw [void]
      rfl

namespace Sample

/-- A loop without an end but by returns. -/
def halver : String :=
  "class Halver \x7b int last; int half(int n) \x7b while (true) \x7b if (n < 2) \x7b return n; "
    ++ "\x7d else if (n == 5) throw null; n = n - 2; \x7d \x7d "
    ++ "void keep(int n) \x7b last = half(n); \x7d \x7d"

/-- The method of a class by its place. -/
def methodOf (source : String) (i : Nat) : Code.Method :=
  ((codeOf {} source).methods[i]?).getD ⟨"", [], .void, [], .hidden, 0, []⟩

/-- The rest of eight is given by a return in the loop. -/
theorem halver_returns : compileUnit {} (unitOf halver) = .ok (codeOf {} halver) ∧
    methodOf halver 0 ∈ (codeOf {} halver).methods ∧ (methodOf halver 0).returnType = .int ∧
    ∃ v s', callMethod (.within unlimited) (objectOf {} halver) (methodOf halver 0) [.int 8] {}
        = (.ok v, s') ∧ v.isInstanceOf s'.tables .int = true ∧ v.text = "0" := by
  have compiles : (compileSource {} halver).toOption.isSome = true ∧
      (codeOf {} halver).methods.length = 2 ∧ (methodOf halver 0).returnType = .int ∧
      ((callMethod (.within unlimited) (objectOf {} halver) (methodOf halver 0) [.int 8]
        {}).1.toOption.map (·.text)) = some "0" := by
    decide +kernel
  obtain ⟨ok, two, int, runs⟩ := compiles
  have compiled := unit_compiles ok
  have member : methodOf halver 0 ∈ (codeOf {} halver).methods := by
    have first : 0 < (codeOf {} halver).methods.length := by omega
    rw [methodOf, List.getElem?_eq_getElem first, Option.getD_some]
    exact List.getElem_mem first
  refine ⟨compiled, member, int, ?_⟩
  cases out : callMethod (.within unlimited) (objectOf {} halver) (methodOf halver 0) [.int 8]
      {} with
  | mk result s' =>
    rw [out] at runs
    cases result with
    | error stop => cases runs
    | ok v =>
      have novoid : (methodOf halver 0).returnType ≠ .void := by
        rw [int]
        nofun
      have instance_ := (methods_return compiled member).2.1 novoid _ _ _ _ _ _ out
      rw [int] at instance_
      exact ⟨v, s', rfl, instance_, Option.some.inj runs⟩

end Sample

end Classwright
