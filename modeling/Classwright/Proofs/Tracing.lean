import Classwright.Proofs.Ensuring
import Classwright.Proofs.Scoping

/-!
# Variables are stored before they are read

`trace` evaluates code as `eval` does and notes what it touches. The notes of an expression are
among its `accesses`; those of the statements of a body are orderly: whatever variable is read or
written has been stored by its own declaration before, in front of it in the notes of the same
activation.
-/

namespace Classwright

open Code (Stmt)

/-- Runs of a body that note what they touch. The notes stay when a run stops. -/
abbrev Traced := StateT (List Value) (ExceptT Stop (StateM (Store × List Access)))

namespace Traced

variable {α : Type}

/-- Goes on without a note. -/
def silent (body : Body α) : Traced α := fun locals p =>
  ((body locals p.1).1, (body locals p.1).2, p.2)

def note (a : Access) : Traced Unit := fun locals p => (.ok ((), locals), p.1, p.2 ++ [a])

/-- Runs the body while the condition holds, as long as there are rounds left. -/
def loop (condition : Traced Bool) (body : Traced Flow) : Nat → Traced Flow
  | 0 => fun _ p => (.error .exhausted, p)
  | rounds + 1 => do
    if ← condition then
      match ← body with
      | .normal => loop condition body rounds
      | .returned v => return .returned v
    else return .normal

end Traced

open Traced (silent note)

mutual

def trace (calls : Calls) (frame : Frame) : Code.Expr → Traced Value
  | .const c => pure (.ofConstant c)
  | .var slot => do
    note (.read .local_ slot)
    silent (frame.readVar slot)
  | .this => do
    note .this
    return .object (← silent frame.this)
  | .field slot => do
    note (.read .field slot)
    let o ← silent frame.this
    silent (Run.readField o slot)
  | .static slot => do
    note (.read .static slot)
    silent (Run.readStatic frame.cls slot)
  | .storeVar slot e => do
    let v ← trace calls frame e
    note (.write .local_ slot)
    silent (frame.writeVar slot v)
    return v
  | .storeField slot e => do
    let v ← trace calls frame e
    note (.write .field slot)
    let o ← silent frame.this
    silent (Run.writeField o slot v)
    return v
  | .storeStatic slot e => do
    let v ← trace calls frame e
    note (.write .static slot)
    silent (Run.writeStatic frame.cls slot v)
    return v
  | .unary op e => do
    let v ← trace calls frame e
    silent (Run.ofExcept (Arithmetic.unary op v))
  | .binary op l r => do
    let a ← trace calls frame l
    let b ← trace calls frame r
    silent (binary calls.invoke op a b)
  | .and l r => do
    let a ← trace calls frame l
    if ← silent (truth a) then
      let b ← trace calls frame r
      return .bool (← silent (truth b))
    else return .bool false
  | .or l r => do
    let a ← trace calls frame l
    if ← silent (truth a) then return .bool true
    else
      let b ← trace calls frame r
      return .bool (← silent (truth b))
  | .conditional c t e => do
    let v ← trace calls frame c
    if ← silent (truth v) then trace calls frame t else trace calls frame e
  | .cast target mode e => do
    let v ← trace calls frame e
    silent (castTo target mode v)
  | .invoke receiver method args => do
    let v ← trace calls frame receiver
    let vs ← traceArgs calls frame args
    note (.call method)
    silent (calls.invoke v method vs)
  | .invokeSuper method args => do
    let vs ← traceArgs calls frame args
    note .super
    let o ← silent frame.this
    silent (invokeInherited calls o method vs)

def traceArgs (calls : Calls) (frame : Frame) : List Code.Expr → Traced (List Value)
  | [] => pure []
  | e :: es => do
    let v ← trace calls frame e
    let vs ← traceArgs calls frame es
    return v :: vs

end

def traceCondition (calls : Calls) (frame : Frame) (e : Code.Expr) : Traced Bool := do
  let v ← trace calls frame e
  silent (truth v)

mutual

/-- The statement that stores a variable which is not in scope declares it. -/
def traceStmt (calls : Calls) (frame : Frame) (scope : List Nat) : Stmt → Traced Flow
  | .expr (.storeVar slot e) => do
    let v ← trace calls frame e
    note (if slot ∈ scope then .write .local_ slot else .declare slot)
    silent (frame.writeVar slot v)
    return .normal
  | .expr e => do
    let _ ← trace calls frame e
    return .normal
  | .ret none => return .returned .null
  | .ret (some e) => return .returned (← trace calls frame e)
  | .cond c t e => do
    if ← traceCondition calls frame c then traceStmts calls frame scope t
    else traceStmts calls frame scope e
  | .loop c body =>
    Traced.loop (traceCondition calls frame c) (traceStmts calls frame scope body) calls.rounds
  | .throw e => do
    let v ← trace calls frame e
    silent (Body.fail (.thrown v))
  | .block body => traceStmts calls frame scope body

def traceStmts (calls : Calls) (frame : Frame) (scope : List Nat) : List Stmt → Traced Flow
  | [] => return .normal
  | s :: ss => do
    match ← traceStmt calls frame scope s with
    | .normal => traceStmts calls frame (s.declares scope ++ scope) ss
    | .returned v => return .returned v

end

/-! ### Parts of a body one behind the other -/

section

variable {α β : Type} {locals : List Value}

variable {at_ behind : Store × List Access}

theorem Traced.bind_error {traced : Traced α} {next : α → Traced β} {stop : Stop}
    (h : traced locals at_ = (.error stop, behind)) :
    (traced >>= next) locals at_ = (.error stop, behind) := by
  change ExceptT.bindCont (fun p : α × List Value => next p.1 p.2) (traced locals at_).1
    (traced locals at_).2 = _
  rw [h]
  rfl

theorem Traced.bind_value {traced : Traced α} {next : α → Traced β} {p : α × List Value}
    (h : traced locals at_ = (.ok p, behind)) :
    (traced >>= next) locals at_ = next p.1 p.2 behind := by
  change ExceptT.bindCont (fun p : α × List Value => next p.1 p.2) (traced locals at_).1
    (traced locals at_).2 = _
  rw [h]
  rfl

end

/-! ### Expressions -/

/-- The traced run does what the body does and notes only what is allowed. -/
def Traced.Notes {α : Type} (allowed : Access → Prop) (traced : Traced α) (body : Body α) : Prop :=
  ∀ locals s log, ∃ more, (∀ a ∈ more, allowed a) ∧
    traced locals (s, log) = ((body locals s).1, (body locals s).2, log ++ more)

namespace Traced.Notes

variable {α β : Type} {allowed : Access → Prop}

theorem silent (body : Body α) : Notes allowed (silent body) body := fun locals s log =>
  ⟨[], nofun, by rw [List.append_nil]; rfl⟩

theorem pure (a : α) : Notes allowed (pure a) (pure a) := silent (Pure.pure a)

/-- A step that is noted. -/
theorem note {a : Access} (h : allowed a) {traced : Traced α} {body : Body α}
    (next : Notes allowed traced body) :
    Notes allowed (note a >>= fun _ => traced) body := fun locals s log => by
  obtain ⟨more, noted, same⟩ := next locals s (log ++ [a])
  refine ⟨a :: more, ?_, ?_⟩
  · intro b member
    rcases List.mem_cons.1 member with rfl | member
    · exact h
    · exact noted b member
  · rw [← List.singleton_append, ← List.append_assoc]
    exact same

theorem bind {traced : Traced α} {body : Body α} {tracedNext : α → Traced β} {next : α → Body β}
    (h : Notes allowed traced body) (hnext : ∀ a, Notes allowed (tracedNext a) (next a)) :
    Notes allowed (traced >>= tracedNext) (body >>= next) := fun locals s log => by
  obtain ⟨more, noted, same⟩ := h locals s log
  cases ran : body locals s with
  | mk result s' =>
    rw [ran] at same
    cases result with
    | error stop =>
      rw [Traced.bind_error same, Body.bind_error ran]
      exact ⟨more, noted, rfl⟩
    | ok p =>
      obtain ⟨others, notedToo, same'⟩ := hnext p.1 p.2 s' (log ++ more)
      rw [Traced.bind_value same, Body.bind_value ran, same', List.append_assoc]
      refine ⟨more ++ others, ?_, rfl⟩
      intro a member
      rcases List.mem_append.1 member with member | member
      · exact noted a member
      · exact notedToo a member

end Traced.Notes

section

variable (calls : Calls) (frame : Frame) {allowed : Access → Prop}

open Traced (Notes)

/-- The truth of what has been evaluated decides how to go on. -/
theorem notes_branch {α : Type} {v : Value} {yes no : Traced α} {yes' no' : Body α}
    (hyes : Notes allowed yes yes') (hno : Notes allowed no no') :
    Notes allowed (do if ← silent (truth v) then yes else no)
      (do if ← truth v then yes' else no') := by
  refine (Notes.silent _).bind fun b => ?_
  cases b with
  | true => exact hyes
  | false => exact hno

mutual

/-- What an evaluation touches is among the accesses of the expression. -/
theorem trace_notes : (e : Code.Expr) → (∀ a ∈ e.accesses, allowed a) →
    Notes allowed (trace calls frame e) (eval calls frame e)
  | .const c, _ => .pure _
  | .var slot, h => by
    rw [trace, eval]
    exact .note (h _ (List.mem_singleton.2 rfl)) (.silent _)
  | .this, h => by
    rw [trace, eval]
    exact .note (h _ (List.mem_singleton.2 rfl)) ((Notes.silent _).bind fun _ => .pure _)
  | .field slot, h => by
    rw [trace, eval]
    exact .note (h _ (List.mem_singleton.2 rfl)) ((Notes.silent _).bind fun _ => .silent _)
  | .static slot, h => by
    rw [trace, eval]
    exact .note (h _ (List.mem_singleton.2 rfl)) (.silent _)
  | .storeVar slot e, h => by
    rw [Code.Expr.accesses, List.forall_mem_append, List.forall_mem_singleton] at h
    rw [trace, eval]
    exact (trace_notes e h.1).bind fun v =>
      .note h.2 ((Notes.silent _).bind fun _ => .pure _)
  | .storeField slot e, h => by
    rw [Code.Expr.accesses, List.forall_mem_append, List.forall_mem_singleton] at h
    rw [trace, eval]
    exact (trace_notes e h.1).bind fun v =>
      .note h.2 ((Notes.silent _).bind fun _ => (Notes.silent _).bind fun _ => .pure _)
  | .storeStatic slot e, h => by
    rw [Code.Expr.accesses, List.forall_mem_append, List.forall_mem_singleton] at h
    rw [trace, eval]
    exact (trace_notes e h.1).bind fun v =>
      .note h.2 ((Notes.silent _).bind fun _ => .pure _)
  | .unary op e, h => by
    rw [Code.Expr.accesses] at h
    rw [trace, eval]
    exact (trace_notes e h).bind fun v => .silent _
  | .binary op l r, h => by
    rw [Code.Expr.accesses, List.forall_mem_append] at h
    rw [trace, eval]
    exact (trace_notes l h.1).bind fun a => (trace_notes r h.2).bind fun b => .silent _
  | .and l r, h => by
    rw [Code.Expr.accesses, List.forall_mem_append] at h
    rw [trace, eval]
    refine (trace_notes l h.1).bind fun a => notes_branch ?_ (.pure _)
    exact (trace_notes r h.2).bind fun b => (Notes.silent _).bind fun _ => .pure _
  | .or l r, h => by
    rw [Code.Expr.accesses, List.forall_mem_append] at h
    rw [trace, eval]
    refine (trace_notes l h.1).bind fun a => notes_branch (.pure _) ?_
    exact (trace_notes r h.2).bind fun b => (Notes.silent _).bind fun _ => .pure _
  | .conditional c t e, h => by
    rw [Code.Expr.accesses, List.forall_mem_append, List.forall_mem_append] at h
    rw [trace, eval]
    exact (trace_notes c h.1).bind fun v => notes_branch (trace_notes t h.2.1) (trace_notes e h.2.2)
  | .cast target mode e, h => by
    rw [Code.Expr.accesses] at h
    rw [trace, eval]
    exact (trace_notes e h).bind fun v => .silent _
  | .invoke receiver method args, h => by
    rw [Code.Expr.accesses, List.forall_mem_append, List.forall_mem_append,
      List.forall_mem_singleton] at h
    rw [trace, eval]
    exact (trace_notes receiver h.1).bind fun v => (traceArgs_notes args h.2.1).bind fun vs =>
      .note h.2.2 (.silent _)
  | .invokeSuper method args, h => by
    rw [Code.Expr.accesses, List.forall_mem_append, List.forall_mem_singleton] at h
    rw [trace, eval]
    exact (traceArgs_notes args h.1).bind fun vs =>
      .note h.2 ((Notes.silent _).bind fun _ => .silent _)

theorem traceArgs_notes : (es : List Code.Expr) → (∀ a ∈ Code.Expr.allAccesses es, allowed a) →
    Notes allowed (traceArgs calls frame es) (evalAll calls frame es)
  | [], _ => .pure _
  | e :: es, h => by
    rw [Code.Expr.allAccesses, List.forall_mem_append] at h
    rw [traceArgs, evalAll]
    exact (trace_notes e h.1).bind fun v => (traceArgs_notes es h.2).bind fun vs => .pure _

end

theorem traceCondition_notes {e : Code.Expr} (h : ∀ a ∈ e.accesses, allowed a) :
    Notes allowed (traceCondition calls frame e) (evalCondition calls frame e) :=
  (trace_notes calls frame e h).bind fun _ => .silent _

end

/-! ### Statements -/

/-- Parameters are there from the start, other variables as soon as they have been declared. -/
def Ready (params : Nat) (log : List Access) (slot : Nat) : Prop :=
  slot < params ∨ .declare slot ∈ log

/-- A variable is read and written only behind its declaration. -/
def Orderly (params : Nat) (log : List Access) : Prop :=
  ∀ before after slot, log = before ++ .read .local_ slot :: after ∨
    log = before ++ .write .local_ slot :: after → Ready params before slot

/-- What is touched of variables is in scope. -/
def Access.InScope (scope : List Nat) (a : Access) : Prop :=
  ∀ slot, a = .read .local_ slot ∨ a = .write .local_ slot → slot ∈ scope

section

variable {params : Nat} {scope : List Nat} {log : List Access}

theorem Ready.more {slot : Nat} (h : Ready params log slot) (others : List Access) :
    Ready params (log ++ others) slot :=
  Or.imp_right (List.mem_append_left others) h

theorem orderly_nil : Orderly params [] := by
  rintro before after slot (same | same)
  · simp at same
  · simp at same

theorem Orderly.push {a : Access} (h : Orderly params log)
    (ready : ∀ slot ∈ scope, Ready params log slot) (inScope : a.InScope scope) :
    Orderly params (log ++ [a]) := by
  intro before after slot split
  rcases List.eq_nil_or_concat after with rfl | ⟨rest, last, rfl⟩
  · rcases split with same | same
    · obtain ⟨rfl, last⟩ := List.append_inj' same rfl
      cases last
      exact ready slot (inScope slot (.inl rfl))
    · obtain ⟨rfl, last⟩ := List.append_inj' same rfl
      cases last
      exact ready slot (inScope slot (.inr rfl))
  · refine h before rest slot (split.imp ?_ ?_)
    · intro same
      rw [List.concat_eq_append, ← List.cons_append, ← List.append_assoc] at same
      exact (List.append_inj' same rfl).1
    · intro same
      rw [List.concat_eq_append, ← List.cons_append, ← List.append_assoc] at same
      exact (List.append_inj' same rfl).1

theorem Orderly.append (h : Orderly params log) (ready : ∀ slot ∈ scope, Ready params log slot)
    {more : List Access} (inScope : ∀ a ∈ more, a.InScope scope) :
    Orderly params (log ++ more) := by
  induction more generalizing log with
  | nil => rwa [List.append_nil]
  | cons a more ih =>
    rw [List.forall_mem_cons] at inScope
    rw [← List.singleton_append, ← List.append_assoc]
    exact ih (h.push ready inScope.1) (fun slot member => (ready slot member).more _) inScope.2

end

/-- From orderly notes with all variables in scope declared, the traced run does what the body does
and leaves orderly notes; `after` have been declared where it ends. -/
def Traced.Follows {α : Type} (params : Nat) (scope : List Nat) (traced : Traced α) (body : Body α)
    (after : α → List Nat) : Prop :=
  ∀ locals s log, Orderly params log → (∀ slot ∈ scope, Ready params log slot) →
    ∃ more, Orderly params (log ++ more) ∧
      traced locals (s, log) = ((body locals s).1, (body locals s).2, log ++ more) ∧
      ∀ p, (body locals s).1 = .ok p → ∀ slot ∈ after p.1, Ready params (log ++ more) slot

namespace Traced.Follows

variable {α β : Type} {params : Nat} {scope : List Nat}

theorem of_notes {traced : Traced α} {body : Body α}
    (h : Notes (Access.InScope scope) traced body) :
    Follows params scope traced body fun _ => scope := by
  intro locals s log orderly ready
  obtain ⟨more, noted, same⟩ := h locals s log
  exact ⟨more, orderly.append ready noted, same, fun _ _ slot member => (ready slot member).more _⟩

theorem weaken {traced : Traced α} {body : Body α} {after fewer : α → List Nat}
    (h : Follows params scope traced body after)
    (sub : ∀ a, ∀ slot ∈ fewer a, slot ∈ after a ∨ slot ∈ scope) :
    Follows params scope traced body fewer := by
  intro locals s log orderly ready
  obtain ⟨more, orderly', same, ended⟩ := h locals s log orderly ready
  refine ⟨more, orderly', same, fun p result slot member => ?_⟩
  rcases sub p.1 slot member with declared | inScope
  · exact ended p result slot declared
  · exact (ready slot inScope).more _

theorem bind {traced : Traced α} {body : Body α} {tracedNext : α → Traced β} {next : α → Body β}
    {between : α → List Nat} {after : β → List Nat} (h : Follows params scope traced body between)
    (hnext : ∀ a, Follows params (between a) (tracedNext a) (next a) after) :
    Follows params scope (traced >>= tracedNext) (body >>= next) after := by
  intro locals s log orderly ready
  obtain ⟨more, orderly', same, ended⟩ := h locals s log orderly ready
  cases ran : body locals s with
  | mk result s' =>
    rw [ran] at same ended
    cases result with
    | error stop =>
      rw [Traced.bind_error same, Body.bind_error ran]
      exact ⟨more, orderly', rfl, nofun⟩
    | ok p =>
      obtain ⟨others, orderly'', same', ended'⟩ :=
        hnext p.1 p.2 s' (log ++ more) orderly' (ended p rfl)
      rw [Traced.bind_value same, Body.bind_value ran]
      rw [List.append_assoc] at same' orderly'' ended'
      exact ⟨more ++ others, orderly'', same', ended'⟩

theorem pure {a : α} {after : α → List Nat} (h : ∀ slot ∈ after a, slot ∈ scope) :
    Follows params scope (pure a) (pure a) after := by
  intro locals s log orderly ready
  refine ⟨[], ?_, ?_, ?_⟩
  · rwa [List.append_nil]
  · rw [List.append_nil]
    rfl
  · rintro p result slot member
    cases result
    rw [List.append_nil]
    exact ready slot (h slot member)

/-- A variable is ready behind the note of its declaration. -/
theorem declare {slot : Nat} {traced : Traced α} {body : Body α} {after : α → List Nat}
    (next : Follows params (slot :: scope) traced body after) :
    Follows params scope (Traced.note (.declare slot) >>= fun _ => traced) body after := by
  intro locals s log orderly ready
  have none_ : ∀ other ∈ ([] : List Nat), Ready params log other := nofun
  have declared : Orderly params (log ++ [.declare slot]) := orderly.push none_ nofun
  obtain ⟨more, orderly', same, ended⟩ := next locals s (log ++ [.declare slot]) declared (by
    intro other member
    rcases List.mem_cons.1 member with rfl | member
    · exact .inr (List.mem_append_right _ (List.mem_singleton.2 rfl))
    · exact (ready other member).more _)
  rw [List.append_assoc] at orderly' ended same
  exact ⟨.declare slot :: more, orderly', same, ended⟩

theorem loop {traced : Traced Bool} {condition : Body Bool} {tracedBody : Traced Flow}
    {body : Body Flow} {after : Flow → List Nat}
    (hcondition : Notes (Access.InScope scope) traced condition)
    (hbody : Follows params scope tracedBody body after) (rounds : Nat) :
    Follows params scope (Traced.loop traced tracedBody rounds) (Body.loop condition body rounds)
      fun _ => scope := by
  induction rounds with
  | zero =>
    intro locals s log orderly ready
    refine ⟨[], ?_, ?_, nofun⟩
    · rwa [List.append_nil]
    · rw [List.append_nil]
      rfl
  | succ rounds ih =>
    have again : Follows params scope tracedBody body fun _ => scope :=
      hbody.weaken fun _ _ member => .inr member
    rw [Body.loop_succ]
    refine (of_notes hcondition).bind fun go => ?_
    cases go with
    | false => exact .pure fun _ member => member
    | true =>
      refine again.bind fun flow => ?_
      cases flow with
      | normal => exact ih
      | returned v => exact .pure fun _ member => member

end Traced.Follows

/-- The variables in scope behind a statement that ends in this way. -/
def Flow.scope (behind : List Nat) : Flow → List Nat
  | normal => behind
  | returned _ => []

section

variable (calls : Calls) (frame : Frame) (params : Nat)

open Traced (Follows Notes)

variable {scope : List Nat} {e : Code.Expr}

theorem inScope_of_within (h : e.Within scope) : ∀ a ∈ e.accesses, a.InScope scope := by
  rintro a member slot (rfl | rfl)
  · exact h slot (.inl member)
  · exact h slot (.inr member)

theorem expr_follows (h : e.Within scope) :
    Follows params scope (trace calls frame e) (eval calls frame e) fun _ => scope :=
  .of_notes (trace_notes calls frame e (inScope_of_within h))

theorem condition_notes (h : e.Within scope) : Traced.Notes (Access.InScope scope)
    (traceCondition calls frame e) (evalCondition calls frame e) :=
  traceCondition_notes calls frame (inScope_of_within h)

/-- What is in scope in front of a part stays declared, whatever else the part declares. -/
theorem Traced.Follows.keep {traced : Traced Flow} {body : Body Flow} {after : Flow → List Nat}
    (h : Follows params scope traced body after) :
    Follows params scope traced body (Flow.scope scope) :=
  h.weaken fun flow slot member => by
    cases flow with
    | normal => exact .inr member
    | returned v => exact nomatch member

mutual

/-- Statements touch variables in scope only behind their declarations, and where they end the
variables that they bring into scope have been declared. -/
theorem traceStmt_follows : (s : Stmt) → {scope : List Nat} → s.Scoped scope →
    Follows params scope (traceStmt calls frame scope s) (exec calls frame s)
      (Flow.scope (s.declares scope ++ scope))
  | .expr e, scope, h => by
    rw [exec]
    cases e with
    | storeVar slot e =>
      rw [traceStmt, eval, bind_assoc]
      refine (expr_follows calls frame params h).bind fun v => ?_
      rw [Stmt.declares, bind_assoc]
      split
      · rename_i inScope
        have noted : Access.InScope scope (.write .local_ slot) := by
          rintro other (same | same)
          · cases same
          · cases same
            exact inScope
        exact (Follows.of_notes (.note noted ((Notes.silent _).bind fun _ => .pure _))).keep
      · refine .declare (.bind (.of_notes (.silent _)) fun _ => .pure fun _ member => member)
    | _ =>
      exact (expr_follows calls frame params h).bind fun _ => .pure fun _ member => member
  | .ret none, scope, h => .pure nofun
  | .ret (some e), scope, h => by
    rw [traceStmt, exec]
    exact (expr_follows calls frame params h).bind fun v => .pure nofun
  | .cond c t e, scope, h => by
    rw [traceStmt, exec]
    refine (Follows.of_notes (condition_notes calls frame h.1)).bind fun go => ?_
    cases go with
    | true => exact (traceStmts_follows t h.2.1).keep
    | false => exact (traceStmts_follows e h.2.2).keep
  | .loop c body, scope, h => by
    rw [traceStmt, exec]
    exact (Follows.loop (condition_notes calls frame h.1) (traceStmts_follows body h.2)
      calls.rounds).keep
  | .throw e, scope, h => by
    rw [traceStmt, exec]
    exact (expr_follows calls frame params h).bind fun v =>
      (Follows.of_notes (.silent _)).keep
  | .block body, scope, h => by
    rw [traceStmt, exec]
    exact (traceStmts_follows body h).keep

theorem traceStmts_follows : (ss : List Stmt) → {scope : List Nat} → Stmt.AllScoped scope ss →
    Follows params scope (traceStmts calls frame scope ss) (execAll calls frame ss)
      (Flow.scope (Stmt.scopeAfter scope ss))
  | [], scope, _ => .pure fun _ member => member
  | s :: ss, scope, h => by
    rw [traceStmts, execAll, Stmt.scopeAfter]
    refine (traceStmt_follows s h.1).bind fun flow => ?_
    cases flow with
    | normal => exact traceStmts_follows ss h.2
    | returned v => exact .pure nofun

end

end

end Classwright
