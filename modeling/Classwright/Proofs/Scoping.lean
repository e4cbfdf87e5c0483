import Classwright.Proofs.Accesses
import Classwright.Proofs.Bodies

/-!
# Variables have slots of their own

The variables of a body are numbered in the order in which they are declared, its parameters first.
Lowering gives every variable its number for a slot, and every name the slot of the variable or
field that it stands for where it is written. In the code a slot comes into scope with the statement
that stores it first, and out of scope with the end of the block.
-/

namespace Classwright

namespace Source

mutual

/-- How many variables a statement declares, in all of its blocks. -/
def Stmt.variables : Stmt → Nat
  | .declare .. => 1
  | .block body _ => Stmt.allVariables body
  | .ifThen _ t _ => t.variables
  | .ifElse _ t e _ => t.variables + e.variables
  | .loop _ b _ => b.variables
  | .ret .. | .throw .. | .expr .. | .empty .. => 0

def Stmt.allVariables : List Stmt → Nat
  | [] => 0
  | s :: ss => s.variables + Stmt.allVariables ss

end

/-- The variable that comes into scope behind the statement, if `next` numbers it. -/
def Stmt.adds (next : Nat) : Stmt → List (String × Nat)
  | .declare _ name _ _ => [(name, next)]
  | _ => []

/-- The variables that are in scope behind the statements and not in front of them. -/
def Stmt.allAdds (next : Nat) : List Stmt → List (String × Nat)
  | [] => []
  | s :: ss => Stmt.allAdds (next + s.variables) ss ++ s.adds next

mutual

/-- What a statement touches where `vars` are in scope and `next` numbers the next variable. -/
def Stmt.accesses (own : String → Option SlotOf) (vars : List (String × Nat)) (next : Nat) :
    Stmt → List Access
  | .declare _ _ none _ => [.declare next]
  | .declare _ _ (some e) _ => e.accesses own vars ++ [.declare next]
  | .block body _ => Stmt.allAccesses own vars next body
  | .ret none _ | .empty _ => []
  | .ret (some e) _ | .throw e _ | .expr e => e.accesses own vars
  | .ifThen c t _ => c.accesses own vars ++ t.accesses own vars next
  | .ifElse c t e _ =>
    c.accesses own vars ++ (t.accesses own vars next ++ e.accesses own vars (next + t.variables))
  | .loop c b _ => c.accesses own vars ++ b.accesses own vars next

def Stmt.allAccesses (own : String → Option SlotOf) (vars : List (String × Nat)) (next : Nat) :
    List Stmt → List Access
  | [] => []
  | s :: ss => s.accesses own vars next
    ++ Stmt.allAccesses own (s.adds next ++ vars) (next + s.variables) ss

end

/-- The slot of what is touched is that of a variable in scope or of an own field. -/
def Touched (own : String → Option SlotOf) (vars : List (String × Nat)) : Access → Prop
  | .read kind slot | .write kind slot =>
    (kind = .local_ ∧ slot ∈ vars.map (·.2)) ∨ ∃ name, own name = some (kind, slot)
  | .declare _ => False
  | _ => True

section

variable {own : String → Option SlotOf} {vars : List (String × Nat)}

theorem mem_of_lookup {name : String} {slot : Nat} (found : vars.lookup name = some slot) :
    slot ∈ vars.map (·.2) := by
  induction vars with
  | nil => cases found
  | cons x xs ih =>
    rw [List.lookup_cons] at found
    split at found
    · rw [← Option.some.inj found]
      exact List.mem_cons_self
    · exact List.mem_cons_of_mem _ (ih found)

theorem touched_slotOf? {name : String} {slot : SlotOf}
    (found : slotOf? own vars name = some slot) :
    (slot.1 = .local_ ∧ slot.2 ∈ vars.map (·.2)) ∨ ∃ name, own name = some slot := by
  unfold slotOf? at found
  split at found
  · rename_i known
    cases found
    exact .inl ⟨rfl, mem_of_lookup known⟩
  · exact .inr ⟨name, found⟩

theorem touched_slot? {e : Expr} {slot : SlotOf} (found : e.slot? own vars = some slot) :
    (slot.1 = .local_ ∧ slot.2 ∈ vars.map (·.2)) ∨ ∃ name, own name = some slot := by
  unfold Expr.slot? at found
  split at found
  · exact touched_slotOf? found
  · exact .inr ⟨_, found⟩
  · cases found

theorem touched_readOf {slot? : Option SlotOf} (from_ : ∀ slot, slot? = some slot →
    (slot.1 = .local_ ∧ slot.2 ∈ vars.map (·.2)) ∨ ∃ name, own name = some slot) :
    (∀ a ∈ readOf slot?, Touched own vars a) ∧ ∀ a ∈ writeOf slot?, Touched own vars a := by
  cases slot? with
  | none => exact ⟨nofun, nofun⟩
  | some slot =>
    have known := from_ slot rfl
    refine ⟨fun a member => ?_, fun a member => ?_⟩
    · rw [List.mem_singleton.1 member]
      exact known
    · rw [List.mem_singleton.1 member]
      exact known

theorem touched_append {xs ys : List Access} :
    (∀ a ∈ xs ++ ys, Touched own vars a) ↔
      (∀ a ∈ xs, Touched own vars a) ∧ ∀ a ∈ ys, Touched own vars a := by
  simp only [List.mem_append, or_imp, forall_and]

theorem touched_single {a : Access} (h : Touched own vars a) : ∀ b ∈ [a], Touched own vars b := by
  intro b member
  rw [List.mem_singleton.1 member]
  exact h

mutual

/-- An expression touches variables in scope and own fields only. -/
theorem Expr.touched (own : String → Option SlotOf) (vars : List (String × Nat)) :
    (e : Expr) → ∀ a ∈ e.accesses own vars, Touched own vars a
  | .literal _ _ => by
    rw [Expr.accesses]
    exact fun _ member => nomatch member
  | .name n _ => by
    rw [Expr.accesses]
    exact (touched_readOf fun _ => touched_slotOf?).1
  | .this _ => by
    rw [Expr.accesses]
    exact touched_single trivial
  | .access target n s => by
    rw [Expr.accesses]
    exact (touched_readOf fun _ => touched_slot?).1
  | .call target n args _ => by
    rw [Expr.accesses, touched_append, touched_append]
    exact ⟨target.touched own vars, Expr.allTouched own vars args, touched_single trivial⟩
  | .ownCall n args _ => by
    rw [Expr.accesses, ← List.singleton_append, touched_append, touched_append]
    exact ⟨touched_single trivial, Expr.allTouched own vars args, touched_single trivial⟩
  | .superCall n args _ => by
    rw [Expr.accesses, touched_append]
    exact ⟨Expr.allTouched own vars args, touched_single trivial⟩
  | .unary _ e _ => by
    rw [Expr.accesses]
    exact e.touched own vars
  | .cast _ e _ => by
    rw [Expr.accesses]
    exact e.touched own vars
  | .binary _ l r _ => by
    rw [Expr.accesses, touched_append]
    exact ⟨l.touched own vars, r.touched own vars⟩
  | .logical _ l r _ => by
    rw [Expr.accesses, touched_append]
    exact ⟨l.touched own vars, r.touched own vars⟩
  | .assign op target value _ => by
    have found : ∀ slot, target.slot? own vars = some slot →
        (slot.1 = .local_ ∧ slot.2 ∈ vars.map (·.2)) ∨ ∃ name, own name = some slot :=
      fun _ there => touched_slot? there
    have known := touched_readOf found
    rw [Expr.accesses, touched_append, touched_append]
    refine ⟨⟨?_, value.touched own vars⟩, known.2⟩
    split
    · exact known.1
    · exact fun _ member => nomatch member
  | .conditional c t e _ => by
    rw [Expr.accesses, touched_append, touched_append]
    exact ⟨c.touched own vars, t.touched own vars, e.touched own vars⟩

theorem Expr.allTouched (own : String → Option SlotOf) (vars : List (String × Nat)) :
    (es : List Expr) → ∀ a ∈ Expr.allAccesses own vars es, Touched own vars a
  | [] => by
    rw [Expr.allAccesses]
    exact fun _ member => nomatch member
  | e :: es => by
    rw [Expr.allAccesses, touched_append]
    exact ⟨e.touched own vars, Expr.allTouched own vars es⟩

end

end

end Source

namespace Code

/-- The expression touches no variables but those in scope. -/
def Expr.Within (scope : List Nat) (e : Expr) : Prop :=
  ∀ slot, .read .local_ slot ∈ e.accesses ∨ .write .local_ slot ∈ e.accesses → slot ∈ scope

/-- The slot that a statement brings into scope: a variable is declared by the statement that stores
it where it is not in scope. -/
def Stmt.declares (scope : List Nat) : Stmt → List Nat
  | .expr (.storeVar slot _) => if slot ∈ scope then [] else [slot]
  | _ => []

mutual

/-- What a statement touches where the slots are in scope. -/
def Stmt.accesses (scope : List Nat) : Stmt → List Access
  | .expr (.storeVar slot e) =>
    e.accesses ++ [if slot ∈ scope then .write .local_ slot else .declare slot]
  | .expr e | .throw e | .ret (some e) => e.accesses
  | .ret none => []
  | .cond c t e => c.accesses ++ (Stmt.allAccesses scope t ++ Stmt.allAccesses scope e)
  | .loop c body => c.accesses ++ Stmt.allAccesses scope body
  | .block body => Stmt.allAccesses scope body

def Stmt.allAccesses (scope : List Nat) : List Stmt → List Access
  | [] => []
  | s :: ss => s.accesses scope ++ Stmt.allAccesses (s.declares scope ++ scope) ss

end

mutual

/-- Variables are touched only where they are in scope. -/
def Stmt.Scoped (scope : List Nat) : Stmt → Prop
  | .expr (.storeVar _ e) => e.Within scope
  | .expr e | .throw e | .ret (some e) => e.Within scope
  | .ret none => True
  | .cond c t e => c.Within scope ∧ Stmt.AllScoped scope t ∧ Stmt.AllScoped scope e
  | .loop c body => c.Within scope ∧ Stmt.AllScoped scope body
  | .block body => Stmt.AllScoped scope body

def Stmt.AllScoped (scope : List Nat) : List Stmt → Prop
  | [] => True
  | s :: ss => s.Scoped scope ∧ Stmt.AllScoped (s.declares scope ++ scope) ss

end

/-- The scope behind statements. -/
def Stmt.scopeAfter (scope : List Nat) : List Stmt → List Nat
  | [] => scope
  | s :: ss => Stmt.scopeAfter (s.declares scope ++ scope) ss

namespace Stmt

variable {scope : List Nat}

theorem allAccesses_append (ss ts : List Stmt) (scope : List Nat) :
    allAccesses scope (ss ++ ts)
      = allAccesses scope ss ++ allAccesses (scopeAfter scope ss) ts := by
  induction ss generalizing scope with
  | nil => rfl
  | cons s ss ih =>
    rw [List.cons_append, allAccesses, allAccesses, scopeAfter, ih, List.append_assoc]

theorem allScoped_append (ss ts : List Stmt) (scope : List Nat) :
    AllScoped scope (ss ++ ts) ↔ AllScoped scope ss ∧ AllScoped (scopeAfter scope ss) ts := by
  induction ss generalizing scope with
  | nil => simp [AllScoped, scopeAfter]
  | cons s ss ih => rw [List.cons_append, AllScoped, AllScoped, scopeAfter, ih, and_assoc]

theorem scopeAfter_append (ss ts : List Stmt) (scope : List Nat) :
    scopeAfter scope (ss ++ ts) = scopeAfter (scopeAfter scope ss) ts := by
  induction ss generalizing scope with
  | nil => rfl
  | cons s ss ih => rw [List.cons_append, scopeAfter, scopeAfter, ih]

/-- An expression statement that stores no variable out of scope declares none. -/
theorem accesses_expr {e : Expr} (within : e.Within scope) :
    (Stmt.expr e).accesses scope = e.accesses ∧ (Stmt.expr e).declares scope = [] ∧
      (Stmt.expr e).Scoped scope := by
  cases e with
  | storeVar slot value =>
    have here : slot ∈ scope := within slot (.inr (by simp [Expr.accesses]))
    have value : value.Within scope := fun slot touched => within slot (by
      rw [Expr.accesses]
      exact touched.imp (List.mem_append_left _) (List.mem_append_left _))
    rw [Stmt.accesses, Stmt.declares, Stmt.Scoped, Expr.accesses, if_pos here, if_pos here]
    exact ⟨rfl, rfl, value⟩
  | _ => exact ⟨rfl, rfl, within⟩

end Stmt

end Code

namespace Check

/-- The slots in scope. -/
def BodyState.scope (st : BodyState) : List Nat := st.vars.map (·.2)

/-- A scope is open, and the variables in scope have slots in front of the next one. -/
structure BodyState.Open (st : BodyState) : Prop where
  scopes : st.scopes ≠ []
  below : ∀ slot ∈ st.scope, slot < st.nextSlot

theorem ClassContext.own?_ne_local (cx : ClassContext) (name : String) (slot : Nat) :
    cx.own? name ≠ some (.local_, slot) := by
  unfold ClassContext.own?
  cases cx.field? name with
  | none => nofun
  | some info =>
    cases static : info.isStatic <;> simp [static]

/-- Lowered code touches no variables but those in scope. -/
theorem within_of_accesses {cx : ClassContext} {st : BodyState} {e : Source.Expr} {code : Code.Expr}
    (same : code.accesses = e.accesses cx.own? st.vars) : code.Within st.scope := by
  intro slot touched
  have known := e.touched cx.own? st.vars
  rw [← same] at known
  have here : (SlotKind.local_ = .local_ ∧ slot ∈ st.scope) ∨
      ∃ name, cx.own? name = some (.local_, slot) := by
    rcases touched with touched | touched
    · exact known _ touched
    · exact known _ touched
  rcases here with ⟨_, inScope⟩ | ⟨name, own⟩
  · exact inScope
  · exact absurd own (cx.own?_ne_local name slot)

namespace Lower

/-- Code of a part of a body, and the state behind it: the variables that it declares got the next
slots, `added` are in scope behind it, and it touches just `accesses`. -/
structure Numbered (st : BodyState) (code : List Code.Stmt) (st' : BodyState)
    (added : List (String × Nat)) (count : Nat) (accesses : List Access) : Prop where
  isOpen : st'.Open
  next : st'.nextSlot = st.nextSlot + count
  vars : st'.vars = added ++ st.vars
  outer : st'.scopes.drop 1 = st.scopes.drop 1
  accesses : Code.Stmt.allAccesses st.scope code = accesses
  within : Code.Stmt.AllScoped st.scope code
  after : Code.Stmt.scopeAfter st.scope code = st'.scope

/-- The lowering of a part of a body numbers its variables. -/
def Numbers (body : Lower (List Code.Stmt)) (added : Nat → List (String × Nat)) (count : Nat)
    (accesses : List (String × Nat) → Nat → List Access) : Prop :=
  Checks body fun st code st' => st.Open →
    Numbered st code st' (added st.nextSlot) count (accesses st.vars st.nextSlot)

/-- A part that declares nothing. -/
theorem Numbers.of_yields {body : Lower (List Code.Stmt)}
    {accesses : List (String × Nat) → Nat → List Access}
    (h : Yields body fun st code => Code.Stmt.allAccesses st.scope code
        = accesses st.vars st.nextSlot ∧ Code.Stmt.AllScoped st.scope code ∧
      Code.Stmt.scopeAfter st.scope code = st.scope) :
    Numbers body (fun _ => []) 0 accesses := by
  refine Checks.mono h ?_
  rintro st code st' ⟨rfl, touched, within, after⟩ isOpen
  exact ⟨isOpen, rfl, rfl, rfl, touched, within, after⟩

/-- A part in a scope of its own. -/
theorem Numbers.inScope {body : Lower (List Code.Stmt)} {added : Nat → List (String × Nat)}
    {count : Nat} {accesses : List (String × Nat) → Nat → List Access}
    (h : Numbers body added count accesses) :
    Checks (inScope body) fun st code st' => st.Open → st'.Open ∧
      st'.nextSlot = st.nextSlot + count ∧ st'.scopes = st.scopes ∧
      Code.Stmt.allAccesses st.scope code = accesses st.vars st.nextSlot ∧
      Code.Stmt.AllScoped st.scope code := by
  intro st clean
  obtain ⟨start, ended⟩ := h { st with scopes := [] :: st.scopes } clean
  refine ⟨start, fun isOpen => ?_⟩
  have inner := ended ⟨by simp, isOpen.below⟩
  have same : ((Lower.inScope body) st).2.scopes = st.scopes := inner.outer
  refine ⟨⟨by rw [same]; exact isOpen.scopes, ?_⟩, inner.next, same, inner.accesses, inner.within⟩
  have scope : ((Lower.inScope body) st).2.scope = st.scope := by
    rw [BodyState.scope, BodyState.vars, same]
    rfl
  have next : ((Lower.inScope body) st).2.nextSlot = st.nextSlot + count := inner.next
  intro slot member
  rw [scope] at member
  have below := isOpen.below slot member
  omega

open Code.Stmt in
theorem allAccesses_single {scope : List Nat} (s : Code.Stmt) :
    allAccesses scope [s] = s.accesses scope := by
  rw [allAccesses, allAccesses, List.append_nil]

/-- A declaration stores a slot that is not in scope, and brings it into scope. -/
theorem declares_new {st : BodyState} (isOpen : st.Open) (value : Code.Expr) :
    (Code.Stmt.expr (.storeVar st.nextSlot value)).declares st.scope = [st.nextSlot] ∧
      (Code.Stmt.expr (.storeVar st.nextSlot value)).accesses st.scope
        = value.accesses ++ [.declare st.nextSlot] := by
  have fresh : st.nextSlot ∉ st.scope := fun member =>
    Nat.lt_irrefl _ (isOpen.below _ member)
  rw [Code.Stmt.declares, Code.Stmt.accesses, if_neg fresh, if_neg fresh]
  exact ⟨rfl, rfl⟩

/-- A new variable comes into the innermost scope, with the next slot. -/
theorem declare_vars (name : String) (t : TypeRef) (span : Span) :
    Checks (declare name t span) fun st slot st' => st.Open → st'.Open ∧ slot = st.nextSlot ∧
      st'.nextSlot = st.nextSlot + 1 ∧ st'.vars = (name, slot) :: st.vars ∧
      st'.scopes.drop 1 = st.scopes.drop 1 := by
  refine (declare_binds name t span).mono ?_
  rintro ⟨ds, scopes, next⟩ _ _ ⟨rfl, rfl⟩ isOpen
  cases scopes with
  | nil => exact absurd rfl isOpen.scopes
  | cons scope outer =>
    refine ⟨⟨List.cons_ne_nil _ _, fun slot member => ?_⟩, rfl, rfl, rfl, rfl⟩
    rcases List.mem_cons.1 member with rfl | member
    · exact Nat.lt_succ_self _
    · exact Nat.lt_succ_of_lt (isOpen.below slot member)

theorem declare_numbers {value : Lower Code.Expr} (accesses : List (String × Nat) → List Access)
    (h : Yields value fun st code => code.accesses = accesses st.vars ∧ code.Within st.scope)
    (name : String) (t : TypeRef) (span : Span) :
    Numbers (do
        let value ← value
        let slot ← declare name t span
        return [Code.Stmt.expr (.storeVar slot value)])
      (fun next => [(name, next)]) 1 fun vars next => accesses vars ++ [.declare next] := by
  have declared := declare_vars name t span
  refine (Checks.seq h fun value => Checks.seq declared fun slot => Checks.pure _).mono ?_
  rintro _ _ st' ⟨value, st, ⟨rfl, same, within⟩, slot, _, more, rfl, rfl⟩ isOpen
  obtain ⟨isOpen', rfl, next, vars, outer⟩ := more isOpen
  obtain ⟨declares, touched⟩ := declares_new isOpen value
  refine ⟨isOpen', next, vars, outer, ?_, ?_, ?_⟩
  · rw [allAccesses_single, touched, same]
  · rw [Code.Stmt.AllScoped, Code.Stmt.AllScoped, Code.Stmt.Scoped]
    exact ⟨within, trivial⟩
  · rw [Code.Stmt.scopeAfter, Code.Stmt.scopeAfter, declares, BodyState.scope, BodyState.scope,
      vars]
    rfl

variable (cx : ClassContext) (kind : BodyKind)

theorem lowerAs_touches (e : Source.Expr) (t : TypeRef) :
    Yields (lowerAs cx kind e t) fun st code =>
      code.accesses = e.accesses cx.own? st.vars ∧ Allowed kind code.accesses := by
  unfold lowerAs
  refine .bind (lowerExpr_touches cx kind e) fun lowered => ?_
  refine (coerce_accesses cx lowered.1 lowered.2 t e.span).mono fun st code same touched => ?_
  rw [same, touched.1.2]
  exact ⟨rfl, touched.2⟩

theorem lowerAs_accesses (e : Source.Expr) (t : TypeRef) :
    Yields (lowerAs cx kind e t) fun st code =>
      code.accesses = e.accesses cx.own? st.vars ∧ code.Within st.scope :=
  (lowerAs_touches cx kind e t).mono fun _ _ touched => ⟨touched.1, within_of_accesses touched.1⟩

theorem lowerCondition_accesses (e : Source.Expr) :
    Yields (lowerCondition cx kind e) fun st code =>
      code.accesses = e.accesses cx.own? st.vars ∧ code.Within st.scope := by
  unfold lowerCondition
  refine .bind (lowerExpr_touches cx kind e) fun lowered => ?_
  refine (asCondition_code lowered e.span).mono fun st code same touched => ?_
  rw [same]
  exact ⟨touched.1.2, within_of_accesses touched.1.2⟩

theorem lowerReturn_accesses (value : Option Source.Expr) (span : Span) :
    Yields (lowerReturn cx kind value span) fun st code =>
      match value, code with
      | none, none => True
      | some e, some c => c.accesses = e.accesses cx.own? st.vars ∧ c.Within st.scope
      | _, _ => False := by
  unfold lowerReturn
  split
  · exact .reportThen fun _ => .pure fun _ => trivial
  · exact .pure fun _ => trivial
  · exact .reportThen fun _ => .pure fun _ => trivial
  · rename_i type e _
    exact .bind (lowerAs_accesses cx _ e type) fun code => .pure fun _ same => same
  · exact .reportThen fun _ => .pure fun _ => trivial
  · exact .pure fun _ => trivial

theorem lowerReturn_numbers (value : Option Source.Expr) (span : Span) :
    Numbers (do return [.ret (← lowerReturn cx kind value span)]) (fun _ => []) 0 fun vars next =>
      (Source.Stmt.ret value span).accesses cx.own? vars next := by
  refine .of_yields (.bind (lowerReturn_accesses cx kind value span) fun code =>
    .pure fun st is => ?_)
  rw [allAccesses_single]
  cases value with
  | none =>
    cases code with
    | none => exact ⟨rfl, ⟨trivial, trivial⟩, rfl⟩
    | some c => exact is.elim
  | some e =>
    cases code with
    | none => exact is.elim
    | some c =>
      rw [Code.Stmt.accesses, Source.Stmt.accesses]
      exact ⟨is.1, ⟨is.2, trivial⟩, rfl⟩

/-- A statement whose variables are out of scope behind it. -/
theorem Numbered.closed {st st' : BodyState} {s : Code.Stmt} {count : Nat}
    {accesses : List Access} (isOpen : st'.Open) (next : st'.nextSlot = st.nextSlot + count)
    (same : st'.scopes = st.scopes) (declares : s.declares st.scope = [])
    (within : s.Scoped st.scope) (touched : s.accesses st.scope = accesses) :
    Numbered st [s] st' [] count accesses where
  isOpen := isOpen
  next := next
  vars := by rw [BodyState.vars, same]; rfl
  outer := by rw [same]
  accesses := (allAccesses_single s).trans touched
  within := ⟨within, trivial⟩
  after := by
    rw [Code.Stmt.scopeAfter, Code.Stmt.scopeAfter, declares, BodyState.scope, BodyState.scope,
      BodyState.vars, BodyState.vars, same]
    rfl

theorem scope_of_scopes {st st' : BodyState} (same : st'.scopes = st.scopes) :
    st'.vars = st.vars ∧ st'.scope = st.scope := by
  rw [BodyState.scope, BodyState.scope, BodyState.vars, BodyState.vars, same]
  exact ⟨rfl, rfl⟩

mutual

/-- Lowering a statement numbers its variables. -/
theorem lowerStmt_numbers : (s : Source.Stmt) → Numbers (lowerStmt cx kind s) s.adds s.variables
    fun vars next => s.accesses cx.own? vars next
  | .block body span => by
    rw [lowerStmt]
    have inner := (lowerStmts_numbers body).inScope
    refine (Checks.seq inner fun code => Checks.pure _).mono ?_
    rintro st _ st' ⟨code, _, inner, rfl, rfl⟩ isOpen
    obtain ⟨isOpen', next, same, touched, within⟩ := inner isOpen
    have touched : (Code.Stmt.block code).accesses st.scope
        = (Source.Stmt.block body span).accesses cx.own? st.vars st.nextSlot := by
      rw [Code.Stmt.accesses, Source.Stmt.accesses, touched]
    exact .closed isOpen' next same rfl within touched
  | .empty _ => by
    rw [lowerStmt]
    exact .of_yields (.pure fun _ => ⟨rfl, trivial, rfl⟩)
  | .expr e => by
    rw [lowerStmt]
    refine Numbers.of_yields (.bind (lowerExpr_touches cx kind e) fun lowered => ?_)
    refine .pure fun st touched => ?_
    have within := within_of_accesses touched.1.2
    obtain ⟨same, declares, within⟩ := Code.Stmt.accesses_expr within
    rw [allAccesses_single, same, Code.Stmt.scopeAfter, Code.Stmt.scopeAfter, declares,
      Source.Stmt.accesses]
    exact ⟨touched.1.2, ⟨within, trivial⟩, rfl⟩
  | .declare type name none span => by
    rw [lowerStmt]
    have standard : ∀ t, Yields (pure (defaultCode t)) fun st code =>
        code.accesses = [] ∧ code.Within st.scope := by
      refine fun t => .pure fun st => ⟨accesses_defaultCode t, fun slot touched => ?_⟩
      rw [accesses_defaultCode] at touched
      rcases touched with touched | touched <;> cases touched
    have declared := fun t => declare_numbers (fun _ => []) (standard t) name t span
    refine (Checks.seq (resolve_yields cx type) declared).mono ?_
    rintro st code st' ⟨t, _, ⟨rfl, _⟩, numbered⟩ isOpen
    exact numbered isOpen
  | .declare type name (some e) span => by
    rw [lowerStmt]
    have declared := fun t => declare_numbers (e.accesses cx.own?) (lowerAs_accesses cx kind e t)
      name t span
    refine (Checks.seq (resolve_yields cx type) declared).mono ?_
    rintro st code st' ⟨t, _, ⟨rfl, _⟩, numbered⟩ isOpen
    exact numbered isOpen
  | .ret value span => by
    rw [lowerStmt]
    exact lowerReturn_numbers cx kind value span
  | .ifThen c t span => by
    rw [lowerStmt]
    have inner := (lowerStmt_numbers t).inScope
    refine (Checks.seq (lowerCondition_accesses cx kind c) fun condition =>
      Checks.seq inner fun thenCode => Checks.pure _).mono ?_
    rintro _ _ st' ⟨condition, st, ⟨rfl, same, hc⟩, thenCode, _, ht, rfl, rfl⟩ isOpen
    obtain ⟨isOpen', next, scopes, touched, within⟩ := ht isOpen
    have touched : (Code.Stmt.cond condition thenCode []).accesses st.scope
        = (Source.Stmt.ifThen c t span).accesses cx.own? st.vars st.nextSlot := by
      rw [Code.Stmt.accesses, Source.Stmt.accesses, Code.Stmt.allAccesses, List.append_nil, touched,
        same]
    exact .closed isOpen' next scopes rfl ⟨hc, within, trivial⟩ touched
  | .ifElse c t e span => by
    rw [lowerStmt]
    have first := (lowerStmt_numbers t).inScope
    have second := (lowerStmt_numbers e).inScope
    refine (Checks.seq (lowerCondition_accesses cx kind c) fun condition =>
      Checks.seq first fun thenCode => Checks.seq second fun elseCode => Checks.pure _).mono ?_
    rintro _ _ st' ⟨condition, st, ⟨rfl, same, hc⟩, thenCode, st₁, ht, elseCode, _, he, rfl, rfl⟩
      isOpen
    obtain ⟨isOpen₁, next₁, scopes₁, touched₁, within₁⟩ := ht isOpen
    obtain ⟨isOpen₂, next₂, scopes₂, touched₂, within₂⟩ := he isOpen₁
    obtain ⟨vars, scope⟩ := scope_of_scopes scopes₁
    rw [scope] at touched₂ within₂
    have touched : (Code.Stmt.cond condition thenCode elseCode).accesses st.scope
        = (Source.Stmt.ifElse c t e span).accesses cx.own? st.vars st.nextSlot := by
      rw [Code.Stmt.accesses, Source.Stmt.accesses, touched₁, touched₂, same, vars, next₁]
    have next : st'.nextSlot = st.nextSlot + (t.variables + e.variables) := by omega
    exact .closed isOpen₂ next (scopes₂.trans scopes₁) rfl ⟨hc, within₁, within₂⟩ touched
  | .loop c b span => by
    rw [lowerStmt]
    have inner := (lowerStmt_numbers b).inScope
    refine (Checks.seq (lowerCondition_accesses cx kind c) fun condition =>
      Checks.seq inner fun body => Checks.pure _).mono ?_
    rintro _ _ st' ⟨condition, st, ⟨rfl, same, hc⟩, body, _, hb, rfl, rfl⟩ isOpen
    obtain ⟨isOpen', next, scopes, touched, within⟩ := hb isOpen
    have touched : (Code.Stmt.loop condition body).accesses st.scope
        = (Source.Stmt.loop c b span).accesses cx.own? st.vars st.nextSlot := by
      rw [Code.Stmt.accesses, Source.Stmt.accesses, touched, same]
    exact .closed isOpen' next scopes rfl ⟨hc, within⟩ touched
  | .throw e span => by
    rw [lowerStmt]
    refine Numbers.of_yields (.bind (lowerExpr_touches cx kind e) fun lowered => ?_)
    dsimp only
    split
    · exact .reportThen fun _ => .pure fun _ => trivial
    · refine .pure fun st touched => ?_
      rw [allAccesses_single, Code.Stmt.accesses, Source.Stmt.accesses]
      exact ⟨touched.1.2, ⟨within_of_accesses touched.1.2, trivial⟩, rfl⟩

theorem lowerStmts_numbers : (ss : List Source.Stmt) → Numbers (lowerStmts cx kind ss)
    (fun next => Source.Stmt.allAdds next ss) (Source.Stmt.allVariables ss)
    fun vars next => Source.Stmt.allAccesses cx.own? vars next ss
  | [] => by
    rw [lowerStmts]
    exact .of_yields (.pure fun _ => ⟨rfl, trivial, rfl⟩)
  | s :: ss => by
    rw [lowerStmts]
    have others := lowerStmts_numbers ss
    refine (Checks.seq (lowerStmt_numbers s) fun code =>
      Checks.seq others fun codes => Checks.pure _).mono ?_
    rintro st _ st' ⟨code, st₁, hs, codes, _, hss, rfl, rfl⟩ isOpen
    have first := hs isOpen
    have rest := hss first.isOpen
    refine ⟨rest.isOpen, ?_, ?_, rest.outer.trans first.outer, ?_, ?_, ?_⟩
    · rw [rest.next, first.next, Source.Stmt.allVariables, Nat.add_assoc]
    · dsimp only
      rw [rest.vars, first.vars, first.next, Source.Stmt.allAdds, List.append_assoc]
    · dsimp only
      rw [Code.Stmt.allAccesses_append, first.accesses, first.after, rest.accesses, first.vars,
        first.next, Source.Stmt.allAccesses]
    · rw [Code.Stmt.allScoped_append, first.after]
      exact ⟨first.within, rest.within⟩
    · rw [Code.Stmt.scopeAfter_append, first.after, rest.after]

end

end Lower

end Check

end Classwright
