import Classwright.Machine.Failure
import Classwright.Proofs.Lowering

/-!
# What code touches

`accesses` lists what an expression reads, writes and calls, in the order of its evaluation, once
for code and once for source, where it is told what names stand for. Lowering keeps the list: each
name of the source became a slot of the variable or field that it stands for, and nothing else is
touched.
-/

namespace Classwright

/-- What an expression touches apart from the values of its operands. A variable is declared where
it is first written. -/
inductive Access
  | read (kind : SlotKind) (slot : Nat)
  | write (kind : SlotKind) (slot : Nat)
  | declare (slot : Nat)
  | this
  | super
  | call (method : String)
deriving DecidableEq

/-- Whether there has to be an object. -/
def Access.needsThis : Access → Bool
  | read .field _ | write .field _ | this | super => true
  | _ => false

/-- The slot of a variable or field. -/
abbrev SlotOf := SlotKind × Nat

namespace Code

mutual

def Expr.accesses : Expr → List Access
  | .const _ => []
  | .var slot => [.read .local_ slot]
  | .this => [.this]
  | .field slot => [.read .field slot]
  | .static slot => [.read .static slot]
  | .storeVar slot e => e.accesses ++ [.write .local_ slot]
  | .storeField slot e => e.accesses ++ [.write .field slot]
  | .storeStatic slot e => e.accesses ++ [.write .static slot]
  | .unary _ e | .cast _ _ e => e.accesses
  | .binary _ l r | .and l r | .or l r => l.accesses ++ r.accesses
  | .conditional c t e => c.accesses ++ (t.accesses ++ e.accesses)
  | .invoke receiver name args => receiver.accesses ++ (Expr.allAccesses args ++ [.call name])
  | .invokeSuper _ args => Expr.allAccesses args ++ [.super]

def Expr.allAccesses : List Expr → List Access
  | [] => []
  | e :: es => e.accesses ++ Expr.allAccesses es

end

end Code

namespace Source

/-- The slot that a name stands for: that of the innermost variable of this name, or else that of an
own field. -/
def slotOf? (own : String → Option SlotOf) (vars : List (String × Nat)) (name : String) :
    Option SlotOf :=
  match vars.lookup name with
  | some slot => some (.local_, slot)
  | none => own name

/-- The slot that a name stands for, alone or behind `this`. -/
def Expr.slot? (own : String → Option SlotOf) (vars : List (String × Nat)) : Expr → Option SlotOf
  | .name n _ => slotOf? own vars n
  | .access (.this _) n _ => own n
  | _ => none

def readOf (slot? : Option SlotOf) : List Access := slot?.toList.map fun p => .read p.1 p.2

def writeOf (slot? : Option SlotOf) : List Access := slot?.toList.map fun p => .write p.1 p.2

mutual

/-- An assignment with an operator reads what it writes, in front of its other operand. -/
def Expr.accesses (own : String → Option SlotOf) (vars : List (String × Nat)) :
    Expr → List Access
  | .literal _ _ => []
  | .name n _ => readOf (slotOf? own vars n)
  | .this _ => [.this]
  | .access target n s => readOf ((Expr.access target n s).slot? own vars)
  | .call target n args _ =>
    target.accesses own vars ++ (Expr.allAccesses own vars args ++ [.call n])
  | .ownCall n args _ => .this :: (Expr.allAccesses own vars args ++ [.call n])
  | .superCall _ args _ => Expr.allAccesses own vars args ++ [.super]
  | .unary _ e _ | .cast _ e _ => e.accesses own vars
  | .binary _ l r _ | .logical _ l r _ => l.accesses own vars ++ r.accesses own vars
  | .assign op target value _ =>
    (if op.isSome then readOf (target.slot? own vars) else [])
      ++ value.accesses own vars ++ writeOf (target.slot? own vars)
  | .conditional c t e _ =>
    c.accesses own vars ++ (t.accesses own vars ++ e.accesses own vars)

def Expr.allAccesses (own : String → Option SlotOf) (vars : List (String × Nat)) :
    List Expr → List Access
  | [] => []
  | e :: es => e.accesses own vars ++ Expr.allAccesses own vars es

end

end Source

namespace Check

/-- The slot of an own field. -/
def ClassContext.own? (cx : ClassContext) (name : String) : Option SlotOf :=
  (cx.field? name).map fun info => (if info.isStatic then .static else .field, info.slot)

/-- The slots of the variables in scope, innermost first. -/
def BodyState.vars (st : BodyState) : List (String × Nat) :=
  st.scopes.flatten.map fun x => (x.1, x.2.slot)

def Place.slot : Place → SlotOf
  | var slot _ => (.local_, slot)
  | field slot _ => (.field, slot)
  | static slot _ => (.static, slot)

theorem Place.accesses_load (p : Place) : p.load.accesses = [.read p.slot.1 p.slot.2] := by
  cases p <;> simp [load, slot, Code.Expr.accesses]

theorem Place.accesses_store (p : Place) (value : Code.Expr) :
    (p.store value).accesses = value.accesses ++ [.write p.slot.1 p.slot.2] := by
  cases p <;> simp [store, slot, Code.Expr.accesses]

theorem accesses_convert (t : TypeRef) (e : Code.Expr) : (convert t e).accesses = e.accesses := by
  rw [convert, Code.Expr.accesses]

theorem accesses_promote (e : Code.Expr) (source target : Primitive) :
    (promote e source target).accesses = e.accesses := by
  unfold promote
  split
  · rfl
  · exact accesses_convert _ e

theorem accesses_defaultCode (t : TypeRef) : (defaultCode t).accesses = [] := by
  unfold defaultCode
  split <;> rfl

theorem lookup_vars (st : BodyState) (name : String) :
    st.vars.lookup name = ((st.scopes.flatten.find? (·.1 == name)).map (·.2)).map (·.slot) := by
  unfold BodyState.vars
  induction st.scopes.flatten with
  | nil => rfl
  | cons x xs ih =>
    rw [List.map_cons, List.lookup_cons, List.find?_cons]
    by_cases same : x.1 = name
    · simp [same]
    · have other : (name == x.1) = false := beq_eq_false_iff_ne.2 (Ne.symm same)
      have other' : (x.1 == name) = false := beq_eq_false_iff_ne.2 same
      rw [other, other']
      exact ih

theorem of_ne_error (t : TypeRef) : StaticType.of t ≠ .error := by
  cases t <;> simp [StaticType.of]

/-- The code touches just this, and the expression has not been reported. -/
def Lowered.Touches (lowered : Lowered) (accesses : List Access) : Prop :=
  lowered.2 ≠ .error ∧ lowered.1.accesses = accesses

namespace Lower

open Source (readOf writeOf slotOf?)

/-! ### Operators, conversions and calls -/

theorem coerce_accesses (cx : ClassContext) (code : Code.Expr) (source : StaticType)
    (target : TypeRef) (span : Span) :
    Yields (coerce cx code source target span) fun _ result => result.accesses = code.accesses := by
  obtain ⟨_, _, -, -, -, -, same⟩ | ⟨-, -, same⟩ | ⟨-, ⟨a, b, -, -, same⟩ | ⟨-, same⟩⟩ :=
    coerce_cases cx code source target span
  all_goals rw [same]
  · exact .pure fun _ => accesses_convert ..
  · exact .reportThen fun _ => .pure fun _ => trivial
  · exact .pure fun _ => accesses_promote ..
  · exact .pure fun _ => rfl

theorem asCondition_code (lowered : Lowered) (span : Span) :
    Yields (asCondition lowered span) fun _ code => code = lowered.1 := by
  unfold asCondition
  split
  · exact .reportThen fun _ => .pure fun _ => trivial
  · exact .pure fun _ => rfl

theorem lowerUnary_touches (op : SignOp) (operand : Lowered) (span : Span) :
    Yields (lowerUnary op operand span) fun _ lowered =>
      operand.2 ≠ .error → lowered.Touches operand.1.accesses := by
  obtain ⟨code, type⟩ := operand
  unfold lowerUnary
  dsimp only
  split
  · rename_i reported
    exact .pure fun _ unreported => absurd reported unreported
  · cases op with
    | not =>
      simp only
      split
      · exact .fail
      · exact .pure fun _ _ => ⟨nofun, by rw [Code.Expr.accesses]⟩
    | negate =>
      simp only
      split
      · exact .fail
      · exact .pure fun _ _ => ⟨nofun, by rw [Code.Expr.accesses, accesses_promote]⟩
    | plus =>
      simp only
      split
      · exact .fail
      · exact .pure fun _ _ => ⟨nofun, accesses_promote ..⟩

theorem lowerBinary_touches (op : BinaryOp) (left right : Lowered) (span : Span) :
    Yields (lowerBinary op left right span) fun _ lowered =>
      left.2 ≠ .error → right.2 ≠ .error →
        lowered.Touches (left.1.accesses ++ right.1.accesses) := by
  obtain ⟨l, lt⟩ := left
  obtain ⟨r, rt⟩ := right
  have joined : (Code.Expr.binary op l r).accesses = l.accesses ++ r.accesses := by
    rw [Code.Expr.accesses]
  unfold lowerBinary
  dsimp only
  split
  · rename_i reported
    exact .pure fun _ hl hr => absurd reported (not_or.2 ⟨hl, hr⟩)
  · split
    · split
      · exact .fail
      · exact .pure fun _ _ _ => ⟨nofun, joined⟩
    · split
      · refine .pure fun _ _ _ => ⟨?_, ?_⟩
        · dsimp only
          split <;> simp [StaticType.boolean]
        · rw [Code.Expr.accesses, accesses_promote, accesses_promote]
      · split
        · split
          · exact .pure fun _ _ _ => ⟨nofun, joined⟩
          · exact .fail
        · exact .fail

theorem joinBranches_touches (thenBranch elseBranch : Lowered) (span : Span) :
    Yields (joinBranches thenBranch elseBranch span) fun _ joined =>
      thenBranch.2 ≠ .error → elseBranch.2 ≠ .error → joined.2.2 ≠ .error ∧
        joined.1.accesses = thenBranch.1.accesses ∧
        joined.2.1.accesses = elseBranch.1.accesses := by
  obtain ⟨t, tt⟩ := thenBranch
  obtain ⟨e, et⟩ := elseBranch
  unfold joinBranches
  dsimp only
  split
  · exact .pure fun _ ht _ => ⟨ht, rfl, rfl⟩
  · split
    · rename_i reported
      exact .pure fun _ ht he => absurd reported (not_or.2 ⟨ht, he⟩)
    · split
      · exact .pure fun _ _ _ => ⟨nofun, accesses_promote .., accesses_promote ..⟩
      · split
        · exact .pure fun _ _ he => ⟨he, rfl, rfl⟩
        · split
          · exact .pure fun _ ht _ => ⟨ht, rfl, rfl⟩
          · split
            · exact .reportThen fun _ => .pure fun _ => trivial
            · exact .pure fun _ _ _ => ⟨nofun, rfl, rfl⟩

theorem lowerCast_touches (target : TypeRef) (operand : Lowered) (span operandSpan : Span) :
    Yields (lowerCast target operand span operandSpan) fun _ lowered =>
      lowered.Touches operand.1.accesses := by
  obtain ⟨code, source⟩ := operand
  have cast : ∀ mode, Yields (pure (.cast target mode code, .of target))
      fun _ (lowered : Lowered) =>
      lowered.Touches code.accesses := fun mode =>
    .pure fun _ => ⟨of_ne_error target, by rw [Code.Expr.accesses]⟩
  unfold lowerCast
  dsimp only
  split
  · exact .fail
  · split
    · exact .fail
    · exact cast .convert
  · split
    · exact cast .convert
    · exact .fail
  · exact .fail
  · exact cast .check

/-- What arguments touch. -/
def argumentAccesses (args : List Argument) : List Access :=
  Code.Expr.allAccesses (args.map (·.code))

theorem coerceArgs_accesses (cx : ClassContext) (params : List TypeRef) (args : List Argument) :
    Yields (coerceArgs cx params args) fun _ codes =>
      Code.Expr.allAccesses codes = argumentAccesses args := by
  induction args generalizing params with
  | nil =>
    have nothing : coerceArgs cx params [] = pure [] := by
      cases params <;> rfl
    rw [nothing]
    exact .pure fun _ => rfl
  | cons a args ih =>
    cases params with
    | nil =>
      have more : Yields (do return a.code :: (← coerceArgs cx [] args)) fun _ codes =>
          Code.Expr.allAccesses codes = argumentAccesses (a :: args) := by
        refine .bind (ih []) fun codes => .pure fun _ rest => ?_
        rw [argumentAccesses, List.map_cons, Code.Expr.allAccesses, Code.Expr.allAccesses, rest]
        rfl
      rw [coerceArgs]
      split
      · exact .reportThen fun _ => more.mono fun _ _ _ => trivial
      · exact more
    | cons p params =>
      rw [coerceArgs]
      refine .bind (coerce_accesses cx a.code a.type p a.span) fun code => ?_
      refine .bind (ih params) fun codes => .pure fun _ rest first => ?_
      rw [argumentAccesses, List.map_cons, Code.Expr.allAccesses, Code.Expr.allAccesses, rest,
        first]
      rfl

theorem lowerCall_touches (cx : ClassContext) (receiver : Lowered) (name : String)
    (args : List Argument) (span : Span) :
    Yields (lowerCall cx receiver name args span) fun _ lowered => receiver.2 ≠ .error →
      lowered.Touches (receiver.1.accesses ++ (argumentAccesses args ++ [.call name])) := by
  obtain ⟨receiver, type⟩ := receiver
  unfold lowerCall
  dsimp only
  split
  · exact .pure fun _ unreported => absurd rfl unreported
  · split
    · exact .fail
    · rename_i params result chosen
      refine .bind (coerceArgs_accesses cx params args) fun codes => ?_
      refine .pure fun _ same _ => ⟨?_, by rw [Code.Expr.accesses, same]⟩
      rcases World.callee?_eq_some chosen with ⟨_, _, _, _, _, _, rfl⟩ | ⟨_, _, _, rfl⟩
      · exact of_ne_error _
      · exact of_ne_error _
  · exact .fail

theorem lowerSuperCall_touches (cx : ClassContext) (name : String) (args : List Argument)
    (span : Span) : Yields (lowerSuperCall cx name args span) fun _ lowered =>
      lowered.Touches (argumentAccesses args ++ [.super]) := by
  have called : ∀ params result, Yields (do
      let codes ← coerceArgs cx params args
      return (.invokeSuper name codes, .of result)) fun _ (lowered : Lowered) =>
        lowered.Touches (argumentAccesses args ++ [.super]) := by
    intro params result
    refine .bind (coerceArgs_accesses cx params args) fun codes => ?_
    exact .pure fun _ same => ⟨of_ne_error result, by rw [Code.Expr.accesses, same]⟩
  unfold lowerSuperCall
  split
  · split
    · exact .fail
    · exact called _ _
  · split
    · exact .fail
    · exact called _ _

theorem lowerStore_touches (cx : ClassContext) (op : Option BinaryOp) (place : Place)
    (value : Lowered) (span valueSpan : Span) :
    Yields (lowerStore cx op place value span valueSpan) fun _ lowered => value.2 ≠ .error →
      lowered.Touches ((if op.isSome then readOf (some place.slot) else [])
        ++ value.1.accesses ++ writeOf (some place.slot)) := by
  have stores : ∀ (code : Code.Expr) (read : List Access), code.accesses = read →
      Lowered.Touches (place.store code, .of place.type) (read ++ writeOf (some place.slot)) :=
    fun code read same => ⟨of_ne_error _, by rw [place.accesses_store, same]; rfl⟩
  unfold lowerStore
  dsimp only
  cases op with
  | none =>
    refine .bind (coerce_accesses cx value.1 value.2 place.type valueSpan) fun stored => ?_
    exact .pure fun _ same _ => stores stored _ same
  | some op =>
    refine .bind (lowerBinary_touches op (place.load, .of place.type) value span)
      fun combined => ?_
    have both : (place.load.accesses ++ value.1.accesses)
        = readOf (some place.slot) ++ value.1.accesses := by
      rw [place.accesses_load]
      rfl
    split
    · refine .pure fun _ hcombined unreported => stores _ _ ?_
      rw [accesses_promote, (hcombined (of_ne_error _) unreported).2, both]
      rfl
    · refine .bind (coerce_accesses cx combined.1 combined.2 place.type span) fun stored => ?_
      refine .pure fun _ same hcombined unreported => stores _ _ ?_
      rw [same, (hcombined (of_ne_error _) unreported).2, both]
      rfl

/-! ### Names -/

/-- Code without an object touches none. -/
def Allowed (kind : BodyKind) (accesses : List Access) : Prop :=
  kind = .staticInit → ∀ a ∈ accesses, a.needsThis = false

theorem allowed_append {kind : BodyKind} {xs ys : List Access} :
    Allowed kind (xs ++ ys) ↔ Allowed kind xs ∧ Allowed kind ys := by
  simp only [Allowed, List.mem_append, or_imp, forall_and]

theorem allowed_nil {kind : BodyKind} : Allowed kind [] := fun _ _ member => nomatch member

theorem allowed_call {kind : BodyKind} (name : String) : Allowed kind [.call name] := by
  intro _ a member
  rw [List.mem_singleton.1 member]
  rfl

/-- The place is that of the slot, which this kind of code may touch. -/
def IsPlace (kind : BodyKind) (slot? : Option SlotOf) (found : Option Place) : Prop :=
  ∃ place, found = some place ∧ slot? = some place.slot ∧
    Allowed kind (readOf slot?) ∧ Allowed kind (writeOf slot?)

theorem isPlace_of {kind : BodyKind} (place : Place)
    (allowed : kind = .staticInit → place.slot.1 ≠ .field) :
    IsPlace kind (some place.slot) (some place) := by
  refine ⟨place, rfl, rfl, fun static => ?_, fun static => ?_⟩
  all_goals
    have noField := allowed static
    intro a member
    rw [List.mem_singleton.1 member]
    cases place <;> first | rfl | exact absurd rfl noField

theorem fieldPlace?_isPlace (cx : ClassContext) (kind : BodyKind) (name : String) (span : Span) :
    Yields (fieldPlace? cx kind name span) fun _ found => IsPlace kind (cx.own? name) found := by
  unfold fieldPlace?
  split
  · exact .reportThen fun _ => .pure fun _ => trivial
  · rename_i info field
    rw [ClassContext.own?, field, Option.map_some]
    split
    · exact .pure fun _ => isPlace_of (.static info.slot info.type) fun _ => nofun
    · split
      · exact .reportThen fun _ => .pure fun _ => trivial
      · rename_i object
        exact .pure fun _ => isPlace_of (.field info.slot info.type) fun static =>
          absurd static object

theorem namePlace?_isPlace (cx : ClassContext) (kind : BodyKind) (name : String) (span : Span) :
    Yields (namePlace? cx kind name span) fun st found =>
      IsPlace kind (slotOf? cx.own? st.vars name) found := by
  unfold namePlace?
  refine .bind (.lookupVariable? name) fun v => ?_
  cases v with
  | none =>
    refine (fieldPlace?_isPlace cx kind name span).mono fun st found is same => ?_
    rw [slotOf?, lookup_vars, ← same]
    exact is
  | some v =>
    refine .pure fun st same => ?_
    rw [slotOf?, lookup_vars, ← same]
    exact isPlace_of (.var v.slot v.type) fun _ => nofun

theorem accessPlace?_isPlace (cx : ClassContext) (kind : BodyKind) (target : Source.Expr)
    (name : String) (span : Span) :
    Yields (accessPlace? cx kind target name span) fun st found =>
      IsPlace kind ((Source.Expr.access target name span).slot? cx.own? st.vars) found := by
  unfold accessPlace?
  split
  · split
    · exact .reportThen fun _ => .pure fun _ => trivial
    · exact fieldPlace?_isPlace cx kind name span
  · exact .reportThen fun _ => .pure fun _ => trivial

theorem targetPlace?_isPlace (cx : ClassContext) (kind : BodyKind) (target : Source.Expr) :
    Yields (targetPlace? cx kind target) fun st found =>
      IsPlace kind (target.slot? cx.own? st.vars) found := by
  have guarded : ∀ place name span, Yields
      (do
        guardFinal cx kind name place span
        pure (some place))
      (fun _ result => result = some place) := fun place name span =>
    .bind (World.guardFinal_yields cx kind name place span) fun _ => .pure fun _ _ => rfl
  unfold targetPlace?
  split
  · refine .bind (namePlace?_isPlace cx kind _ _) fun found => ?_
    cases found with
    | none => exact .pure fun _ ⟨_, none_, _⟩ => nomatch none_
    | some place => exact (guarded place _ _).mono fun _ _ same h => same ▸ h
  · refine .bind (accessPlace?_isPlace cx kind _ _ _) fun found => ?_
    cases found with
    | none => exact .pure fun _ ⟨_, none_, _⟩ => nomatch none_
    | some place => exact (guarded place _ _).mono fun _ _ same h => same ▸ h
  · exact .reportThen fun _ => .pure fun _ => trivial

theorem lowerPlace_touches {kind : BodyKind} {slot? : Option SlotOf} {found : Option Place}
    (h : IsPlace kind slot? found) :
    (lowerPlace found).Touches (readOf slot?) ∧ Allowed kind (readOf slot?) := by
  obtain ⟨place, rfl, rfl, allowed, _⟩ := h
  exact ⟨⟨of_ne_error _, place.accesses_load⟩, allowed⟩

theorem lowerThis_touches (cx : ClassContext) (kind : BodyKind) (cause : Cause) (span : Span) :
    Yields (lowerThis cx kind cause span) fun _ lowered =>
      lowered.Touches [.this] ∧ Allowed kind [.this] := by
  unfold lowerThis
  split
  · exact .fail
  · rename_i object
    exact .pure fun _ => ⟨⟨nofun, rfl⟩, fun static => absurd static object⟩

/-! ### Expressions -/

mutual

theorem lowerExpr_touches (cx : ClassContext) (kind : BodyKind) :
    (e : Source.Expr) → Yields (lowerExpr cx kind e) fun st lowered =>
      lowered.Touches (e.accesses cx.own? st.vars) ∧ Allowed kind (e.accesses cx.own? st.vars)
  | .literal v _ => by
    rw [lowerExpr]
    refine .pure fun st => ?_
    rw [Source.Expr.accesses]
    refine ⟨?_, allowed_nil⟩
    cases v <;> exact ⟨nofun, rfl⟩
  | .name name span => by
    rw [lowerExpr]
    refine .bind (namePlace?_isPlace cx kind name span) fun found => .pure fun st is => ?_
    rw [Source.Expr.accesses]
    exact lowerPlace_touches is
  | .this span => by
    rw [lowerExpr]
    refine (lowerThis_touches cx kind _ span).mono fun st lowered touched => ?_
    rw [Source.Expr.accesses]
    exact touched
  | .access target name span => by
    rw [lowerExpr]
    refine .bind (accessPlace?_isPlace cx kind target name span) fun found => .pure fun st is => ?_
    rw [Source.Expr.accesses]
    exact lowerPlace_touches is
  | .call target name args span => by
    rw [lowerExpr]
    refine .bind (lowerExpr_touches cx kind target) fun receiver => ?_
    refine .bind (lowerArgs_touches cx kind args) fun args => ?_
    refine (lowerCall_touches cx receiver name args span).mono ?_
    intro st lowered called hargs hreceiver
    rw [Source.Expr.accesses, ← hreceiver.1.2, ← hargs.1, allowed_append, allowed_append]
    refine ⟨called hreceiver.1.1, hreceiver.1.2 ▸ hreceiver.2, hargs.1 ▸ hargs.2, ?_⟩
    exact allowed_call name
  | .ownCall name args span => by
    rw [lowerExpr]
    refine .bind (lowerThis_touches cx kind _ span) fun receiver => ?_
    split
    · rename_i reported
      exact .pure fun _ hreceiver => absurd reported hreceiver.1.1
    · refine .bind (lowerArgs_touches cx kind args) fun args => ?_
      refine (lowerCall_touches cx receiver name args span).mono ?_
      intro st lowered called hargs hreceiver
      rw [Source.Expr.accesses, ← List.singleton_append, ← hargs.1, allowed_append, allowed_append]
      refine ⟨hreceiver.1.2 ▸ called hreceiver.1.1, hreceiver.2, hargs.1 ▸ hargs.2, ?_⟩
      exact allowed_call name
  | .superCall name args span => by
    rw [lowerExpr]
    split
    · exact .fail
    · rename_i object
      refine .bind (lowerArgs_touches cx kind args) fun args => ?_
      refine (lowerSuperCall_touches cx name args span).mono fun st lowered touched hargs => ?_
      rw [Source.Expr.accesses, ← hargs.1]
      exact ⟨touched, fun static => absurd static object⟩
  | .unary op e span => by
    rw [lowerExpr]
    refine .bind (lowerExpr_touches cx kind e) fun operand => ?_
    refine (lowerUnary_touches op operand span).mono fun st lowered touched he => ?_
    rw [Source.Expr.accesses, ← he.1.2]
    exact ⟨touched he.1.1, he.1.2 ▸ he.2⟩
  | .binary op l r span => by
    rw [lowerExpr]
    refine .bind (lowerExpr_touches cx kind l) fun left => ?_
    refine .bind (lowerExpr_touches cx kind r) fun right => ?_
    refine (lowerBinary_touches op left right span).mono fun st lowered touched hr hl => ?_
    rw [Source.Expr.accesses, allowed_append, ← hl.1.2, ← hr.1.2]
    exact ⟨touched hl.1.1 hr.1.1, hl.1.2 ▸ hl.2, hr.1.2 ▸ hr.2⟩
  | .logical op l r span => by
    rw [lowerExpr]
    refine .bind (lowerExpr_touches cx kind l) fun left => ?_
    refine .bind (asCondition_code left _) fun leftCode => ?_
    refine .bind (lowerExpr_touches cx kind r) fun right => ?_
    refine .bind (asCondition_code right _) fun rightCode => ?_
    have both : ∀ (code : Code.Expr) (st : BodyState),
        code.accesses = leftCode.accesses ++ rightCode.accesses → rightCode = right.1 →
        right.Touches (r.accesses cx.own? st.vars) ∧ Allowed kind (r.accesses cx.own? st.vars) →
        leftCode = left.1 →
        left.Touches (l.accesses cx.own? st.vars) ∧ Allowed kind (l.accesses cx.own? st.vars) →
        Lowered.Touches (code, .boolean)
            ((Source.Expr.logical op l r span).accesses cx.own? st.vars) ∧
          Allowed kind ((Source.Expr.logical op l r span).accesses cx.own? st.vars) := by
      rintro code st same rfl hr rfl hl
      rw [Source.Expr.accesses, allowed_append, ← hl.1.2, ← hr.1.2]
      exact ⟨⟨nofun, same⟩, hl.1.2 ▸ hl.2, hr.1.2 ▸ hr.2⟩
    cases op with
    | and => exact .pure fun st => both _ st (by rw [Code.Expr.accesses])
    | or => exact .pure fun st => both _ st (by rw [Code.Expr.accesses])
  | .assign op target value span => by
    rw [lowerExpr]
    refine .bind (targetPlace?_isPlace cx kind target) fun found => ?_
    refine .bind (lowerExpr_touches cx kind value) fun lowered => ?_
    cases found with
    | none => exact .pure fun _ _ ⟨_, none_, _⟩ => nomatch none_
    | some place =>
      refine (lowerStore_touches cx op place lowered span _).mono ?_
      rintro st _ stored hvalue ⟨place', same, slot, reads, writes⟩
      cases same
      rw [Source.Expr.accesses, allowed_append, allowed_append, ← hvalue.1.2, slot]
      refine ⟨stored hvalue.1.1, ⟨?_, hvalue.1.2 ▸ hvalue.2⟩, slot ▸ writes⟩
      split
      · exact slot ▸ reads
      · exact allowed_nil
  | .conditional c t e _ => by
    rw [lowerExpr]
    refine .bind (lowerExpr_touches cx kind c) fun condition => ?_
    refine .bind (asCondition_code condition _) fun conditionCode => ?_
    refine .bind (lowerExpr_touches cx kind t) fun thenBranch => ?_
    refine .bind (lowerExpr_touches cx kind e) fun elseBranch => ?_
    refine .bind (joinBranches_touches thenBranch elseBranch _) fun joined => ?_
    refine .pure fun st hjoined he ht hcc hc => ?_
    obtain ⟨unreported, thenSame, elseSame⟩ := hjoined ht.1.1 he.1.1
    rw [Source.Expr.accesses, allowed_append, allowed_append]
    refine ⟨⟨unreported, ?_⟩, hc.2, ht.2, he.2⟩
    rw [Code.Expr.accesses, hcc, hc.1.2, thenSame, ht.1.2, elseSame, he.1.2]
  | .cast type e span => by
    rw [lowerExpr]
    split
    · refine .reportThen fun _ => ?_
      refine .bind (lowerExpr_touches cx kind e) fun _ => ?_
      exact .pure fun _ _ => trivial
    · refine .bind (lowerExpr_touches cx kind e) fun operand => ?_
      refine (lowerCast_touches _ operand span _).mono fun st lowered touched he => ?_
      rw [Source.Expr.accesses, ← he.1.2]
      exact ⟨touched, he.1.2 ▸ he.2⟩

theorem lowerArgs_touches (cx : ClassContext) (kind : BodyKind) :
    (es : List Source.Expr) → Yields (lowerArgs cx kind es) fun st args =>
      argumentAccesses args = Source.Expr.allAccesses cx.own? st.vars es ∧
        Allowed kind (Source.Expr.allAccesses cx.own? st.vars es)
  | [] => by
    rw [lowerArgs]
    refine .pure fun st => ?_
    rw [Source.Expr.allAccesses]
    exact ⟨rfl, allowed_nil⟩
  | e :: es => by
    rw [lowerArgs]
    refine .bind (lowerExpr_touches cx kind e) fun lowered => ?_
    refine .bind (lowerArgs_touches cx kind es) fun args => ?_
    refine .pure fun st hargs he => ?_
    rw [Source.Expr.allAccesses, allowed_append]
    refine ⟨?_, he.2, hargs.2⟩
    rw [argumentAccesses, List.map_cons, Code.Expr.allAccesses, he.1.2, ← hargs.1]
    rfl

end

end Lower

end Check

end Classwright
