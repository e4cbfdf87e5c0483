import Classwright.Proofs.Typing

/-!
# Lowered code has its static type

`Lower.Checks` says of a lowering what holds of its result if nothing has been reported. For
expressions the lowering leaves its state alone then, and the code that comes with a static type
has that type.
-/

namespace Classwright.Check

/-- A lowering that ends without diagnostics has started without any, and then its result and the
state that it leaves are as `Post` says. -/
def Lower.Checks {α : Type} (body : Lower α) (Post : BodyState → α → BodyState → Prop) : Prop :=
  ∀ st, (body st).2.diagnostics = [] → st.diagnostics = [] ∧ Post st (body st).1 (body st).2

/-- A lowering that leaves its state alone if nothing is reported. -/
def Lower.Yields {α : Type} (body : Lower α) (P : BodyState → α → Prop) : Prop :=
  Lower.Checks body fun st a st' => st' = st ∧ P st a

namespace Lower

variable {α β : Type}

theorem Checks.bind {body : Lower α} {next : α → Lower β} {P : BodyState → α → BodyState → Prop}
    {Q : α → BodyState → β → BodyState → Prop} {R : BodyState → β → BodyState → Prop}
    (h : Checks body P) (hnext : ∀ a, Checks (next a) (Q a))
    (both : ∀ st a st' b st'', P st a st' → Q a st' b st'' → R st b st'') :
    Checks (body >>= next) R := by
  intro st clean
  change (next (body st).1 (body st).2).2.diagnostics = [] at clean
  obtain ⟨clean', second⟩ := hnext _ _ clean
  obtain ⟨start, first⟩ := h st clean'
  exact ⟨start, both _ _ _ _ _ first second⟩

/-- A step and what follows it, with the state between them. -/
theorem Checks.seq {body : Lower α} {next : α → Lower β} {P : BodyState → α → BodyState → Prop}
    {Q : α → BodyState → β → BodyState → Prop} (h : Checks body P)
    (hnext : ∀ a, Checks (next a) (Q a)) :
    Checks (body >>= next) fun st b st'' => ∃ a st', P st a st' ∧ Q a st' b st'' :=
  h.bind hnext fun _ a st' _ _ first second => ⟨a, st', first, second⟩

theorem Checks.pure (a : α) : Checks (pure a) fun st b st' => b = a ∧ st' = st := fun _ clean =>
  ⟨clean, rfl, rfl⟩

theorem Checks.mono {body : Lower α} {P Q : BodyState → α → BodyState → Prop} (h : Checks body P)
    (weaker : ∀ st a st', P st a st' → Q st a st') : Checks body Q := by
  intro st clean
  obtain ⟨start, ended⟩ := h st clean
  exact ⟨start, weaker _ _ _ ended⟩

/-- Where it matters which run a state comes from. -/
theorem Checks.exact {body : Lower α} {P : BodyState → α → BodyState → Prop}
    (h : Checks body P) : Checks body fun st a st' => P st a st' ∧ st' = (body st).2 := by
  intro st clean
  obtain ⟨start, ended⟩ := h st clean
  exact ⟨start, ended, rfl⟩

theorem Checks.get {next : BodyState → Lower β} {R : BodyState → β → BodyState → Prop}
    (h : ∀ s, Checks (next s) fun st b st' => st = s → R st b st') :
    Checks (MonadState.get >>= next) R := by
  intro st clean
  obtain ⟨start, ended⟩ := h st st clean
  exact ⟨start, ended rfl⟩

theorem Checks.modifyGet {change : BodyState → α × BodyState}
    (silent : ∀ st, (change st).2.diagnostics = st.diagnostics) :
    Checks (modifyGet change) fun st a st' => (a, st') = change st := fun st clean =>
  ⟨(silent st).symm.trans clean, rfl⟩

/-- What follows a report does not matter. -/
theorem Checks.reportThen {cause : Cause} {span : Span} {next : Unit → Lower β}
    {Q : Unit → BodyState → β → BodyState → Prop} {R : BodyState → β → BodyState → Prop}
    (hnext : ∀ u, Checks (next u) (Q u)) : Checks (Lower.report cause span >>= next) R := by
  intro st clean
  obtain ⟨reported, _⟩ := hnext _ _ clean
  exact absurd reported (List.append_ne_nil_of_right_ne_nil _ (List.cons_ne_nil _ _))

namespace Yields

variable {P : BodyState → α → Prop}

theorem mono {Q : BodyState → α → Prop} {body : Lower α} (h : Yields body P)
    (weaker : ∀ st a, P st a → Q st a) : Yields body Q := by
  intro st clean
  obtain ⟨start, same, ha⟩ := h st clean
  exact ⟨start, same, weaker _ _ ha⟩

theorem pure {a : α} (h : ∀ st, P st a) : Yields (pure a) P := fun st clean =>
  ⟨clean, rfl, h st⟩

theorem and {Q : BodyState → α → Prop} {body : Lower α} (h : Yields body P)
    (h' : Yields body Q) : Yields body fun st a => P st a ∧ Q st a := by
  intro st clean
  obtain ⟨start, same, ha⟩ := h st clean
  obtain ⟨_, _, ha'⟩ := h' st clean
  exact ⟨start, same, ha, ha'⟩

/-- Where it matters which run a result comes from. -/
theorem exact {body : Lower α} (h : Yields body P) :
    Yields body fun st a => P st a ∧ a = (body st).1 := by
  intro st clean
  obtain ⟨start, same, ha⟩ := h st clean
  exact ⟨start, same, ha, rfl⟩

theorem bind {Q : BodyState → β → Prop} {body : Lower α} {next : α → Lower β}
    (h : Yields body P) (hnext : ∀ a, Yields (next a) (fun st b => P st a → Q st b)) :
    Yields (body >>= next) Q := by
  refine Checks.bind h hnext ?_
  rintro st a st' b st'' ⟨rfl, ha⟩ ⟨rfl, hb⟩
  exact ⟨rfl, hb ha⟩

/-- Nothing that reports ends clean. -/
theorem report {cause : Cause} {span : Span} {P : BodyState → Unit → Prop} :
    Yields (report cause span) P := by
  intro st clean
  exact absurd clean (List.append_ne_nil_of_right_ne_nil _ (List.cons_ne_nil _ _))

theorem reportThen {cause : Cause} {span : Span} {next : Unit → Lower α}
    (hnext : ∀ u, Yields (next u) (fun _ _ => True)) :
    Yields (Lower.report cause span >>= next) P :=
  Checks.reportThen hnext

theorem fail {cause : Cause} {span : Span} {P : BodyState → Lowered → Prop} :
    Yields (fail cause span) P :=
  reportThen fun _ => pure fun _ => trivial

theorem lookupVariable? (name : String) : Yields (lookupVariable? name) (fun st found =>
    found = (st.scopes.flatten.find? (·.1 == name)).map (·.2)) := fun _ clean =>
  ⟨clean, rfl, rfl⟩

end Yields

end Lower

/-- The type of an expression that has not been reported; a reference type is neither `void` nor
primitive. -/
def StaticType.Proper : StaticType → Prop
  | .error => False
  | .ref t => StaticType.of t = .ref t
  | _ => True

theorem StaticType.proper_of (t : TypeRef) : (StaticType.of t).Proper := by
  cases t <;> trivial

/-- The variables in scope have slots of their own and types that values can have. -/
structure BodyState.Scoped (st : BodyState) : Prop where
  novoid : ∀ x ∈ st.scopes.flatten, x.2.type ≠ .void
  inside : ∀ x ∈ st.scopes.flatten, x.2.slot < st.nextSlot
  distinct : ∀ x ∈ st.scopes.flatten, ∀ y ∈ st.scopes.flatten, x.2.slot = y.2.slot →
    x.2.type = y.2.type

end Classwright.Check

namespace Classwright.World

open Check Check.Lower

variable {W : World} {n : Nat}

/-- The lowered code has its static type where the variables in scope are those of the state. -/
def Typed (W : World) (n : Nat) (st : BodyState) (lowered : Lowered) : Prop :=
  lowered.2.Proper ∧ W.Evaluates n st.scopes.flatten lowered.1 lowered.2

/-- The place has the type that is written to it and read from it. -/
def Placed (W : World) (n : Nat) (st : BodyState) : Place → Prop
  | .var slot t => ∃ x ∈ st.scopes.flatten, x.2 = ⟨slot, t⟩
  | .field slot t => t ≠ .void ∧ W.FieldSlot n slot t
  | .static slot t => t ≠ .void ∧ W.StaticSlot n slot t

theorem Placed.novoid {st : BodyState} (hst : st.Scoped) {place : Place}
    (h : W.Placed n st place) : place.type ≠ .void := by
  cases place with
  | var slot t =>
    obtain ⟨x, hx, same⟩ := h
    have := hst.novoid x hx
    rw [same] at this
    exact this
  | field slot t => exact h.1
  | static slot t => exact h.1

theorem Placed.load (valid : W.Valid) {st : BodyState} (hst : st.Scoped) {place : Place}
    (h : W.Placed n st place) : W.Typed n st (place.load, .of place.type) := by
  refine ⟨StaticType.proper_of _, ?_⟩
  cases place with
  | var slot t =>
    obtain ⟨⟨name, v⟩, hx, same⟩ := h
    cases same
    exact evaluates_var hx (hst.novoid _ hx)
  | field slot t => exact evaluates_field valid h.2 h.1
  | static slot t => exact evaluates_static valid h.2 h.1

theorem Placed.store (valid : W.Valid) {st : BodyState} (hst : st.Scoped) {place : Place}
    (h : W.Placed n st place) {code : Code.Expr}
    (hcode : W.Evaluates n st.scopes.flatten code (.of place.type)) :
    W.Typed n st (place.store code, .of place.type) := by
  refine ⟨StaticType.proper_of _, ?_⟩
  have novoid := h.novoid hst
  cases place with
  | var slot t =>
    obtain ⟨⟨name, v⟩, hx, same⟩ := h
    cases same
    exact hcode.storeVar novoid fun y hy slot => hst.distinct y hy _ hx slot
  | field slot t => exact hcode.storeField valid novoid h.2
  | static slot t => exact hcode.storeStatic valid novoid h.2

theorem Evaluates.promote {vars : Vars} {code : Code.Expr} {source target : Primitive}
    (h : W.Evaluates n vars code (.primitive source)) :
    W.Evaluates n vars (Check.promote code source target) (.primitive target) := by
  unfold Check.promote
  split
  · rename_i same
    exact same ▸ h
  · exact h.cast (.primitive target) .convert

/-- Only a primitive type can be assigned to a primitive type. -/
theorem primitive_of_isAssignable {cx : ClassContext} {source : StaticType} {kind : Primitive}
    (proper : source.Proper) (assignable : cx.isAssignable source (.primitive kind) = true) :
    ∃ own, source = .primitive own := by
  cases source with
  | void => cases assignable
  | null => cases assignable
  | primitive own => exact ⟨own, rfl⟩
  | ref t =>
    cases t with
    | primitive own => cases proper
    | _ => simp [ClassContext.isAssignable, ClassContext.isAssignableRef] at assignable
  | error => exact proper.elim

/-- Nothing can be assigned to `void`. -/
theorem novoid_of_isAssignable {cx : ClassContext} {source : StaticType} {target : TypeRef}
    (proper : source.Proper) (assignable : cx.isAssignable source target = true) :
    target ≠ .void := by
  rintro rfl
  cases source with
  | error => exact proper.elim
  | _ => cases assignable

/-- What may be assigned to a reference type is of that type as it stands. -/
theorem within_of_isAssignable (linked : W.Linked) {d : LoadedClass} (hd : W.classes n = some d)
    {source : StaticType} {target : TypeRef} (proper : source.Proper)
    (noprim : ∀ k, target ≠ .primitive k)
    (assignable : (W.context n).isAssignable source target = true) :
    W.Within source (.of target) := by
  intro v known holds
  have novoid := novoid_of_isAssignable proper assignable
  rw [StaticType.holds_of_iff novoid]
  cases source with
  | void => cases target <;> cases assignable
  | null =>
    have isNull : v = .null := holds
    subst isNull
    exact Value.isInstanceOf_null novoid noprim
  | primitive kind =>
    refine isInstanceOf_of_isAssignableRef linked hd known noprim ?_
      ((Value.isInstanceOf_primitive kind v).2 holds)
    cases target <;> exact assignable
  | ref t =>
    refine isInstanceOf_of_isAssignableRef linked hd known noprim ?_ holds
    cases target <;> first | exact assignable | exact absurd rfl novoid
  | error => exact proper.elim

theorem Evaluates.converted {vars : Vars} {code : Code.Expr} {kind : Primitive}
    {type : StaticType} (h : W.Evaluates n vars code (.primitive kind)) :
    W.EvaluatesFor n vars type (.primitive kind) code := fun calls frame sound hframe =>
  (h calls frame sound hframe).mono fun v hv =>
    ⟨hv.1, (Value.isInstanceOf_primitive kind v).2 hv.2, fun noprim => absurd rfl (noprim kind)⟩

/-- Code that is fitted to a type has the type, and the one that it had unless it is converted. -/
theorem coerce_yields (valid : W.Valid) {d : LoadedClass} (hd : W.classes n = some d)
    (code : Code.Expr) (source : StaticType) (target : TypeRef) (span : Span) :
    Yields (coerce (W.context n) code source target span) (fun st result =>
      W.Typed n st (code, source) →
        target ≠ .void ∧ W.EvaluatesFor n st.scopes.flatten source target result) := by
  obtain ⟨_, kind, rfl, rfl, rfl, _, same⟩ | ⟨_, _, same⟩ |
      ⟨assignable, ⟨a, b, rfl, rfl, same⟩ | ⟨notBoth, same⟩⟩ :=
    coerce_cases (W.context n) code source target span
  all_goals rw [same]
  · exact .pure fun _ typed => ⟨by simp, (typed.2.cast (.primitive kind) .convert).converted⟩
  · exact .reportThen fun _ => .pure fun _ => trivial
  · exact .pure fun _ typed => ⟨by simp, typed.2.promote.converted⟩
  · refine .pure fun _ typed => ?_
    have novoid := novoid_of_isAssignable typed.1 assignable
    have noprim : ∀ kind, target ≠ .primitive kind := by
      rintro kind rfl
      obtain ⟨own, same⟩ := primitive_of_isAssignable typed.1 assignable
      exact notBoth own kind same rfl
    have within := within_of_isAssignable valid.toLinked hd typed.1 noprim assignable
    refine ⟨novoid, fun calls frame sound hframe => ?_⟩
    refine (typed.2 calls frame sound hframe).mono fun v hv => ⟨hv.1, ?_, fun _ => hv.2⟩
    exact (StaticType.holds_of_iff novoid).1 (within v hv.1 hv.2)

theorem asCondition_yields (lowered : Lowered) (span : Span) :
    Yields (asCondition lowered span) (fun _ code =>
      lowered.2.Proper → code = lowered.1 ∧ lowered.2 = .boolean) := by
  unfold asCondition
  split
  · exact .reportThen fun _ => .pure fun _ => trivial
  · rename_i condition
    refine .pure fun _ proper => ⟨rfl, ?_⟩
    obtain ⟨code, type⟩ := lowered
    cases type with
    | primitive kind => cases kind <;> first | rfl | exact absurd rfl condition
    | error => exact proper.elim
    | _ => exact absurd rfl condition

theorem lowerLiteral_typed (st : BodyState) (v : Source.Literal) :
    W.Typed n st (lowerLiteral v) := by
  cases v with
  | string s => exact ⟨rfl, evaluates_const rfl⟩
  | _ => exact ⟨trivial, evaluates_const rfl⟩

/-- The value that a variable has when it is declared without one is of its type. -/
theorem evaluates_defaultCode {vars : Vars} {t : TypeRef} (novoid : t ≠ .void) :
    W.Evaluates n vars (defaultCode t) (.of t) := by
  have null : t ≠ .void → (∀ k, t ≠ .primitive k) →
      W.Evaluates n vars (.const .null) (.of t) := fun novoid noprim =>
    evaluates_const ((StaticType.holds_of_iff novoid).2 (Value.isInstanceOf_null novoid noprim))
  have zero : W.Evaluates n vars (.const (.int 0)) .int := evaluates_const rfl
  cases t with
  | void => exact absurd rfl novoid
  | named name => exact null novoid (by simp)
  | array element => exact null novoid (by simp)
  | primitive kind =>
    cases kind with
    | byte => exact zero.cast (.primitive .byte) .convert
    | short => exact zero.cast (.primitive .short) .convert
    | _ => exact evaluates_const rfl

/-- Every field of the class has the slot and the type that its context says. -/
def FieldsPlaced (W : World) (n : Nat) : Prop :=
  ∀ info ∈ (W.context n).fields, info.type ≠ .void ∧
    (if info.isStatic then W.StaticSlot n info.slot info.type
      else W.FieldSlot n info.slot info.type)

theorem fieldPlace?_yields (placed : W.FieldsPlaced n) (kind : BodyKind) (name : String)
    (span : Span) : Yields (fieldPlace? (W.context n) kind name span) (fun st found =>
      ∃ place, found = some place ∧ W.Placed n st place) := by
  unfold fieldPlace?
  split
  · exact .reportThen fun _ => .pure fun _ => trivial
  · rename_i info found
    obtain ⟨novoid, slot⟩ := placed info (List.mem_of_find?_eq_some found)
    split
    · rename_i static
      rw [if_pos static] at slot
      exact .pure fun st => ⟨_, rfl, novoid, slot⟩
    · rename_i notStatic
      rw [if_neg notStatic] at slot
      split
      · exact .reportThen fun _ => .pure fun _ => trivial
      · exact .pure fun st => ⟨_, rfl, novoid, slot⟩

theorem namePlace?_yields (placed : W.FieldsPlaced n) (kind : BodyKind) (name : String)
    (span : Span) : Yields (namePlace? (W.context n) kind name span) (fun st found =>
      ∃ place, found = some place ∧ W.Placed n st place) := by
  unfold namePlace?
  refine .bind (.lookupVariable? name) fun v => ?_
  cases v with
  | none => exact (fieldPlace?_yields placed kind name span).mono fun _ _ h _ => h
  | some v =>
    refine .pure fun st found => ⟨_, rfl, ?_⟩
    obtain ⟨x, hx, same⟩ := Option.map_eq_some_iff.1 found.symm
    exact ⟨x, List.mem_of_find?_eq_some hx, same⟩

theorem accessPlace?_yields (placed : W.FieldsPlaced n) (kind : BodyKind) (target : Source.Expr)
    (name : String) (span : Span) :
    Yields (accessPlace? (W.context n) kind target name span) (fun st found =>
      ∃ place, found = some place ∧ W.Placed n st place) := by
  unfold accessPlace?
  split
  · split
    · exact .reportThen fun _ => .pure fun _ => trivial
    · exact fieldPlace?_yields placed kind name span
  · exact .reportThen fun _ => .pure fun _ => trivial

theorem guardFinal_yields (cx : ClassContext) (kind : BodyKind) (name : String) (place : Place)
    (span : Span) : Yields (guardFinal cx kind name place span) (fun _ _ => True) := by
  unfold guardFinal
  split
  · split
    · exact .report
    · exact .pure fun _ => trivial
  · exact .pure fun _ => trivial

theorem targetPlace?_yields (placed : W.FieldsPlaced n) (kind : BodyKind) (target : Source.Expr) :
    Yields (targetPlace? (W.context n) kind target) (fun st found =>
      ∃ place, found = some place ∧ W.Placed n st place) := by
  have guarded : ∀ place name span, Yields
      (do
        guardFinal (W.context n) kind name place span
        pure (some place))
      (fun _ result => result = some place) := fun place name span =>
    .bind (guardFinal_yields (W.context n) kind name place span) fun _ => .pure fun _ _ => rfl
  unfold targetPlace?
  split
  · refine .bind (namePlace?_yields placed kind _ _) fun found => ?_
    cases found with
    | none => exact .pure fun _ ⟨_, none_, _⟩ => nomatch none_
    | some place => exact (guarded place _ _).mono fun _ _ same h => same ▸ h
  · refine .bind (accessPlace?_yields placed kind _ _ _) fun found => ?_
    cases found with
    | none => exact .pure fun _ ⟨_, none_, _⟩ => nomatch none_
    | some place => exact (guarded place _ _).mono fun _ _ same h => same ▸ h
  · exact .reportThen fun _ => .pure fun _ => trivial

theorem lowerPlace_typed (valid : W.Valid) {st : BodyState} (hst : st.Scoped)
    {found : Option Place} (h : ∃ place, found = some place ∧ W.Placed n st place) :
    W.Typed n st (lowerPlace found) := by
  obtain ⟨place, rfl, hplace⟩ := h
  exact hplace.load valid hst

theorem lowerThis_yields (valid : W.Valid) {d : LoadedClass} (hd : W.classes n = some d)
    (kind : BodyKind) (cause : Cause) (span : Span) :
    Yields (lowerThis (W.context n) kind cause span) (fun st lowered =>
      W.Typed n st lowered ∧ lowered.2 = .ref (.named (W.context n).name)) := by
  unfold lowerThis
  split
  · exact .fail
  · exact .pure fun st => ⟨⟨rfl, evaluates_this valid hd⟩, rfl⟩

theorem numeric?_eq_some {type : StaticType} {kind : Primitive}
    (h : type.numeric? = some kind) : type = .primitive kind ∧ kind.isNumeric = true := by
  cases type with
  | primitive own =>
    simp only [StaticType.numeric?, Option.ite_none_right_eq_some, Option.some.injEq] at h
    exact ⟨by rw [h.2], h.2 ▸ h.1⟩
  | _ => cases h

theorem lowerUnary_yields (op : SignOp) (operand : Lowered) (span : Span) :
    Yields (lowerUnary op operand span) (fun st lowered =>
      W.Typed n st operand → W.Typed n st lowered) := by
  obtain ⟨code, type⟩ := operand
  unfold lowerUnary
  dsimp only
  split
  · rename_i reported
    subst reported
    exact .pure fun _ typed => typed.1.elim
  · cases op with
    | not =>
      simp only
      split
      · exact .fail
      · exact .pure fun _ typed => ⟨trivial, typed.2.not⟩
    | negate =>
      simp only
      split
      · exact .fail
      · rename_i kind found
        obtain ⟨rfl, numeric⟩ := numeric?_eq_some found
        exact .pure fun _ typed =>
          ⟨trivial, typed.2.promote.negate (Primitive.isWork_promoted numeric)⟩
    | plus =>
      simp only
      split
      · exact .fail
      · rename_i kind found
        obtain ⟨rfl, numeric⟩ := numeric?_eq_some found
        exact .pure fun _ typed => ⟨trivial, typed.2.promote⟩

theorem lowerBinary_yields (op : BinaryOp) (left right : Lowered) (span : Span) :
    Yields (lowerBinary op left right span) (fun st lowered =>
      W.Typed n st left → W.Typed n st right → W.Typed n st lowered) := by
  obtain ⟨l, lt⟩ := left
  obtain ⟨r, rt⟩ := right
  unfold lowerBinary
  dsimp only
  split
  · rename_i reported
    refine .pure fun _ hl hr => ?_
    rcases reported with rfl | rfl
    · exact hl.1.elim
    · exact hr.1.elim
  · split
    · rename_i sum
      obtain ⟨rfl, text⟩ := sum
      split
      · exact .fail
      · refine .pure fun _ hl hr => ⟨rfl, hl.2.concat ?_ hr.2⟩
        simpa [StaticType.isString] using text
    · split
      · rename_i a b foundA foundB
        obtain ⟨rfl, numericA⟩ := numeric?_eq_some foundA
        obtain ⟨rfl, numericB⟩ := numeric?_eq_some foundB
        refine .pure fun _ hl hr => ⟨?_, ?_⟩
        · dsimp only
          split <;> trivial
        · exact Evaluates.arithmetic (Primitive.isWork_promoteWith numericA numericB)
            hl.2.promote hr.2.promote
      · split
        · rename_i equality
          split
          · exact .pure fun _ hl hr => ⟨trivial, Evaluates.equality equality hl.2 hr.2⟩
          · exact .fail
        · exact .fail

theorem joinBranches_yields (thenBranch elseBranch : Lowered) (span : Span) :
    Yields (joinBranches thenBranch elseBranch span) (fun st joined =>
      W.Typed n st thenBranch → W.Typed n st elseBranch → joined.2.2.Proper ∧
        W.Evaluates n st.scopes.flatten joined.1 joined.2.2 ∧
        W.Evaluates n st.scopes.flatten joined.2.1 joined.2.2) := by
  obtain ⟨t, tt⟩ := thenBranch
  obtain ⟨e, et⟩ := elseBranch
  have isNull : ∀ type : StaticType, type.isReference = true → type.Proper →
      W.Within .null type := by
    intro type reference proper v _ holds
    cases type with
    | null => exact holds
    | ref t =>
      have isNull : v = .null := holds
      subst isNull
      refine Value.isInstanceOf_null ?_ ?_
      · rintro rfl
        cases proper
      · rintro k rfl
        cases proper
    | _ => cases reference
  unfold joinBranches
  dsimp only
  split
  · rename_i same
    subst same
    exact .pure fun _ ht he => ⟨ht.1, ht.2, he.2⟩
  · split
    · rename_i reported
      refine .pure fun _ ht he => ?_
      rcases reported with rfl | rfl
      · exact ht.1.elim
      · exact he.1.elim
    · split
      · rename_i a b foundA foundB
        obtain ⟨rfl, _⟩ := numeric?_eq_some foundA
        obtain ⟨rfl, _⟩ := numeric?_eq_some foundB
        exact .pure fun _ ht he => ⟨trivial, ht.2.promote, he.2.promote⟩
      · split
        · rename_i null
          obtain ⟨rfl, reference⟩ := null
          exact .pure fun _ ht he => ⟨he.1, ht.2.within (isNull _ reference he.1), he.2⟩
        · split
          · rename_i null
            obtain ⟨rfl, reference⟩ := null
            exact .pure fun _ ht he => ⟨ht.1, ht.2, he.2.within (isNull _ reference ht.1)⟩
          · split
            · exact .reportThen fun _ => .pure fun _ => trivial
            · have top : ∀ type, W.Within type .object := fun _ v _ _ =>
                Value.isInstanceOf_object v
              exact .pure fun _ ht he => ⟨rfl, ht.2.within (top _), he.2.within (top _)⟩

theorem lowerCast_yields (target : TypeRef) (operand : Lowered) (span operandSpan : Span) :
    Yields (lowerCast target operand span operandSpan) (fun st lowered =>
      W.Typed n st operand → W.Typed n st lowered) := by
  obtain ⟨code, source⟩ := operand
  have cast : ∀ mode, Yields (pure (.cast target mode code, .of target)) (fun st lowered =>
      W.Typed n st (code, source) → W.Typed n st lowered) := fun mode =>
    .pure fun _ typed => ⟨StaticType.proper_of _, typed.2.cast target mode⟩
  unfold lowerCast
  dsimp only
  split
  · exact .fail
  · split
    · exact .fail
    · exact cast .convert
  · split
    · exact cast .convert
    · exact .fail
  · exact .fail
  · exact cast .check

theorem coerceArgs_yields (valid : W.Valid) {d : LoadedClass} (hd : W.classes n = some d)
    (params : List TypeRef) (args : List Argument) :
    Yields (coerceArgs (W.context n) params args) (fun st codes =>
      (∀ a ∈ args, W.Typed n st (a.code, a.type)) →
        W.EvaluatesAll n st.scopes.flatten params (args.map (·.type)) codes) := by
  induction args generalizing params with
  | nil =>
    have nothing : coerceArgs (W.context n) params [] = pure [] := by
      cases params <;> rfl
    rw [nothing]
    exact .pure fun _ _ => evaluatesAll_nil params
  | cons a args ih =>
    cases params with
    | nil =>
      have more : Yields (do return a.code :: (← coerceArgs (W.context n) [] args))
          (fun st codes => (∀ b ∈ a :: args, W.Typed n st (b.code, b.type)) →
            W.EvaluatesAll n st.scopes.flatten [] ((a :: args).map (·.type)) codes) := by
        refine .bind (ih []) fun codes => .pure fun _ rest typed => ?_
        have hcodes := rest fun b hb => typed b (List.mem_cons_of_mem _ hb)
        exact hcodes.more (typed a List.mem_cons_self).2
      rw [coerceArgs]
      split
      · exact .reportThen fun _ => more.mono fun _ _ _ => trivial
      · exact more
    | cons p params =>
      rw [coerceArgs]
      refine .bind (coerce_yields valid hd a.code a.type p a.span) fun code => ?_
      refine .bind (ih params) fun codes => .pure fun _ rest first typed => ?_
      have hcodes := rest fun b hb => typed b (List.mem_cons_of_mem _ hb)
      exact hcodes.cons (first (typed a List.mem_cons_self)).2

theorem lowerCall_yields (valid : W.Valid) {d : LoadedClass} (hd : W.classes n = some d)
    (receiver : Lowered) (name : String) (args : List Argument) (span : Span) :
    Yields (lowerCall (W.context n) receiver name args span) (fun st lowered =>
      (∀ type, receiver.2 = .ref (.named type) → W.Serves n ⟨some type, name, args⟩) →
        W.Typed n st receiver → (∀ a ∈ args, W.Typed n st (a.code, a.type)) →
        W.Typed n st lowered) := by
  obtain ⟨receiver, type⟩ := receiver
  unfold lowerCall
  dsimp only
  split
  · exact .pure fun _ _ typed => typed.1.elim
  · split
    · exact .fail
    · rename_i params result chosen
      refine .bind (coerceArgs_yields valid hd params args) fun codes => ?_
      refine .pure fun _ hcodes serves typed typedArgs => ?_
      have serves := fun type same => serves type (congrArg StaticType.ref same)
      refine ⟨?_, typed.2.invoke valid.toLinked chosen serves (hcodes typedArgs)⟩
      rcases callee?_eq_some chosen with ⟨_, _, _, _, _, _, rfl⟩ | ⟨_, _, _, rfl⟩
      · exact StaticType.proper_of _
      · exact StaticType.proper_of _
  · exact .fail

theorem lowerSuperCall_yields (valid : W.Valid) {d : LoadedClass} (hd : W.classes n = some d)
    (name : String) (args : List Argument) (span : Span) :
    Yields (lowerSuperCall (W.context n) name args span) (fun st lowered =>
      W.Serves n ⟨none, name, args⟩ → (∀ a ∈ args, W.Typed n st (a.code, a.type)) →
        W.Typed n st lowered) := by
  have called : ∀ params result, superCallee? (W.context n) name args = some (params, result) →
      result.Proper →
      Yields (do
          let codes ← coerceArgs (W.context n) params args
          return (.invokeSuper name codes, result))
        (fun st lowered => W.Serves n ⟨none, name, args⟩ →
          (∀ a ∈ args, W.Typed n st (a.code, a.type)) → W.Typed n st lowered) := by
    intro params result chosen proper
    refine .bind (coerceArgs_yields valid hd params args) fun codes => ?_
    refine .pure fun _ hcodes serves typedArgs => ⟨proper, ?_⟩
    exact Evaluates.invokeSuper valid chosen serves (hcodes typedArgs)
  unfold lowerSuperCall
  split
  · rename_i m selected
    split
    · exact .fail
    · rename_i concrete
      refine called _ _ ?_ (StaticType.proper_of _)
      rw [superCallee?, selected]
      simp [concrete]
  · rename_i unselected
    split
    · exact .fail
    · rename_i b found
      refine called _ _ ?_ (StaticType.proper_of _)
      rw [superCallee?, unselected, found]
      rfl

theorem lowerStore_yields (valid : W.Valid) {d : LoadedClass} (hd : W.classes n = some d)
    (op : Option BinaryOp) (place : Place) (value : Lowered) (span valueSpan : Span) :
    Yields (lowerStore (W.context n) op place value span valueSpan) (fun st lowered =>
      st.Scoped → W.Placed n st place → W.Typed n st value → W.Typed n st lowered) := by
  unfold lowerStore
  dsimp only
  cases op with
  | none =>
    refine .bind (coerce_yields valid hd value.1 value.2 place.type valueSpan) fun stored => ?_
    refine .pure fun _ hstored hst hplace typed => hplace.store valid hst ?_
    exact (hstored typed).2.evaluates (hplace.novoid hst)
  | some op =>
    refine .bind (lowerBinary_yields (W := W) (n := n) op (place.load, .of place.type) value span)
      fun combined => ?_
    split
    · rename_i a b htype htarget
      refine .pure fun _ hcombined hst hplace typed => ?_
      have hcode := (hcombined (hplace.load valid hst) typed).2
      rw [htype] at hcode
      refine hplace.store valid hst ?_
      rw [htarget]
      exact hcode.promote
    · refine .bind (coerce_yields valid hd combined.1 combined.2 place.type span) fun stored => ?_
      refine .pure fun _ hstored hcombined hst hplace typed => ?_
      have fitted := (hstored (hcombined (hplace.load valid hst) typed)).2
      exact hplace.store valid hst (fitted.evaluates (hplace.novoid hst))

end Classwright.World
