import Classwright.Proofs.Elaboration

/-!
# Lowering follows the rules

Lowering an expression reports nothing just if the rules give it a code, and gives this code then.
So what has the type of a reported expression has been reported, though most functions let such an
operand pass without a word.
-/

namespace Classwright.Check

open Lower Elaboration

/-! ### Required types -/

/-- No constant that is narrowed may be assigned as it is. -/
theorem not_isAssignable_of_constantFits {cx : ClassContext} {value : Int32} {kind : Primitive}
    (fits : constantFits value kind = true) : cx.isAssignable .int (.primitive kind) ≠ true := by
  cases kind with
  | byte => exact Bool.false_ne_true
  | short => exact Bool.false_ne_true
  | char => exact Bool.false_ne_true
  | _ => cases fits

variable {pre : Prop} {cx : ClassContext} {kind : BodyKind}

theorem coerce_judges (code : Code.Expr) (source : StaticType) (target : TypeRef) (span : Span) :
    Judges pre (coerce cx code source target span) fun _ => Fits cx (code, source) target := by
  obtain ⟨value, kind, rfl, rfl, rfl, kept, same⟩ | ⟨wide, refused, same⟩ |
      ⟨assignable, ⟨a, b, rfl, rfl, same⟩ | ⟨apart, same⟩⟩ :=
    coerce_cases cx code source target span
  all_goals rw [same]
  · refine .pure fun _ _ result => ⟨fun fits => ?_, fun given_ => given_ ▸ .narrow kept⟩
    cases fits with
    | narrow => rfl
    | promote assignable => exact absurd assignable (not_isAssignable_of_constantFits kept)
    | keep _ apart => exact absurd rfl (apart _ _ rfl)
  · refine .refuse fun _ _ result fits => ?_
    cases fits with
    | narrow kept => exact absurd ((wide _ _ rfl rfl rfl).symm.trans kept) Bool.false_ne_true
    | promote assignable => exact absurd (refused.symm.trans assignable) Bool.false_ne_true
    | keep assignable => exact absurd (refused.symm.trans assignable) Bool.false_ne_true
  · refine .pure fun _ _ result => ⟨fun fits => ?_, fun given_ => given_ ▸ .promote assignable⟩
    cases fits with
    | narrow kept => exact absurd assignable (not_isAssignable_of_constantFits kept)
    | promote => rfl
    | keep _ apart => exact absurd rfl (apart _ _ rfl)
  · refine .pure fun _ _ result => ⟨fun fits => ?_, fun given_ => given_ ▸ .keep assignable apart⟩
    cases fits with
    | narrow => exact absurd rfl (apart _ _ rfl)
    | promote => exact absurd rfl (apart _ _ rfl)
    | keep => rfl

theorem boolean_of_isCondition {type : StaticType} (proper : type ≠ .error)
    (condition : type.isCondition = true) : type = .boolean := by
  cases type with
  | primitive kind => cases kind <;> first | rfl | cases condition
  | error => exact absurd rfl proper
  | _ => cases condition

theorem asCondition_judges (lowered : Lowered) (span : Span) :
    Judges (lowered.2 ≠ .error) (asCondition lowered span) fun _ code =>
      lowered = (code, .boolean) := by
  obtain ⟨code, type⟩ := lowered
  unfold asCondition
  split
  · rename_i refused
    refine .refuse fun _ _ result given_ => ?_
    cases given_
    cases refused
  · rename_i condition
    refine .pure fun proper _ result => ⟨fun given_ => (Prod.mk.inj given_).1.symm, ?_⟩
    rintro rfl
    exact congrArg _ (boolean_of_isCondition proper (by simpa using condition))

/-- What is lowered goes on as a condition. -/
theorem condition_judges {β : Type} {body : Lower Lowered} {next : Code.Expr → Lower β}
    {P : BodyState → Lowered → Prop} {Q : Code.Expr → BodyState → β → Prop} (h : Judges pre body P)
    (proper : ∀ st lowered, P st lowered → lowered.2 ≠ .error) (span : Span)
    (hnext : ∀ code, Judges pre (next code) (Q code)) :
    Judges pre (do
        let code ← asCondition (← body) span
        next code)
      fun st b => ∃ code, P st (code, .boolean) ∧ Q code st b := by
  refine .iff (.bind h fun lowered => .bind ((asCondition_judges lowered span).given ?_)
    fun code => (hnext code).given fun both => both.1.1) fun _ st b => ⟨?_, ?_⟩
  · rintro ⟨_, st, p⟩
    exact proper st lowered p
  · rintro ⟨code, p, q⟩
    exact ⟨_, p, code, rfl, q⟩
  · rintro ⟨_, p, code, rfl, q⟩
    exact ⟨code, p, q⟩

/-! ### Operators -/

theorem lowerUnary_judges (op : SignOp) (operand : Lowered) (span : Span) :
    Judges (operand.2 ≠ .error) (lowerUnary op operand span) fun _ => Signed op operand := by
  obtain ⟨code, type⟩ := operand
  unfold lowerUnary
  dsimp only
  split
  · rename_i reported
    exact .pure fun proper => absurd reported proper
  · cases op with
    | not =>
      dsimp only
      split
      · rename_i refused
        refine .fail fun _ _ result signed => ?_
        cases signed
        cases refused
      · rename_i condition
        refine .pure fun proper _ result => ⟨fun signed => by cases signed; rfl, ?_⟩
        rintro rfl
        obtain rfl : type = .boolean := boolean_of_isCondition proper (by simpa using condition)
        exact .not
    | negate =>
      dsimp only
      split
      · rename_i none_
        refine .fail fun _ _ result signed => ?_
        cases signed with
        | negate numeric => cases none_.symm.trans numeric
      · rename_i kind numeric
        refine .pure fun _ _ result => ⟨fun signed => ?_, fun given_ => given_ ▸ .negate numeric⟩
        cases signed with
        | negate numeric' =>
          cases numeric.symm.trans numeric'
          rfl
    | plus =>
      dsimp only
      split
      · rename_i none_
        refine .fail fun _ _ result signed => ?_
        cases signed with
        | plus numeric => cases none_.symm.trans numeric
      · rename_i kind numeric
        refine .pure fun _ _ result => ⟨fun signed => ?_, fun given_ => given_ ▸ .plus numeric⟩
        cases signed with
        | plus numeric' =>
          cases numeric.symm.trans numeric'
          rfl

/-- Neither a boolean nor a reference is a number. -/
theorem numeric?_of_comparable {lt rt : StaticType}
    (comparable : lt = .boolean ∧ rt = .boolean ∨ lt.isReference = true ∧ rt.isReference = true) :
    lt.numeric? = none ∧ rt.numeric? = none := by
  have none_ : ∀ t : StaticType, t.isReference = true → t.numeric? = none := by
    intro t reference
    cases t with
    | primitive kind => cases reference
    | _ => rfl
  rcases comparable with ⟨rfl, rfl⟩ | ⟨left, right⟩
  · exact ⟨rfl, rfl⟩
  · exact ⟨none_ _ left, none_ _ right⟩

theorem numeric?_of_isString {t : StaticType} (text : t.isString = true) : t.numeric? = none := by
  obtain rfl : t = .string := by simpa [StaticType.isString] using text
  rfl

theorem lowerBinary_judges (op : BinaryOp) (left right : Lowered) (span : Span) :
    Judges (left.2 ≠ .error ∧ right.2 ≠ .error) (lowerBinary op left right span)
      fun _ => Operated op left right := by
  obtain ⟨l, lt⟩ := left
  obtain ⟨r, rt⟩ := right
  unfold lowerBinary
  dsimp only
  split
  · rename_i reported
    exact .pure fun proper => (reported.elim proper.1 proper.2).elim
  · split
    · rename_i joins
      obtain ⟨rfl, text⟩ := joins
      split
      · rename_i voids
        refine .fail fun _ _ result operated => ?_
        exact voids.elim operated.isValue.1.1 operated.isValue.2.1
      · rename_i values
        refine .pure fun proper _ result => ⟨fun operated => ?_, ?_⟩
        · cases operated with
          | join => rfl
          | numbers left right =>
            rcases text with text | text
            · cases (numeric?_of_isString text).symm.trans left
            · cases (numeric?_of_isString text).symm.trans right
          | equality compares => exact absurd compares (by decide)
        · rintro rfl
          exact .join text ⟨fun void => values (.inl void), proper.1⟩
            ⟨fun void => values (.inr void), proper.2⟩
    · rename_i apart
      split
      · rename_i a b left right
        refine .pure fun _ _ result =>
          ⟨fun operated => ?_, fun given_ => given_ ▸ .numbers left right⟩
        cases operated with
        | join text => exact absurd ⟨rfl, text⟩ apart
        | numbers left' right' =>
          cases left.symm.trans left'
          cases right.symm.trans right'
          rfl
        | equality _ comparable => cases (numeric?_of_comparable comparable).1.symm.trans left
      · rename_i mixed
        split
        · rename_i compares
          split
          · rename_i comparable
            refine .pure fun _ _ result =>
              ⟨fun operated => ?_, fun given_ => given_ ▸ .equality compares comparable⟩
            cases operated with
            | join text => exact absurd ⟨rfl, text⟩ apart
            | numbers left right => exact (mixed _ _ left right).elim
            | equality => rfl
          · rename_i incomparable
            refine .fail fun _ _ result operated => ?_
            cases operated with
            | join text => exact apart ⟨rfl, text⟩
            | numbers left right => exact mixed _ _ left right
            | equality _ comparable => exact incomparable comparable
        · rename_i sums
          refine .fail fun _ _ result operated => ?_
          cases operated with
          | join text => exact apart ⟨rfl, text⟩
          | numbers left right => exact mixed _ _ left right
          | equality compares => exact sums compares

theorem exists_ref_of_isReference {t : StaticType} (reference : t.isReference = true)
    (some_ : t ≠ .null) : ∃ type, t = .ref type := by
  cases t with
  | ref type => exact ⟨type, rfl⟩
  | null => exact absurd rfl some_
  | _ => cases reference

theorem joinBranches_judges (thenBranch elseBranch : Lowered) (span : Span) :
    Judges (thenBranch.2 ≠ .error ∧ elseBranch.2 ≠ .error) (joinBranches thenBranch elseBranch span)
      fun _ => Joined thenBranch elseBranch := by
  obtain ⟨t, tt⟩ := thenBranch
  obtain ⟨e, et⟩ := elseBranch
  unfold joinBranches
  dsimp only
  split
  · rename_i same
    subst same
    refine .pure fun proper _ result => ⟨fun joined => ?_, fun given_ => given_ ▸ .same proper.1⟩
    cases joined with
    | same => rfl
    | numbers differ => exact absurd rfl differ
    | object differ => exact absurd rfl differ
  · rename_i differ
    split
    · rename_i reported
      exact .pure fun proper => (reported.elim proper.1 proper.2).elim
    · rename_i proper
      split
      · rename_i a b left right
        refine .pure fun _ _ result =>
          ⟨fun joined => ?_, fun given_ => given_ ▸ .numbers differ left right⟩
        cases joined with
        | same => exact absurd rfl differ
        | numbers _ left' right' =>
          cases left.symm.trans left'
          cases right.symm.trans right'
          rfl
        | nullLeft => cases left
        | nullRight => cases right
        | object _ _ _ mixed =>
          rcases mixed with none_ | none_
          · cases none_.symm.trans left
          · cases none_.symm.trans right
      · rename_i mixed
        split
        · rename_i known
          obtain ⟨rfl, reference⟩ := known
          obtain ⟨type, rfl⟩ := exists_ref_of_isReference reference (Ne.symm differ)
          refine .pure fun _ _ result => ⟨fun joined => ?_, fun given_ => given_ ▸ .nullLeft⟩
          cases joined with
          | nullLeft => rfl
          | numbers _ left => cases left
          | object _ _ _ _ known => exact absurd ⟨rfl, reference⟩ known
        · rename_i known
          split
          · rename_i known'
            obtain ⟨rfl, reference⟩ := known'
            obtain ⟨type, rfl⟩ := exists_ref_of_isReference reference differ
            refine .pure fun _ _ result => ⟨fun joined => ?_, fun given_ => given_ ▸ .nullRight⟩
            cases joined with
            | nullRight => rfl
            | numbers _ _ right => cases right
            | object _ _ _ _ _ known' => exact absurd ⟨rfl, reference⟩ known'
          · rename_i known'
            split
            · rename_i voids
              refine .refuse fun _ _ result joined => ?_
              cases joined with
              | same => exact differ rfl
              | numbers _ left right => exact mixed _ _ left right
              | nullLeft => exact known ⟨rfl, rfl⟩
              | nullRight => exact known' ⟨rfl, rfl⟩
              | object _ left right => exact voids.elim left.1 right.1
            · rename_i values
              refine .pure fun both _ result => ⟨fun joined => ?_, ?_⟩
              · cases joined with
                | same => exact absurd rfl differ
                | numbers _ left right => exact (mixed _ _ left right).elim
                | nullLeft => exact absurd ⟨rfl, rfl⟩ known
                | nullRight => exact absurd ⟨rfl, rfl⟩ known'
                | object => rfl
              · rintro rfl
                refine .object differ ⟨fun void => values (.inl void), both.1⟩
                  ⟨fun void => values (.inr void), both.2⟩ ?_ known known'
                cases left : tt.numeric? with
                | none => exact .inl rfl
                | some a =>
                  refine .inr (Option.eq_none_iff_forall_ne_some.2 fun b right => ?_)
                  exact mixed a b left right

theorem lowerCast_judges (target : TypeRef) (operand : Lowered) (span operandSpan : Span) :
    Judges (operand.2 ≠ .error) (lowerCast target operand span operandSpan)
      fun _ => Cast target operand := by
  obtain ⟨code, source⟩ := operand
  unfold lowerCast
  dsimp only
  split
  · refine .fail fun _ _ result cast => ?_
    cases cast with
    | check reference => cases reference
  · rename_i a b
    split
    · rename_i differ
      refine .fail fun _ _ result cast => ?_
      cases cast with
      | convert alike => simp [alike] at differ
      | check reference => cases reference
    · rename_i alike
      have alike : a.isNumeric = b.isNumeric := by simpa using alike
      refine .pure fun _ _ result => ⟨fun cast => ?_, fun given_ => given_ ▸ .convert alike⟩
      cases cast with
      | convert => rfl
      | check reference => cases reference
  · rename_i a target notPrimitive
    split
    · rename_i same
      subst same
      refine .pure fun _ _ result => ⟨fun cast => ?_, fun given_ => given_ ▸ .box⟩
      cases cast with
      | box => rfl
      | check reference => cases reference
    · rename_i other
      refine .fail fun _ _ result cast => ?_
      cases cast with
      | convert => exact notPrimitive _ rfl
      | box => exact other rfl
      | check reference => cases reference
  · refine .fail fun _ _ result cast => ?_
    cases cast with
    | check _ some_ => exact some_ rfl _ rfl
  · rename_i noVoid noPrimitive _ some_
    refine .pure fun proper _ result => ⟨fun cast => ?_, ?_⟩
    · cases cast with
      | convert => exact (noPrimitive _ rfl).elim
      | box => exact (noPrimitive _ rfl).elim
      | check => rfl
    · rintro rfl
      refine .check ?_ fun null kind primitive => some_ kind null primitive
      cases source with
      | void => exact (noVoid rfl).elim
      | primitive a => exact (noPrimitive a rfl).elim
      | error => exact absurd rfl proper
      | _ => rfl

/-! ### Calls -/

theorem coerceArgs_judges (params : List TypeRef) (args : List Argument) :
    Judges pre (coerceArgs cx params args) fun _ => Handed cx params args := by
  induction args generalizing params pre with
  | nil =>
    unfold coerceArgs
    refine .pure fun _ _ codes => ⟨fun handed => ?_, fun given_ => given_ ▸ .nil⟩
    cases handed
    rfl
  | cons a args ih =>
    cases params with
    | nil =>
      unfold coerceArgs
      split
      · rename_i void
        refine .reportThen (fun _ => .map (ih [])) ?_
        intro _ _ codes handed
        cases handed with
        | more value => exact value void
      · rename_i value
        refine .iff (.map (ih [])) fun _ _ codes => ⟨fun handed => ?_, ?_⟩
        · cases handed with
          | more _ rest => exact ⟨_, rest, rfl⟩
        · rintro ⟨codes, rest, rfl⟩
          exact .more value rest
    | cons p params =>
      unfold coerceArgs
      refine .iff (.bind (coerce_judges a.code a.type p a.span) fun code =>
        .map (ih params)) fun _ _ codes => ⟨fun handed => ?_, ?_⟩
      · cases handed with
        | fits first rest => exact ⟨_, first, _, rest, rfl⟩
      · rintro ⟨code, first, codes, rest, rfl⟩
        exact .fits first rest

theorem lowerCall_judges (receiver : Lowered) (name : String) (args : List Argument)
    (span : Span) : Judges (receiver.2 ≠ .error) (lowerCall cx receiver name args span)
      fun _ => Called cx receiver name args := by
  unfold lowerCall
  split
  · rename_i reported
    exact .pure fun proper => absurd reported proper
  · rename_i type reference
    split
    · rename_i none_
      refine .fail fun _ _ result called => ?_
      obtain ⟨_, callee, _⟩ := called
      cases none_.symm.trans callee
    · rename_i params returnType callee
      refine .iff (.map (coerceArgs_judges params args)) fun _ _ result => ⟨?_, ?_⟩
      · rintro ⟨_, callee', handed⟩
        cases callee.symm.trans callee'
        exact ⟨_, handed, rfl⟩
      · rintro ⟨codes, handed, rfl⟩
        exact .found reference callee handed
  · rename_i noReference
    refine .fail fun _ _ result called => ?_
    obtain ⟨reference, _, _⟩ := called
    exact noReference _ reference

theorem lowerSuperCall_judges (name : String) (args : List Argument) (span : Span) :
    Judges pre (lowerSuperCall cx name args span) fun _ => SuperCalled cx name args := by
  unfold lowerSuperCall
  split
  · rename_i m selected
    split
    · rename_i isAbstract
      refine .fail fun _ _ result called => ?_
      cases called with
      | declared selected' concrete =>
        cases selected.symm.trans selected'
        exact Bool.false_ne_true (concrete.symm.trans isAbstract)
      | builtin undeclared => cases selected.symm.trans undeclared
    · rename_i concrete
      refine .iff (.map (coerceArgs_judges _ args)) fun _ _ result => ⟨fun called => ?_, ?_⟩
      · cases called with
        | declared selected' _ handed =>
          cases selected.symm.trans selected'
          exact ⟨_, handed, rfl⟩
        | builtin undeclared => cases selected.symm.trans undeclared
      · rintro ⟨codes, handed, rfl⟩
        exact .declared selected (Bool.eq_false_iff.2 concrete) handed
  · rename_i undeclared
    split
    · rename_i unknown
      refine .fail fun _ _ result called => ?_
      cases called with
      | declared selected => cases undeclared.symm.trans selected
      | builtin _ known => cases unknown.symm.trans known
    · rename_i b known
      refine .iff (.map (coerceArgs_judges _ args)) fun _ _ result => ⟨fun called => ?_, ?_⟩
      · cases called with
        | declared selected => cases undeclared.symm.trans selected
        | builtin _ known' handed =>
          cases known.symm.trans known'
          exact ⟨_, handed, rfl⟩
      · rintro ⟨codes, handed, rfl⟩
        exact .builtin undeclared known handed

theorem lowerThis_judges (cause : Cause) (span : Span) :
    Judges pre (lowerThis cx kind cause span) fun _ result =>
      kind ≠ .staticInit ∧ result = (.this, .ref (.named cx.name)) := by
  unfold lowerThis
  split
  · rename_i static
    exact .fail fun _ _ _ given_ => given_.1 static
  · rename_i dynamic
    exact .pure fun _ _ _ => and_iff_right dynamic

/-! ### Places -/

theorem fieldPlace?_judges (name : String) (span : Span) :
    Judges pre (fieldPlace? cx kind name span) fun _ found =>
      ∃ place, found = some place ∧ FieldAt cx kind name place := by
  unfold fieldPlace?
  split
  · rename_i unknown
    refine .refuse ?_
    rintro _ _ _ ⟨place, _, field⟩
    cases field with
    | static found => cases unknown.symm.trans found
    | own found => cases unknown.symm.trans found
  · rename_i info found
    split
    · rename_i shared
      refine .pure fun _ _ place? => ⟨?_, ?_⟩
      · rintro ⟨place, rfl, field⟩
        cases field with
        | static found' =>
          cases found.symm.trans found'
          rfl
        | own found' single =>
          cases found.symm.trans found'
          exact absurd (single.symm.trans shared) Bool.false_ne_true
      · rintro rfl
        exact ⟨_, rfl, .static found shared⟩
    · rename_i single
      split
      · rename_i static
        refine .refuse ?_
        rintro _ _ _ ⟨place, _, field⟩
        cases field with
        | static found' shared =>
          cases found.symm.trans found'
          exact single shared
        | own _ _ dynamic => exact dynamic static
      · rename_i dynamic
        refine .pure fun _ _ place? => ⟨?_, ?_⟩
        · rintro ⟨place, rfl, field⟩
          cases field with
          | static found' shared =>
            cases found.symm.trans found'
            exact absurd shared single
          | own found' =>
            cases found.symm.trans found'
            rfl
        · rintro rfl
          exact ⟨_, rfl, .own found (Bool.eq_false_iff.2 single) dynamic⟩

theorem lookupVariable?_judges (name : String) :
    Judges pre (lookupVariable? name) fun st found => found = st.variableOf? name := by
  refine fun st => ⟨[], (List.append_nil _).symm, fun _ found st' => ⟨?_, ?_⟩⟩
  · rintro ⟨rfl, rfl⟩
    exact ⟨rfl, rfl⟩
  · rintro ⟨_, same⟩
    cases same
    exact ⟨rfl, rfl⟩

theorem namePlace?_judges (name : String) (span : Span) :
    Judges pre (namePlace? cx kind name span) fun st found =>
      ∃ place, found = some place ∧ Named cx kind st name place := by
  unfold namePlace?
  refine .iff (.bind (Q := fun v _ found => ∃ place, found = some place ∧
      ((∃ w, v = some w ∧ place = .var w.slot w.type) ∨ v = none ∧ FieldAt cx kind name place))
    (lookupVariable?_judges name) fun v => ?_) fun _ st found => ⟨?_, ?_⟩
  · cases v with
    | some w =>
      refine .pure fun _ _ found => ⟨?_, fun given_ => ⟨_, given_, .inl ⟨w, rfl, rfl⟩⟩⟩
      rintro ⟨place, rfl, ⟨_, ⟨⟩, rfl⟩ | ⟨⟨⟩, _⟩⟩
      rfl
    | none =>
      refine .iff (fieldPlace?_judges name span) fun _ _ found => ⟨?_, ?_⟩
      · rintro ⟨place, same, ⟨_, ⟨⟩, _⟩ | ⟨_, field⟩⟩
        exact ⟨place, same, field⟩
      · rintro ⟨place, same, field⟩
        exact ⟨place, same, .inr ⟨rfl, field⟩⟩
  · rintro ⟨place, same, named⟩
    cases named with
    | var known => exact ⟨_, known.symm, _, same, .inl ⟨_, rfl, rfl⟩⟩
    | field free field => exact ⟨_, free.symm, _, same, .inr ⟨rfl, field⟩⟩
  · rintro ⟨v, known, place, same, ⟨w, rfl, rfl⟩ | ⟨rfl, field⟩⟩
    · exact ⟨_, same, .var known.symm⟩
    · exact ⟨_, same, .field known.symm field⟩

theorem accessPlace?_judges (target : Source.Expr) (name : String) (span : Span) :
    Judges pre (accessPlace? cx kind target name span) fun _ found =>
      ∃ place, found = some place ∧ FieldAt cx kind name place ∧ kind ≠ .staticInit ∧
        ∃ inner, target = .this inner := by
  unfold accessPlace?
  split
  · rename_i inner
    split
    · rename_i static
      refine .refuse ?_
      rintro _ _ _ ⟨_, _, _, dynamic, _⟩
      exact dynamic static
    · rename_i dynamic
      refine .iff (fieldPlace?_judges name span) fun _ _ found => ⟨?_, ?_⟩
      · rintro ⟨place, same, field, _⟩
        exact ⟨place, same, field⟩
      · rintro ⟨place, same, field⟩
        exact ⟨place, same, field, dynamic, inner, rfl⟩
  · rename_i foreign
    refine .refuse ?_
    rintro _ _ _ ⟨_, _, _, _, inner, this⟩
    exact foreign inner this

/-- The final field that is guarded. -/
theorem assignable_iff {name : String} {place : Place} : Assignable cx kind name place ↔
    ∀ info, (if place.isVar then none else (cx.field? name).filter (·.isFinal)) = some info →
      mayAssignFinal kind info.isStatic = true := by
  unfold Assignable
  cases place.isVar <;> simp [Option.filter_eq_some_iff]

theorem guardFinal_judges (name : String) (place : Place) (span : Span) :
    Judges pre (guardFinal cx kind name place span) fun _ _ => Assignable cx kind name place := by
  refine .iff ?_ fun _ _ _ => assignable_iff
  unfold guardFinal
  split
  · rename_i info final
    split
    · rename_i refused
      refine .report fun _ _ _ allowed => ?_
      rw [allowed info final] at refused
      cases refused
    · rename_i allowed
      refine .pure fun _ _ _ => ⟨fun _ => rfl, fun _ info' final' => ?_⟩
      cases final.symm.trans final'
      simpa using allowed
  · rename_i none_
    refine .pure fun _ _ _ => ⟨fun _ => rfl, fun _ info final => ?_⟩
    cases none_.symm.trans final

/-- A place that has been found is guarded. -/
theorem guarded_judges {R : BodyState → Place → Prop} {found : Lower (Option Place)}
    (h : Judges pre found fun st found => ∃ place, found = some place ∧ R st place)
    (name : String) (span : Span) : Judges pre (do
        let some place ← found | return none
        guardFinal cx kind name place span
        return some place)
      fun st found => ∃ place, found = some place ∧ R st place ∧ Assignable cx kind name place := by
  refine .iff (.bind (Q := fun place? _ found => ∃ place, place? = some place ∧
      found = some place ∧ Assignable cx kind name place) h fun place? => ?_)
    fun _ st found => ⟨?_, ?_⟩
  · cases place? with
    | none =>
      refine .pure ?_
      rintro ⟨_, _, _, ⟨⟩, _⟩
    | some place =>
      refine .iff (.map (guardFinal_judges name place span)) fun _ _ found => ⟨?_, ?_⟩
      · rintro ⟨_, ⟨⟩, same, assignable⟩
        exact ⟨(), assignable, same⟩
      · rintro ⟨_, assignable, same⟩
        exact ⟨place, rfl, same, assignable⟩
  · rintro ⟨place, same, r, assignable⟩
    exact ⟨some place, ⟨place, rfl, r⟩, place, rfl, same, assignable⟩
  · rintro ⟨_, ⟨place, rfl, r⟩, _, ⟨⟩, same, assignable⟩
    exact ⟨place, same, r, assignable⟩

theorem targetPlace?_judges (target : Source.Expr) :
    Judges pre (targetPlace? cx kind target) fun st found =>
      ∃ place, found = some place ∧ Target cx kind st target place := by
  unfold targetPlace?
  split
  · rename_i name span
    refine .iff (guarded_judges (namePlace?_judges name span) name span)
      fun _ st found => exists_congr fun place => and_congr_right fun _ => ⟨?_, ?_⟩
    · rintro ⟨named, assignable⟩
      exact ⟨named, assignable⟩
    · rintro ⟨named, assignable⟩
      exact .name named assignable
  · rename_i inner name span
    refine .iff (guarded_judges (accessPlace?_judges inner name span) name span)
      fun _ st found => exists_congr fun place => and_congr_right fun _ => ⟨?_, ?_⟩
    · rintro ⟨⟩
      rename_i dynamic field assignable
      exact ⟨⟨field, dynamic, _, rfl⟩, assignable⟩
    · rintro ⟨⟨field, dynamic, this, rfl⟩, assignable⟩
      exact .access dynamic field assignable
  · rename_i noName noAccess
    refine .refuse ?_
    rintro _ _ _ ⟨place, _, target⟩
    cases target with
    | name => exact noName _ _ rfl
    | access => exact noAccess _ _ _ rfl

theorem lowerStore_judges (op : Option BinaryOp) (place : Place) (value : Lowered)
    (span valueSpan : Span) :
    Judges (value.2 ≠ .error) (lowerStore cx op place value span valueSpan)
      fun _ => Stores cx place value op := by
  unfold lowerStore
  cases op with
  | none =>
    refine .iff (.map (coerce_judges value.1 value.2 place.type valueSpan))
      fun _ _ result => ⟨?_, ?_⟩
    · rintro ⟨⟩
      rename_i fits
      exact ⟨_, fits, rfl⟩
    · rintro ⟨code, fits, rfl⟩
      exact .plain fits
  | some op =>
    refine .iff (.bind (Q := fun combined _ result =>
        (∃ a b, combined.2 = .primitive a ∧ place.type = .primitive b ∧
          result = (place.store (promote combined.1 a b), .of place.type)) ∨
        (∀ a b, combined.2 = .primitive a → place.type ≠ .primitive b) ∧
          ∃ stored, Fits cx combined place.type stored ∧
            result = (place.store stored, .of place.type))
      ((lowerBinary_judges op (place.load, .of place.type) value span).given
        fun proper => ⟨StaticType.of_ne_error _, proper⟩) fun combined => ?_)
      fun _ _ result => ⟨?_, ?_⟩
    · obtain ⟨code, t⟩ := combined
      dsimp only
      split
      · rename_i a b target
        refine .pure fun _ _ result => ⟨?_, fun given_ => .inl ⟨a, b, rfl, target, given_⟩⟩
        rintro (⟨a', b', same, target', rfl⟩ | ⟨apart, _⟩)
        · cases same
          cases target.symm.trans target'
          rfl
        · exact absurd target (apart a b rfl)
      · rename_i apart
        refine .iff (.map (coerce_judges _ _ _ span)) fun _ _ result => ⟨?_, ?_⟩
        · rintro (⟨a, b, same, target, _⟩ | ⟨_, stored, fits, rfl⟩)
          · exact (apart a b same target).elim
          · exact ⟨stored, fits, rfl⟩
        · rintro ⟨stored, fits, rfl⟩
          exact .inr ⟨apart, stored, fits, rfl⟩
    · intro stores
      cases stores with
      | primitive operated target => exact ⟨_, operated, .inl ⟨_, _, rfl, target, rfl⟩⟩
      | other operated apart fits => exact ⟨_, operated, .inr ⟨apart, _, fits, rfl⟩⟩
    · rintro ⟨⟨code, t⟩, operated, ⟨a, b, rfl, target, rfl⟩ | ⟨apart, stored, fits, rfl⟩⟩
      · exact .primitive operated target
      · exact .other operated apart fits

/-! ### Expressions -/

mutual

/-- Lowering an expression reports nothing just if the rules give it a code. -/
theorem lowerExpr_judges (cx : ClassContext) (kind : BodyKind) :
    (e : Source.Expr) → Judges True (lowerExpr cx kind e) fun st => Elaborates cx kind st e
  | .literal v span => by
    rw [lowerExpr]
    refine .pure fun _ _ result => ⟨fun h => ?_, fun given_ => given_ ▸ .literal⟩
    cases h with
    | literal => rfl
  | .name n span => by
    rw [lowerExpr]
    refine .iff (.map (namePlace?_judges n span)) fun _ _ result => ⟨fun h => ?_, ?_⟩
    · cases h with
      | name named => exact ⟨_, ⟨_, rfl, named⟩, rfl⟩
    · rintro ⟨_, ⟨place, rfl, named⟩, rfl⟩
      exact .name named
  | .this span => by
    rw [lowerExpr]
    refine .iff (lowerThis_judges _ span) fun _ _ result => ⟨fun h => ?_, ?_⟩
    · cases h with
      | this dynamic => exact ⟨dynamic, rfl⟩
    · rintro ⟨dynamic, rfl⟩
      exact .this dynamic
  | .access target n span => by
    rw [lowerExpr]
    refine .iff (.map (accessPlace?_judges target n span)) fun _ _ result => ⟨fun h => ?_, ?_⟩
    · cases h with
      | access dynamic field => exact ⟨_, ⟨_, rfl, field, dynamic, _, rfl⟩, rfl⟩
    · rintro ⟨_, ⟨place, rfl, field, dynamic, inner, rfl⟩, rfl⟩
      exact .access dynamic field
  | .call target n es span => by
    rw [lowerExpr]
    refine .iff (.bind (lowerExpr_judges cx kind target) fun receiver =>
      .bind ((lowerArgs_judges cx kind es).given fun _ => trivial) fun args =>
        (lowerCall_judges receiver n args span).given ?_) fun _ st result => ⟨fun h => ?_, ?_⟩
    · rintro ⟨⟨_, _, h⟩, _⟩
      exact h.ne_error
    · cases h with
      | call target_ _ args_ _ called => exact ⟨_, target_, _, args_, called⟩
    · rintro ⟨receiver, target_, args, args_, called⟩
      exact .call target_ called.receiver_isValue args_ (args_.isValue called.not_void) called
  | .ownCall n es span => by
    rw [lowerExpr]
    refine .iff (.bind (Q := fun receiver st result => ∃ args, ElaboratesAll cx kind st es args ∧
        Called cx receiver n args result) (lowerThis_judges _ span) fun receiver => ?_)
      fun _ st result => ⟨fun h => ?_, ?_⟩
    · split
      · rename_i reported
        refine .pure ?_
        rintro ⟨_, _, _, rfl⟩
        cases reported
      · rename_i proper
        exact .bind ((lowerArgs_judges cx kind es).given fun _ => trivial) fun args =>
          (lowerCall_judges receiver n args span).given fun _ => proper
    · cases h with
      | ownCall dynamic args_ _ called => exact ⟨_, ⟨dynamic, rfl⟩, _, args_, called⟩
    · rintro ⟨_, ⟨dynamic, rfl⟩, args, args_, called⟩
      exact .ownCall dynamic args_ (args_.isValue called.not_void) called
  | .superCall n es span => by
    rw [lowerExpr]
    split
    · rename_i static
      refine .fail fun _ st result h => ?_
      cases h with
      | superCall dynamic => exact dynamic static
    · rename_i dynamic
      refine .iff (.bind (lowerArgs_judges cx kind es) fun args =>
        lowerSuperCall_judges n args span) fun _ st result => ⟨fun h => ?_, ?_⟩
      · cases h with
        | superCall _ args_ _ called => exact ⟨_, args_, called⟩
      · rintro ⟨args, args_, called⟩
        exact .superCall dynamic args_ (args_.isValue called.not_void) called
  | .unary op e span => by
    rw [lowerExpr]
    refine .iff (.bind (lowerExpr_judges cx kind e) fun operand =>
      (lowerUnary_judges op operand span).given ?_) fun _ st result => ⟨fun h => ?_, ?_⟩
    · rintro ⟨_, _, h⟩
      exact h.ne_error
    · cases h with
      | unary operand_ _ signed => exact ⟨_, operand_, signed⟩
    · rintro ⟨operand, operand_, signed⟩
      exact .unary operand_ signed.isValue signed
  | .binary op l r span => by
    rw [lowerExpr]
    refine .iff (.bind (lowerExpr_judges cx kind l) fun left =>
      .bind ((lowerExpr_judges cx kind r).given fun _ => trivial) fun right =>
        (lowerBinary_judges op left right span).given ?_) fun _ st result => ⟨fun h => ?_, ?_⟩
    · rintro ⟨⟨_, _, hl⟩, _, hr⟩
      exact ⟨hl.ne_error, hr.ne_error⟩
    · cases h with
      | binary left_ _ right_ _ operated => exact ⟨_, left_, _, right_, operated⟩
    · rintro ⟨left, left_, right, right_, operated⟩
      exact .binary left_ operated.isValue.1 right_ operated.isValue.2 operated
  | .logical op l r span => by
    rw [lowerExpr]
    have proper : ∀ e st lowered, Elaborates cx kind st e lowered → lowered.2 ≠ .error :=
      fun _ _ _ h => h.ne_error
    cases op with
    | and =>
      refine .iff (condition_judges (lowerExpr_judges cx kind l) (proper l) l.span fun left =>
        condition_judges (lowerExpr_judges cx kind r) (proper r) r.span fun right =>
          .pure fun _ _ _ => Iff.rfl) fun _ st result => ⟨fun h => ?_, ?_⟩
      · cases h with
        | and left_ right_ => exact ⟨_, left_, _, right_, rfl⟩
      · rintro ⟨left, left_, right, right_, rfl⟩
        exact .and left_ right_
    | or =>
      refine .iff (condition_judges (lowerExpr_judges cx kind l) (proper l) l.span fun left =>
        condition_judges (lowerExpr_judges cx kind r) (proper r) r.span fun right =>
          .pure fun _ _ _ => Iff.rfl) fun _ st result => ⟨fun h => ?_, ?_⟩
      · cases h with
        | or left_ right_ => exact ⟨_, left_, _, right_, rfl⟩
      · rintro ⟨left, left_, right, right_, rfl⟩
        exact .or left_ right_
  | .assign op target value span => by
    rw [lowerExpr]
    refine .iff (.bind (targetPlace?_judges target) fun place? =>
      .bind (Q := fun lowered _ result => ∃ place, place? = some place ∧
          Stores cx place lowered op result)
        ((lowerExpr_judges cx kind value).given fun _ => trivial) fun lowered => ?_)
      fun _ st result => ⟨fun h => ?_, ?_⟩
    · cases place? with
      | none =>
        refine .pure ?_
        rintro ⟨⟨_, _, _, ⟨⟩, _⟩, _⟩
      | some place =>
        refine .iff ((lowerStore_judges op place lowered span value.span).given ?_)
          fun _ _ result => ⟨?_, fun stores => ⟨place, rfl, stores⟩⟩
        · rintro ⟨_, _, h⟩
          exact h.ne_error
        · rintro ⟨_, ⟨⟩, stores⟩
          exact stores
    · cases h with
      | assign target_ assigned_ _ stores =>
        exact ⟨_, ⟨_, rfl, target_⟩, _, assigned_, _, rfl, stores⟩
    · rintro ⟨_, ⟨place, rfl, target_⟩, lowered, assigned_, _, ⟨⟩, stores⟩
      exact .assign target_ assigned_ (assigned_.isValue stores.not_void) stores
  | .conditional c t e span => by
    rw [lowerExpr]
    refine .iff (condition_judges (lowerExpr_judges cx kind c) (fun _ _ h => h.ne_error) c.span
      fun condition => .bind (lowerExpr_judges cx kind t) fun thenBranch =>
        .bind ((lowerExpr_judges cx kind e).given fun _ => trivial) fun elseBranch =>
          .map ((joinBranches_judges thenBranch elseBranch t.span).given ?_))
      fun _ st result => ⟨fun h => ?_, ?_⟩
    · rintro ⟨⟨_, _, ht⟩, _, he⟩
      exact ⟨ht.ne_error, he.ne_error⟩
    · cases h with
      | conditional condition_ then_ else_ joined =>
        exact ⟨_, condition_, _, then_, _, else_, _, joined, rfl⟩
    · rintro ⟨condition, condition_, thenBranch, then_, elseBranch, else_, _, joined, rfl⟩
      exact .conditional condition_ then_ else_ joined
  | .cast written e span => by
    rw [lowerExpr]
    split
    · rename_i d unresolved
      refine .reportThen (fun _ => .map ((lowerExpr_judges cx kind e).given fun _ => trivial))
        fun _ st result h => ?_
      cases h with
      | cast resolved => cases unresolved.symm.trans resolved
    · rename_i target resolved
      refine .iff (.bind (lowerExpr_judges cx kind e) fun operand =>
        (lowerCast_judges target operand span e.span).given ?_) fun _ st result => ⟨fun h => ?_, ?_⟩
      · rintro ⟨_, _, h⟩
        exact h.ne_error
      · cases h with
        | cast resolved' operand_ _ cast =>
          cases resolved.symm.trans resolved'
          exact ⟨_, operand_, cast⟩
      · rintro ⟨operand, operand_, cast⟩
        exact .cast resolved operand_ cast.isValue cast

theorem lowerArgs_judges (cx : ClassContext) (kind : BodyKind) :
    (es : List Source.Expr) → Judges True (lowerArgs cx kind es) fun st =>
      ElaboratesAll cx kind st es
  | [] => by
    rw [lowerArgs]
    refine .pure fun _ _ result => ⟨fun h => ?_, fun given_ => given_ ▸ .nil⟩
    cases h with
    | nil => rfl
  | e :: es => by
    rw [lowerArgs]
    refine .iff (.bind (lowerExpr_judges cx kind e) fun lowered =>
      .map ((lowerArgs_judges cx kind es).given fun _ => trivial))
      fun _ st result => ⟨fun h => ?_, ?_⟩
    · cases h with
      | cons first rest => exact ⟨_, first, _, rest, rfl⟩
    · rintro ⟨lowered, first, args, rest, rfl⟩
      exact .cons first rest

end

end Classwright.Check
