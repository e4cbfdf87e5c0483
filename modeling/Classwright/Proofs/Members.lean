import Classwright.Proofs.Bodies

/-!
# Members of a class are typed

Fields have the slots that the code numbers them by, initial values are of the types of their
fields, and the bodies of methods and constructors start with arguments of the parameter types.
-/

namespace Classwright.TypeRef

theorem eq_void_of_isVoid {t : TypeRef} (h : t.isVoid = true) : t = .void := by
  cases t <;> first | rfl | cases h

end Classwright.TypeRef

namespace Classwright.Check

/-! ### Resolved types -/

theorem TypeScope.resolveOr_novoid (scope : TypeScope) (t : Source.TypeName) :
    (scope.resolveOr t).1 ≠ .void := by
  have dims : ∀ (type : TypeRef) k, type ≠ .void → type.withDims k ≠ .void := by
    intro type k novoid
    cases k <;> simp [TypeRef.withDims, novoid]
  unfold TypeScope.resolveOr
  split
  · rename_i type resolved
    unfold TypeScope.resolve at resolved
    split at resolved
    · cases resolved
      exact dims _ _ (by simp)
    · split at resolved
      · cases resolved
        exact dims _ _ (by simp)
      · cases resolved
  · simp [TypeRef.object]

theorem TypeScope.resolveAll_novoid (scope : TypeScope) (ts : List Source.TypeName) :
    ∀ t ∈ (scope.resolveAll ts).1, t ≠ .void := by
  intro t member
  simp only [TypeScope.resolveAll, List.mem_map] at member
  obtain ⟨_, ⟨written, _, rfl⟩, rfl⟩ := member
  exact scope.resolveOr_novoid written

/-! ### Slots of fields -/

/-- Every member of a class has been declared after those in front of it. -/
theorem declareMembers_split {scope : TypeScope} {className : String} {members : List Source.Member}
    {before after : List DeclaredMember} {m : DeclaredMember}
    (split : (declareMembers scope className members).1 = before ++ m :: after) :
    ∃ member, m = (declareMember scope className before member).1 := by
  induction members using List.reverseRecOn generalizing after with
  | nil => exact absurd split.symm (List.append_ne_nil_of_right_ne_nil _ (List.cons_ne_nil _ _))
  | append_singleton ms member ih =>
    rw [declareMembers_concat] at split
    rcases List.eq_nil_or_concat after with rfl | ⟨rest, last, rfl⟩
    · obtain ⟨rfl, last⟩ := List.append_inj' split rfl
      exact ⟨member, (List.cons.inj last).1.symm⟩
    · rw [List.concat_eq_append, ← List.cons_append, ← List.append_assoc] at split
      exact ih (List.append_inj' split rfl).1

/-- The slot of a field counts the fields of its kind in front of it. -/
theorem slot_of_split {scope : TypeScope} {className : String} {members : List Source.Member}
    {before after : List DeclaredMember} {decl : Source.FieldDecl} {info : FieldInfo}
    (split : (declareMembers scope className members).1 = before ++ .field decl info :: after) :
    info.type ≠ .void ∧
      info.slot = (before.filterMap (·.field?)).countP (·.isStatic == info.isStatic) := by
  obtain ⟨member, same⟩ := declareMembers_split split
  cases member with
  | field decl' =>
    cases same
    exact ⟨scope.resolveOr_novoid _, rfl⟩
  | method decl' => cases same
  | constructor decl' => cases same

/-- The parameters of a member's body with their types. -/
def DeclaredMember.bodyParams : DeclaredMember → List Source.Param × List TypeRef
  | .field _ _ => ([], [])
  | .method decl info => (decl.params, info.method.params)
  | .constructor decl params => (decl.params, params)

theorem bodyParams_novoid {scope : TypeScope} {className : String} {members : List Source.Member}
    {m : DeclaredMember} (member : m ∈ (declareMembers scope className members).1) :
    ∀ t ∈ m.bodyParams.2, t ≠ .void := by
  obtain ⟨before, after, split⟩ := List.append_of_mem member
  obtain ⟨written, rfl⟩ := declareMembers_split split
  cases written with
  | field decl => exact fun t ht => nomatch ht
  | method decl => exact TypeScope.resolveAll_novoid _ _
  | constructor decl => exact TypeScope.resolveAll_novoid _ _

variable (cx : ClassContext)

/-- The code of the static or of the instance field that a member is. -/
def codeOf? (isStatic : Bool) (m : DeclaredMember) : Option Code.Field :=
  if isStatic then (compileMember cx m).1.staticField? else (compileMember cx m).1.instanceField?

theorem codeOf?_field (isStatic : Bool) (decl : Source.FieldDecl) (info : FieldInfo) :
    codeOf? cx isStatic (.field decl info) =
      if info.isStatic = isStatic then some (compileField cx decl info).1 else none := by
  cases isStatic <;> cases h : info.isStatic <;>
    simp [codeOf?, compileMember, h, CompiledMember.staticField?, CompiledMember.instanceField?]

theorem length_codeOf? (isStatic : Bool) (members : List DeclaredMember) :
    (members.filterMap (codeOf? cx isStatic)).length
      = (members.filterMap (·.field?)).countP (·.isStatic == isStatic) := by
  induction members with
  | nil => rfl
  | cons m members ih =>
    cases m with
    | field decl info =>
      rw [List.filterMap_cons, codeOf?_field, List.filterMap_cons]
      by_cases same : info.isStatic = isStatic
      · simp [same, ih, DeclaredMember.field?]
      · simp [same, ih, DeclaredMember.field?]
    | method decl info =>
      have noField : codeOf? cx isStatic (.method decl info) = none := by
        cases isStatic <;> rfl
      rw [List.filterMap_cons_none noField, List.filterMap_cons_none rfl]
      exact ih
    | constructor decl params =>
      have noField : codeOf? cx isStatic (.constructor decl params) = none := by
        cases isStatic <;> rfl
      rw [List.filterMap_cons_none noField, List.filterMap_cons_none rfl]
      exact ih

theorem compileField_type (decl : Source.FieldDecl) (info : FieldInfo) :
    (compileField cx decl info).1.type = info.type := by
  unfold compileField
  dsimp only
  split <;> rfl

end Classwright.Check

namespace Classwright.World

open Check Check.Lower

variable {W : World} {n : Nat} {d : LoadedClass}

theorem members_of_class (linked : W.Linked) (hd : W.classes n = some d) :
    d.code.fields = (W.context n).members.filterMap (codeOf? (W.context n) false) ∧
    d.code.statics = (W.context n).members.filterMap (codeOf? (W.context n) true) := by
  rw [(W.accepted linked hd).assembled]
  exact ⟨List.filterMap_map .., List.filterMap_map ..⟩

/-- Fields have the slots that the code numbers them by. -/
theorem fieldsPlaced (valid : W.Valid) (n : Nat) : W.FieldsPlaced n := by
  intro info member
  simp only [ClassContext.fields, List.mem_filterMap] at member
  obtain ⟨m, member, isField⟩ := member
  cases m with
  | method decl own => cases isField
  | constructor decl params => cases isField
  | field decl info' =>
    cases isField
    obtain ⟨before, after, split⟩ := List.append_of_mem member
    obtain ⟨novoid, slot⟩ := slot_of_split ((contextOf_members ..).symm.trans split)
    have numbered : ∀ isStatic, info.isStatic = isStatic →
        (fieldTypes ((W.context n).members.filterMap (codeOf? (W.context n) isStatic)))[info.slot]?
          = some info.type := by
      rintro isStatic rfl
      rw [slot, ← length_codeOf? (W.context n), split, fieldTypes, List.getElem?_map,
        List.filterMap_append, List.filterMap_cons, codeOf?_field, if_pos rfl]
      simp [compileField_type]
    refine ⟨novoid, ?_⟩
    cases kind : info.isStatic with
    | false =>
      rw [if_neg (by simp)]
      intro c hc
      rw [(members_of_class valid.toLinked hc).1]
      exact numbered false kind
    | true =>
      rw [if_pos rfl]
      intro c hc
      rw [(members_of_class valid.toLinked hc).2]
      exact numbered true kind

section

variable (serving : W.Serving) (hd : W.classes n = some d)

include serving hd

theorem Serving.served {kind : BodyKind} {st : BodyState} {e : Source.Expr}
    (within : ∀ p ∈ e.parts, ⟨kind, st, p⟩ ∈ W.expressions n) : W.Served n kind st e :=
  fun p part call made =>
    serving n d hd call (List.mem_filterMap.2 ⟨_, within p part, made⟩)

/-- The calls in initial values serve. -/
theorem Serving.init {decl : Source.FieldDecl} {info : FieldInfo}
    (member : .field decl info ∈ (W.context n).members) {e : Source.Expr}
    (init : decl.init = some e) :
    W.Served n (if info.isStatic then .staticInit else .instanceInit) {} e := by
  refine serving.served hd fun p part => List.mem_flatMap.2 ⟨_, member, ?_⟩
  refine List.mem_append_left _ (List.mem_map.2 ⟨p, ?_, rfl⟩)
  exact List.mem_flatMap.2 ⟨e, Option.mem_toList.2 init, part⟩

/-- The calls in bodies serve. -/
theorem Serving.body {m : DeclaredMember} (member : m ∈ (W.context n).members) :
    W.AllServed n (m.stmtSites (W.context n)) := by
  intro site inside e direct
  refine serving.served hd fun p part => List.mem_flatMap.2 ⟨_, member, ?_⟩
  refine List.mem_append_right _ (List.mem_flatMap.2 ⟨site, inside, ?_⟩)
  exact List.mem_map.2 ⟨p, List.mem_flatMap.2 ⟨e, direct, part⟩, rfl⟩

end

/-- A field's initial value is of its type. -/
structure FieldTyped (W : World) (n : Nat) (f : Code.Field) : Prop where
  novoid : f.type ≠ .void
  init : ∀ code, f.init = some code → W.Evaluates n [] code (.of f.type)

theorem scoped_start : ({} : BodyState).Scoped where
  novoid := by simp
  inside := by simp
  distinct := by simp

/-- Initial values of fields are of their types. -/
theorem fieldTyped (valid : W.Valid) (serving : W.Serving) (hd : W.classes n = some d)
    {f : Code.Field} (hf : f ∈ d.code.fields ∨ f ∈ d.code.statics) : W.FieldTyped n f := by
  have declared : ∃ decl info, DeclaredMember.field decl info ∈ (W.context n).members
      ∧ f = (compileField (W.context n) decl info).1 := by
    rw [(members_of_class valid.toLinked hd).1, (members_of_class valid.toLinked hd).2] at hf
    have either : ∃ isStatic, ∃ m ∈ (W.context n).members,
        codeOf? (W.context n) isStatic m = some f := by
      rcases hf with hf | hf
      · exact ⟨false, List.mem_filterMap.1 hf⟩
      · exact ⟨true, List.mem_filterMap.1 hf⟩
    obtain ⟨isStatic, m, member, isField⟩ := either
    cases m with
    | field decl info =>
      rw [codeOf?_field, Option.ite_none_right_eq_some] at isField
      exact ⟨decl, info, member, (Option.some.inj isField.2).symm⟩
    | method decl info => cases isStatic <;> cases isField
    | constructor decl params => cases isStatic <;> cases isField
  obtain ⟨decl, info, member, rfl⟩ := declared
  have placed := fieldsPlaced valid n
  have inFields : info ∈ (W.context n).fields := List.mem_filterMap.2 ⟨_, member, rfl⟩
  have clean : (compileField (W.context n) decl info).2 = [] :=
    (W.accepted valid.toLinked hd).members_clean _ member
  refine ⟨by rw [compileField_type]; exact (placed info inFields).1, fun code hcode => ?_⟩
  rw [compileField_type]
  unfold compileField at clean hcode
  dsimp only at clean hcode
  split at hcode
  · cases hcode
  · rename_i e init
    rw [init] at clean
    cases hcode
    have lowered := lowerAs_yields valid hd placed
      (if info.isStatic then .staticInit else .instanceInit) e info.type
    exact (lowered {} clean).2.2 scoped_start (serving.init hd member init)

/-- Parameters come into scope with the first slots. -/
theorem declareParams_checks (params : List Source.Param) (types : List TypeRef) :
    Checks (declareParams params types) fun st _ st' => (∀ t ∈ types, t ≠ .void) → st.Scoped →
      st'.Scoped ∧ ∀ x ∈ st'.scopes.flatten, x ∈ st.scopes.flatten ∨
        ∃ i t, types[i]? = some t ∧ x.2 = ⟨st.nextSlot + i, t⟩ := by
  induction params generalizing types with
  | nil =>
    refine (Checks.pure ()).mono ?_
    rintro st _ _ ⟨_, rfl⟩ _ hst
    exact ⟨hst, fun x hx => .inl hx⟩
  | cons p params ih =>
    cases types with
    | nil =>
      refine (Checks.pure ()).mono ?_
      rintro st _ _ ⟨_, rfl⟩ _ hst
      exact ⟨hst, fun x hx => .inl hx⟩
    | cons t types =>
      rw [declareParams]
      refine (Checks.seq (declare_checks p.name t p.span) fun _ => ih types).mono ?_
      rintro st _ st'' ⟨slot, st', ⟨rfl, next, _, more, kept⟩, rest⟩ novoid hst
      have hst' := kept (novoid t List.mem_cons_self) hst
      obtain ⟨hst'', all⟩ := rest (fun u hu => novoid u (List.mem_cons_of_mem _ hu)) hst'
      refine ⟨hst'', fun x hx => ?_⟩
      rcases all x hx with hx | ⟨i, u, at_, same⟩
      · rcases more x hx with rfl | hx
        · exact .inr ⟨0, t, rfl, rfl⟩
        · exact .inl hx
      · refine .inr ⟨i + 1, u, at_, ?_⟩
        rw [same, next, Nat.add_right_comm, Nat.add_assoc]

/-- The slots of a body start with its arguments. -/
theorem holding_args {vars : Vars} {types : List TypeRef} {args : List Value}
    (fit : W.Fit types args) (params : ∀ x ∈ vars, ∃ i t, types[i]? = some t ∧ x.2 = ⟨i, t⟩)
    (more : Nat) : W.Holding vars (args ++ List.replicate more .null) where
  known := by
    intro v member
    rcases List.mem_append.1 member with member | member
    · exact knowsAll_iff.1 fit.known v member
    · rw [List.eq_of_mem_replicate member]
      trivial
  typed := by
    intro x hx
    obtain ⟨i, t, at_, same⟩ := params x hx
    rw [same]
    have inside : i < types.length := (List.getElem?_eq_some_iff.1 at_).1
    have here : i < args.length := fit.length_eq ▸ inside
    refine ⟨args[i], ?_, ?_⟩
    · rw [List.getElem?_append_left here]
      exact List.getElem?_eq_getElem here
    · have typed := List.forall₂_iff_get.1 fit
      have := (typed.2 i inside here).1
      rw [List.getElem?_eq_getElem inside, Option.some.injEq] at at_
      rw [← at_]
      exact this

/-- The parameters of a member of a class come into scope without a report. -/
theorem declareParams_clean (valid : W.Valid) (hd : W.classes n = some d)
    {m : DeclaredMember} (member : m ∈ (W.context n).members) :
    (declareParams m.bodyParams.1 m.bodyParams.2 {}).2.diagnostics = [] := by
  have clean := (W.accepted valid.toLinked hd).members_clean m member
  have inner : ∀ kind statements st,
      ((inScope (lowerStmts (W.context n) kind statements)) st).2.diagnostics = [] →
      st.diagnostics = [] := fun kind statements st clean =>
    ((lowerStmts_lowers valid hd (fieldsPlaced valid n) kind statements).inScope st clean).1
  cases m with
  | field decl info => rfl
  | method decl info => exact inner _ _ _ (List.append_eq_nil_iff.1 clean).1
  | constructor decl params => exact inner _ _ _ (List.append_eq_nil_iff.1 clean).2

/-- Code that is run with arguments of the parameter types keeps the store typed, and ends normally
only if `passable`. -/
def RunsBody (W : World) (n : Nat) (params : List TypeRef) (locals : Nat) (body : List Code.Stmt)
    (passable : Prop) : Prop :=
  ∀ calls frame args, calls.Sound W → W.FrameOf n frame → W.Fit params args →
    Run.Keeps W (runBody calls frame locals args body) fun
      | .normal => passable
      | .returned v => W.Knows v

/-- A body behind parameters. -/
theorem runsBody_of_clean (valid : W.Valid) (hd : W.classes n = some d) {kind : BodyKind}
    {params : List Source.Param} {types : List TypeRef} (novoid : ∀ t ∈ types, t ≠ .void)
    {statements : List Source.Stmt}
    (served : W.AllServed n (allSites (W.context n) kind statements (bodyScope params types)))
    (clean : (lowerBody do
      declareParams params types
      inScope (lowerStmts (W.context n) kind statements)).2.diagnostics = []) (locals : Nat) :
    W.RunsBody n types locals (lowerBody do
      declareParams params types
      inScope (lowerStmts (W.context n) kind statements)).1 (allComplete statements = true) := by
  have lowered := lowerStmts_lowers valid hd (fieldsPlaced valid n) kind statements
  obtain ⟨_, _, st', ⟨hparams, behind⟩, hbody⟩ := Checks.seq
    (declareParams_checks params types).exact (fun _ => lowered.inScope) {} clean
  obtain ⟨hst', vars⟩ := hparams novoid scoped_start
  obtain ⟨_, _, _, executes⟩ := hbody hst'
  have executes := executes (behind ▸ served)
  intro calls frame args sound hframe fit
  have start : W.Holding st'.scopes.flatten
      (args ++ List.replicate (locals - args.length) .null) := by
    refine holding_args fit (fun x hx => ?_) _
    rcases vars x hx with none_ | ⟨i, t, at_, same⟩
    · exact nomatch none_
    · exact ⟨i, t, at_, by rw [same]; simp⟩
  refine Run.Keeps.map ((executes calls frame sound hframe _ start).mono ?_)
  rintro ⟨flow, locals⟩ ⟨_, ended⟩
  cases flow with
  | normal => exact ended.2
  | returned v => exact ended

/-- The bodies of methods are typed, and one that returns a value does not end without one. -/
theorem method_runsBody (valid : W.Valid) (serving : W.Serving) (hd : W.classes n = some d)
    {m : Code.Method} (hm : m ∈ d.code.methods) :
    W.RunsBody n m.params m.locals m.body (m.returnType = .void) := by
  rw [(W.accepted valid.toLinked hd).assembled] at hm
  simp only [assemble, List.filterMap_map, List.mem_filterMap, Function.comp] at hm
  obtain ⟨member, inMembers, isMethod⟩ := hm
  have clean := (W.accepted valid.toLinked hd).members_clean _ inMembers
  cases member with
  | field decl info => cases isMethod
  | constructor decl params => cases isMethod
  | method decl info =>
    cases isMethod
    have novoid : ∀ t ∈ info.method.params, t ≠ .void := bodyParams_novoid inMembers
    obtain ⟨clean, returns⟩ := List.append_eq_nil_iff.1 clean
    intro calls frame args sound hframe fit
    refine (runsBody_of_clean valid hd novoid (serving.body hd inMembers) clean _ calls frame args
      sound hframe fit).mono fun flow ended => ?_
    cases flow with
    | returned v => exact ended
    | normal =>
      have passable : allComplete decl.body.statements = true := ended
      have isVoid : info.method.returnType.isVoid = true := by
        by_contra value
        simp [passable, value, reportIf] at returns
      show info.method.returnType = .void
      exact TypeRef.eq_void_of_isVoid isVoid

/-- The bodies of constructors are typed, and so is the one of a class that declares none. -/
theorem constructor_runsBody (valid : W.Valid) (serving : W.Serving)
    (hd : W.classes n = some d) {k : Code.Constructor} (hk : k ∈ d.code.constructors) :
    W.RunsBody n k.params k.locals k.body True := by
  rw [(W.accepted valid.toLinked hd).assembled] at hk
  dsimp only [assemble] at hk
  split at hk
  · rw [List.mem_singleton.1 hk]
    exact fun _ _ _ _ _ _ => .pure trivial
  · simp only [List.filterMap_map, List.mem_filterMap, Function.comp] at hk
    obtain ⟨member, inMembers, isConstructor⟩ := hk
    have clean := (W.accepted valid.toLinked hd).members_clean _ inMembers
    cases member with
    | field decl info => cases isConstructor
    | method decl info => cases isConstructor
    | constructor decl params =>
      cases isConstructor
      have novoid : ∀ t ∈ params, t ≠ .void := bodyParams_novoid inMembers
      have clean := (List.append_eq_nil_iff.1 clean).2
      intro calls frame args sound hframe fit
      refine (runsBody_of_clean valid hd novoid (serving.body hd inMembers) clean _ calls frame
        args sound hframe fit).mono fun flow ended => ?_
      cases flow with
      | returned v => exact ended
      | normal => exact trivial

end Classwright.World
