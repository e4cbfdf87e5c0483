import Classwright.Proofs.Bodies
import Classwright.Proofs.Elaborating

/-!
# What a class that compiles is made of

The rules for statements and members beside those for expressions: initial, returned and thrown
values are values and fit what is required of them, conditions are boolean, and every variable is
new. A unit only compiles if the rules give its members the code that it is compiled to.
-/

namespace Classwright.Check

open Lower Elaboration

/-! ### The rules -/

/-- A value of the type that is required. -/
def ElaboratesAs (cx : ClassContext) (kind : BodyKind) (st : BodyState) (e : Source.Expr)
    (target : TypeRef) (code : Code.Expr) : Prop :=
  ∃ lowered, Elaborates cx kind st e lowered ∧ lowered.2.IsValue ∧ Fits cx lowered target code

/-- The value that a variable starts with. -/
inductive ElaboratesInit (cx : ClassContext) (kind : BodyKind) (st : BodyState) (type : TypeRef) :
    Option Source.Expr → Code.Expr → Prop
  | default : ElaboratesInit cx kind st type none (defaultCode type)
  | value {e : Source.Expr} {code : Code.Expr} (value_ : ElaboratesAs cx kind st e type code) :
    ElaboratesInit cx kind st type (some e) code

/-- What a `return` gives: nothing, or in a method with a return type a value of this. -/
inductive ElaboratesReturn (cx : ClassContext) (kind : BodyKind) (st : BodyState) :
    Option Source.Expr → Option Code.Expr → Prop
  | nothing (none_ : ∀ type, kind = .method type → type = .void) :
    ElaboratesReturn cx kind st none none
  | value {type : TypeRef} {e : Source.Expr} {code : Code.Expr} (required : kind = .method type)
      (some_ : type ≠ .void) (value_ : ElaboratesAs cx kind st e type code) :
    ElaboratesReturn cx kind st (some e) (some code)

mutual

/-- The code of a statement, and the variables behind it. -/
inductive ElaboratesStmt (cx : ClassContext) (kind : BodyKind) :
    BodyState → Source.Stmt → List Code.Stmt → BodyState → Prop
  | block {st inner : BodyState} {body : List Source.Stmt} {span : Span} {code : List Code.Stmt}
      (body_ : ElaboratesStmts cx kind st.opened body code inner) :
    ElaboratesStmt cx kind st (.block body span) [.block code] inner.closed
  | empty {st : BodyState} {span : Span} : ElaboratesStmt cx kind st (.empty span) [] st
  | expr {st : BodyState} {e : Source.Expr} {code : Code.Expr} {type : StaticType}
      (e_ : Elaborates cx kind st e (code, type)) :
    ElaboratesStmt cx kind st (.expr e) [.expr code] st
  | declare {st : BodyState} {written : Source.TypeName} {name : String}
      {init : Option Source.Expr} {span : Span} {type : TypeRef} {code : Code.Expr}
      (resolved : cx.scope.resolve written = .ok type)
      (init_ : ElaboratesInit cx kind st type init code) (new : st.variableOf? name = none) :
    ElaboratesStmt cx kind st (.declare written name init span)
      [.expr (.storeVar st.nextSlot code)] (st.declaring name type)
  | ret {st : BodyState} {value : Option Source.Expr} {span : Span} {code : Option Code.Expr}
      (returned : ElaboratesReturn cx kind st value code) :
    ElaboratesStmt cx kind st (.ret value span) [.ret code] st
  | ifThen {st inner : BodyState} {c : Source.Expr} {t : Source.Stmt} {span : Span}
      {condition : Code.Expr} {code : List Code.Stmt}
      (condition_ : Elaborates cx kind st c (condition, .boolean))
      (then_ : ElaboratesStmt cx kind st.opened t code inner) :
    ElaboratesStmt cx kind st (.ifThen c t span) [.cond condition code []] inner.closed
  | ifElse {st inner inner' : BodyState} {c : Source.Expr} {t e : Source.Stmt} {span : Span}
      {condition : Code.Expr} {thenCode elseCode : List Code.Stmt}
      (condition_ : Elaborates cx kind st c (condition, .boolean))
      (then_ : ElaboratesStmt cx kind st.opened t thenCode inner)
      (else_ : ElaboratesStmt cx kind inner.closed.opened e elseCode inner') :
    ElaboratesStmt cx kind st (.ifElse c t e span) [.cond condition thenCode elseCode]
      inner'.closed
  | loop {st inner : BodyState} {c : Source.Expr} {b : Source.Stmt} {span : Span}
      {condition : Code.Expr} {code : List Code.Stmt}
      (condition_ : Elaborates cx kind st c (condition, .boolean))
      (body_ : ElaboratesStmt cx kind st.opened b code inner) :
    ElaboratesStmt cx kind st (.loop c b span) [.loop condition code] inner.closed
  | throw {st : BodyState} {e : Source.Expr} {span : Span} {code : Code.Expr} {type : StaticType}
      (e_ : Elaborates cx kind st e (code, type)) (value : type.IsValue) :
    ElaboratesStmt cx kind st (.throw e span) [.throw code] st

/-- The code of statements one behind the other. -/
inductive ElaboratesStmts (cx : ClassContext) (kind : BodyKind) :
    BodyState → List Source.Stmt → List Code.Stmt → BodyState → Prop
  | nil {st : BodyState} : ElaboratesStmts cx kind st [] [] st
  | cons {st st' st'' : BodyState} {s : Source.Stmt} {ss : List Source.Stmt}
      {code codes : List Code.Stmt} (first : ElaboratesStmt cx kind st s code st')
      (rest : ElaboratesStmts cx kind st' ss codes st'') :
    ElaboratesStmts cx kind st (s :: ss) (code ++ codes) st''

end

/-- Parameters come into scope, each a new one. -/
inductive DeclaresAll : List Source.Param → List TypeRef → BodyState → BodyState → Prop
  | noParams {types : List TypeRef} {st : BodyState} : DeclaresAll [] types st st
  | noTypes {params : List Source.Param} {st : BodyState} : DeclaresAll params [] st st
  | cons {p : Source.Param} {ps : List Source.Param} {t : TypeRef} {ts : List TypeRef}
      {st st' : BodyState} (new : st.variableOf? p.name = none)
      (rest : DeclaresAll ps ts (st.declaring p.name t) st') :
    DeclaresAll (p :: ps) (t :: ts) st st'

/-- The code of a body behind parameters, and how many variables it has. -/
inductive ElaboratesBody (cx : ClassContext) (kind : BodyKind) (params : List Source.Param)
    (types : List TypeRef) (statements : List Source.Stmt) : List Code.Stmt → Nat → Prop
  | body {st inner : BodyState} {code : List Code.Stmt} (params_ : DeclaresAll params types {} st)
      (statements_ : ElaboratesStmts cx kind st.opened statements code inner) :
    ElaboratesBody cx kind params types statements code inner.nextSlot

/-- The code of a member. -/
inductive ElaboratesMember (cx : ClassContext) : DeclaredMember → CompiledMember → Prop
  | field {decl : Source.FieldDecl} {info : FieldInfo} (bare : decl.init = none) :
    ElaboratesMember cx (.field decl info) (.field info.isStatic
      ⟨info.name, info.type, info.visibility, info.isFinal, none⟩)
  | initialized {decl : Source.FieldDecl} {info : FieldInfo} {e : Source.Expr} {code : Code.Expr}
      (init : decl.init = some e) (value : ElaboratesAs cx
        (if info.isStatic then .staticInit else .instanceInit) {} e info.type code) :
    ElaboratesMember cx (.field decl info) (.field info.isStatic
      ⟨info.name, info.type, info.visibility, info.isFinal, some code⟩)
  | method {decl : Source.MethodDecl} {info : OwnedMethod} {body : List Code.Stmt} {locals : Nat}
      (body_ : ElaboratesBody cx (.method info.method.returnType) decl.params info.method.params
        decl.body.statements body locals) :
    ElaboratesMember cx (.method decl info) (.method ⟨info.method.name, info.method.params,
      info.method.returnType, info.method.throws, info.method.visibility, locals, body⟩)
  | constructor {decl : Source.ConstructorDecl} {types : List TypeRef} {body : List Code.Stmt}
      {locals : Nat} (body_ : ElaboratesBody cx .constructor decl.params types
        decl.body.statements body locals) :
    ElaboratesMember cx (.constructor decl types)
      (.constructor ⟨types, decl.modifiers.effective, locals, body⟩)

/-! ### Lowering follows them -/

section

variable {pre : Prop} {cx : ClassContext} {kind : BodyKind}

theorem resolve_judges (written : Source.TypeName) : Judges pre (Lower.resolve cx written)
    fun _ type => cx.scope.resolve written = .ok type := by
  unfold Lower.resolve
  split
  · rename_i type resolved
    refine .pure fun _ _ type' => ⟨fun resolved' => ?_, fun given_ => given_ ▸ resolved⟩
    exact Except.ok.inj (resolved'.symm.trans resolved)
  · rename_i d unresolved
    refine .refuse fun _ _ _ resolved => ?_
    cases unresolved.symm.trans resolved

theorem variableOf?_eq_none_iff {st : BodyState} {name : String} : st.variableOf? name = none ↔
    ¬ (st.scopes.any fun scope => scope.any (·.1 == name)) = true := by
  simp only [BodyState.variableOf?, Option.map_eq_none_iff, List.find?_eq_none, List.mem_flatten,
    List.any_eq_true, beq_iff_eq, not_exists, not_and, forall_exists_index, and_imp]
  exact ⟨fun none_ scope inside x member => none_ x scope inside member,
    fun none_ x scope inside member => none_ scope inside x member⟩

theorem declare_decides (name : String) (type : TypeRef) (span : Span) :
    Decides pre (declare name type span) fun st slot st' =>
      st.variableOf? name = none ∧ slot = st.nextSlot ∧ st' = st.declaring name type := by
  have given_ : Decides True
      (modifyGet fun s : BodyState => (s.nextSlot, s.declaring name type) : Lower Nat)
      fun st slot st' => slot = st.nextSlot ∧ st' = st.declaring name type :=
    (Decides.modifyGet fun _ => rfl).iff fun _ _ _ _ => Prod.mk.injEq .. ▸ Iff.rfl
  unfold declare
  refine .iff (.get (Q := fun s st slot st' => s.variableOf? name = none ∧ slot = st.nextSlot ∧
    st' = st.declaring name type) fun s => ?_) fun _ _ _ _ => Iff.rfl
  dsimp only
  split
  · rename_i known
    refine .reportThen (fun _ => given_.given fun _ => trivial) ?_
    rintro _ _ _ _ ⟨new, _⟩
    exact variableOf?_eq_none_iff.1 new known
  · rename_i new
    exact (given_.given fun _ => trivial).iff fun _ _ _ _ =>
      and_iff_right (variableOf?_eq_none_iff.2 new)

theorem lowerAs_judges (e : Source.Expr) (target : TypeRef) :
    Judges pre (lowerAs cx kind e target) fun st => ElaboratesAs cx kind st e target := by
  refine .iff (.bind ((lowerExpr_judges cx kind e).given fun _ => trivial) fun lowered =>
    coerce_judges lowered.1 lowered.2 target e.span) fun _ st code => ⟨?_, ?_⟩
  · rintro ⟨lowered, h, _, fits⟩
    exact ⟨lowered, h, fits⟩
  · rintro ⟨lowered, h, fits⟩
    exact ⟨lowered, h, h.isValue fits.not_void, fits⟩

theorem lowerCondition_judges (e : Source.Expr) : Judges pre (lowerCondition cx kind e)
    fun st code => Elaborates cx kind st e (code, .boolean) := by
  refine .iff (.bind ((lowerExpr_judges cx kind e).given fun _ => trivial) fun lowered =>
    (asCondition_judges lowered e.span).given ?_) fun _ st code => ⟨fun h => ⟨_, h, rfl⟩, ?_⟩
  · rintro ⟨_, _, h⟩
    exact h.ne_error
  · rintro ⟨_, h, rfl⟩
    exact h

theorem lowerReturn_judges (value : Option Source.Expr) (span : Span) :
    Judges pre (lowerReturn cx kind value span) fun st =>
      ElaboratesReturn cx kind st value := by
  unfold lowerReturn
  split
  · refine .refuse fun _ st code returned => ?_
    cases returned with
    | value required some_ =>
      cases required
      exact some_ rfl
  · refine .pure fun _ st code => ⟨fun returned => ?_, ?_⟩
    · cases returned
      rfl
    · rintro rfl
      refine .nothing ?_
      rintro _ ⟨⟩
      rfl
  · rename_i type some_
    refine .refuse fun _ st code returned => ?_
    cases returned with
    | nothing none_ => exact some_ (none_ _ rfl)
  · rename_i type e some_
    refine .iff (.map (lowerAs_judges e type)) fun _ st code => ⟨fun returned => ?_, ?_⟩
    · cases returned with
      | value required _ value_ =>
        cases required
        exact ⟨_, value_, rfl⟩
    · rintro ⟨code, value_, rfl⟩
      exact .value rfl some_ value_
  · rename_i e noMethod
    refine .refuse fun _ st code returned => ?_
    cases returned with
    | value required => exact noMethod _ required
  · rename_i noMethod
    refine .pure fun _ st code => ⟨fun returned => ?_, ?_⟩
    · cases returned
      rfl
    · rintro rfl
      exact .nothing fun type method => (noMethod type method).elim

/-- A declaration with its initial value lowered. -/
theorem declared_decides {value : Lower Code.Expr} {written : Source.TypeName} {name : String}
    {init : Option Source.Expr} {span span' : Span} {type : TypeRef}
    (h : Judges True value fun st => ElaboratesInit cx kind st type init)
    (resolved : pre → cx.scope.resolve written = .ok type) :
    Decides pre (do
        let value ← value
        let slot ← declare name type span
        return [Code.Stmt.expr (.storeVar slot value)])
      fun st => ElaboratesStmt cx kind st (.declare written name init span') := by
  refine .iff ((h.given fun _ => trivial).andThen fun code =>
    .bind (declare_decides name type span) fun slot => .pure _)
    fun holds st result st' => ⟨fun declared => ?_, ?_⟩
  · cases declared with
    | declare resolved' init_ new =>
      cases (resolved holds).symm.trans resolved'
      exact ⟨_, init_, _, _, ⟨new, rfl, rfl⟩, rfl, rfl⟩
  · rintro ⟨code, init_, _, _, ⟨new, rfl, rfl⟩, rfl, rfl⟩
    exact .declare (resolved holds) init_ new

mutual

/-- Lowering a statement reports nothing just if the rules give it a code. -/
theorem lowerStmt_decides (cx : ClassContext) (kind : BodyKind) : (s : Source.Stmt) →
    Decides True (lowerStmt cx kind s) fun st => ElaboratesStmt cx kind st s
  | .block body span => by
    rw [lowerStmt]
    refine .iff (.bind (.inScope (lowerStmts_decides cx kind body)) fun code => .pure _)
      fun _ st result st' => ⟨fun h => ?_, ?_⟩
    · cases h with
      | block body_ => exact ⟨_, _, ⟨_, body_, rfl⟩, rfl, rfl⟩
    · rintro ⟨code, _, ⟨inner, body_, rfl⟩, rfl, rfl⟩
      exact .block body_
  | .empty span => by
    rw [lowerStmt]
    refine .iff (.pure _) fun _ st result st' => ⟨fun h => ?_, ?_⟩
    · cases h
      exact ⟨rfl, rfl⟩
    · rintro ⟨rfl, rfl⟩
      exact .empty
  | .expr e => by
    rw [lowerStmt]
    refine .iff ((lowerExpr_judges cx kind e).andThen fun lowered => .pure _)
      fun _ st result st' => ⟨fun h => ?_, ?_⟩
    · cases h with
      | expr e_ => exact ⟨_, e_, rfl, rfl⟩
    · rintro ⟨lowered, e_, rfl, rfl⟩
      exact .expr e_
  | .declare written name init span => by
    rw [lowerStmt]
    have known : ∀ type, (True ∧ ∃ _ : BodyState, cx.scope.resolve written = .ok type) →
        cx.scope.resolve written = .ok type := fun _ ⟨_, _, resolved⟩ => resolved
    refine .iff ((resolve_judges written).andThen (Q := fun _ st =>
      ElaboratesStmt cx kind st (.declare written name init span)) fun type => ?_)
      fun _ st result st' => ⟨fun h => ?_, fun ⟨_, _, h⟩ => h⟩
    · cases init with
      | none =>
        refine declared_decides (.pure fun _ st code => ⟨fun init_ => ?_, ?_⟩) (known type)
        · cases init_
          rfl
        · rintro rfl
          exact .default
      | some e =>
        refine declared_decides
          (.iff (lowerAs_judges e type) fun _ st code => ⟨fun init_ => ?_, ?_⟩) (known type)
        · cases init_ with
          | value value_ => exact value_
        · exact .value
    · cases h with
      | declare resolved init_ new => exact ⟨_, resolved, .declare resolved init_ new⟩
  | .ret value span => by
    rw [lowerStmt]
    refine .iff ((lowerReturn_judges value span).andThen fun code => .pure _)
      fun _ st result st' => ⟨fun h => ?_, ?_⟩
    · cases h with
      | ret returned => exact ⟨_, returned, rfl, rfl⟩
    · rintro ⟨code, returned, rfl, rfl⟩
      exact .ret returned
  | .ifThen c t span => by
    rw [lowerStmt]
    refine .iff ((lowerCondition_judges c).andThen fun condition =>
      .bind (.inScope ((lowerStmt_decides cx kind t).given fun _ => trivial)) fun code => .pure _)
      fun _ st result st' => ⟨fun h => ?_, ?_⟩
    · cases h with
      | ifThen condition_ then_ => exact ⟨_, condition_, _, _, ⟨_, then_, rfl⟩, rfl, rfl⟩
    · rintro ⟨condition, condition_, code, _, ⟨inner, then_, rfl⟩, rfl, rfl⟩
      exact .ifThen condition_ then_
  | .ifElse c t e span => by
    rw [lowerStmt]
    refine .iff ((lowerCondition_judges c).andThen fun condition =>
      .bind (.inScope ((lowerStmt_decides cx kind t).given fun _ => trivial)) fun thenCode =>
        .bind (.inScope ((lowerStmt_decides cx kind e).given fun _ => trivial))
          fun elseCode => .pure _)
      fun _ st result st' => ⟨fun h => ?_, ?_⟩
    · cases h with
      | ifElse condition_ then_ else_ =>
        exact ⟨_, condition_, _, _, ⟨_, then_, rfl⟩, _, _, ⟨_, else_, rfl⟩, rfl, rfl⟩
    · rintro ⟨condition, condition_, thenCode, _, ⟨inner, then_, rfl⟩, elseCode, _,
        ⟨inner', else_, rfl⟩, rfl, rfl⟩
      exact .ifElse condition_ then_ else_
  | .loop c b span => by
    rw [lowerStmt]
    refine .iff ((lowerCondition_judges c).andThen fun condition =>
      .bind (.inScope ((lowerStmt_decides cx kind b).given fun _ => trivial)) fun code => .pure _)
      fun _ st result st' => ⟨fun h => ?_, ?_⟩
    · cases h with
      | loop condition_ body_ => exact ⟨_, condition_, _, _, ⟨_, body_, rfl⟩, rfl, rfl⟩
    · rintro ⟨condition, condition_, code, _, ⟨inner, body_, rfl⟩, rfl, rfl⟩
      exact .loop condition_ body_
  | .throw e span => by
    rw [lowerStmt]
    refine .iff ((lowerExpr_judges cx kind e).andThen (Q := fun lowered st result st' =>
      lowered.2 ≠ .void ∧ result = [.throw lowered.1] ∧ st' = st) fun lowered => ?_)
      fun _ st result st' => ⟨fun h => ?_, ?_⟩
    · dsimp only
      split
      · rename_i void
        refine .reportThen (fun _ => .pure _) ?_
        rintro _ _ _ _ ⟨value, _⟩
        exact value void
      · rename_i value
        exact (Decides.pure _).iff fun _ _ _ _ => and_iff_right value
    · cases h with
      | throw e_ value => exact ⟨_, e_, value.1, rfl, rfl⟩
    · rintro ⟨lowered, e_, value, rfl, rfl⟩
      exact .throw e_ (e_.isValue value)

theorem lowerStmts_decides (cx : ClassContext) (kind : BodyKind) : (ss : List Source.Stmt) →
    Decides True (lowerStmts cx kind ss) fun st => ElaboratesStmts cx kind st ss
  | [] => by
    rw [lowerStmts]
    refine .iff (.pure _) fun _ st result st' => ⟨fun h => ?_, ?_⟩
    · cases h
      exact ⟨rfl, rfl⟩
    · rintro ⟨rfl, rfl⟩
      exact .nil
  | s :: ss => by
    rw [lowerStmts]
    refine .iff (.bind (lowerStmt_decides cx kind s) fun code =>
      .bind ((lowerStmts_decides cx kind ss).given fun _ => trivial) fun codes => .pure _)
      fun _ st result st'' => ⟨fun h => ?_, ?_⟩
    · cases h with
      | cons first rest => exact ⟨_, _, first, _, _, rest, rfl, rfl⟩
    · rintro ⟨code, st', first, codes, _, rest, rfl, rfl⟩
      exact .cons first rest

end

/-! ### Members -/

theorem declareParams_decides (params : List Source.Param) (types : List TypeRef) :
    Decides pre (declareParams params types) fun st _ st' => DeclaresAll params types st st' := by
  induction params generalizing types pre with
  | nil =>
    refine .iff (Decides.pure ()) fun _ st _ st' => ⟨fun declared => ?_, ?_⟩
    · cases declared <;> exact ⟨rfl, rfl⟩
    · rintro ⟨_, rfl⟩
      exact .noParams
  | cons p params ih =>
    cases types with
    | nil =>
      refine .iff (Decides.pure ()) fun _ st _ st' => ⟨fun declared => ?_, ?_⟩
      · cases declared
        exact ⟨rfl, rfl⟩
      · rintro ⟨_, rfl⟩
        exact .noTypes
    | cons t types =>
      rw [declareParams]
      refine .iff (.bind (declare_decides p.name t p.span) fun _ => ih types)
        fun _ st _ st' => ⟨fun declared => ?_, ?_⟩
      · cases declared with
        | cons new rest => exact ⟨_, _, ⟨new, rfl, rfl⟩, rest⟩
      · rintro ⟨_, _, ⟨new, rfl, rfl⟩, rest⟩
        exact .cons new rest

/-- A body without a report has the code that the rules give it. -/
theorem elaboratesBody_of_clean {params : List Source.Param} {types : List TypeRef}
    {statements : List Source.Stmt}
    (clean : (lowerBody do
      declareParams params types
      inScope (lowerStmts cx kind statements)).2.diagnostics = []) :
    ElaboratesBody cx kind params types statements
      (lowerBody do
        declareParams params types
        inScope (lowerStmts cx kind statements)).1
      (lowerBody do
        declareParams params types
        inScope (lowerStmts cx kind statements)).2.nextSlot := by
  have decided : Decides True _ _ := .bind (declareParams_decides params types) fun _ =>
    .inScope ((lowerStmts_decides cx kind statements).given fun _ => trivial)
  obtain ⟨_, st, params_, inner, statements_, closed⟩ := decided.run_iff.2 ⟨rfl, clean⟩
  have next : (lowerBody do
      declareParams params types
      inScope (lowerStmts cx kind statements)).2.nextSlot = inner.closed.nextSlot :=
    congrArg BodyState.nextSlot closed
  rw [next]
  show ElaboratesBody cx kind params types statements _ inner.nextSlot
  exact .body params_ statements_

theorem elaborates_of_clean {m : DeclaredMember} (clean : (compileMember cx m).2 = []) :
    ElaboratesMember cx m (compileMember cx m).1 := by
  cases m with
  | field decl info =>
    simp only [compileMember, compileField] at clean ⊢
    split
    · rename_i bare
      exact .field bare
    · rename_i e init
      rw [init] at clean
      refine .initialized init ?_
      exact (Decides.run_iff (lowerAs_judges e info.type)).2 ⟨rfl, clean⟩ |>.2
  | method decl info => exact .method (elaboratesBody_of_clean (List.append_eq_nil_iff.1 clean).1)
  | constructor decl params =>
    exact .constructor (elaboratesBody_of_clean (List.append_eq_nil_iff.1 clean).2)

end

/-- What has the type of a reported expression has been reported. An expression or a body has a code
by the rules just if its lowering reports nothing, and this is the code then; the constants of an
expression's code are its literals. So a unit that compiles is compiled to the code that the rules
give its members. -/
theorem no_silent_errors :
    (∀ cx kind e st, (lowerExpr cx kind e st).1.2 = .error →
      ∃ d ds, (lowerExpr cx kind e st).2.diagnostics = st.diagnostics ++ d :: ds) ∧
    (∀ cx kind e st lowered,
      Elaborates cx kind st e lowered ↔ lowerExpr cx kind e st = (lowered, st)) ∧
    (∀ cx kind ss st code st', ElaboratesStmts cx kind st ss code st' ↔
      lowerStmts cx kind ss st = (code, st') ∧ st'.diagnostics = st.diagnostics) ∧
    (∀ cx kind e st lowered, Elaborates cx kind st e lowered →
      lowered.1.constants = e.literals.map Source.Literal.constant) ∧
    ∀ table unit code, compileUnit table unit = .ok code → ∃ members,
      List.Forall₂ (ElaboratesMember (contextOf table unit)) (contextOf table unit).members
        members ∧
      code = assemble (contextOf table unit) unit.decl.modifiers.effective members := by
  refine ⟨fun cx kind e st reported => ?_, fun cx kind e st lowered => ?_,
    fun cx kind ss st code st' => (lowerStmts_decides cx kind ss).run_iff,
    fun cx kind e st lowered h => Elaborates.constants e h, fun table unit code compiled => ?_⟩
  · obtain ⟨ds, noted, result⟩ := lowerExpr_judges cx kind e st
    cases ds with
    | cons d ds => exact ⟨d, ds, noted⟩
    | nil => exact absurd reported ((result trivial _ _).2 ⟨rfl, rfl⟩).2.ne_error
  · have decided : (st = st ∧ Elaborates cx kind st e lowered) ↔
        lowerExpr cx kind e st = (lowered, st) ∧ st.diagnostics = st.diagnostics :=
      (lowerExpr_judges cx kind e).run_iff
    simpa using decided
  · have accepted := accepted_of_compileUnit compiled
    refine ⟨_, ?_, accepted.assembled⟩
    rw [List.forall₂_map_right_iff, List.forall₂_same]
    exact fun m member => elaborates_of_clean (accepted.members_clean m member)

end Classwright.Check

namespace Classwright.Sample

open Check

/-- A narrowed constant, a variable without a value, a literal `null` and a conditional without a
value, all of them right. -/
def gauge : String :=
  "class Gauge \x7b byte low = 7; String name; int read(int n) \x7b long sum; sum = n; sum += 1; "
    ++ "if (n < low) throw null; name = \"#\" + n; return n > 0 ? n : low; \x7d "
    ++ "void flip(boolean b) \x7b b ? flip(false) : flip(true); \x7d \x7d"

/-- A sum with an operand that is reported, whose other operand is `null`. -/
def bent : Source.Expr :=
  .binary .add (.unary .not (.literal (.int 1) nowhere) nowhere) (.literal .null nowhere) nowhere

/-- The class has the code that the rules give it. Of the sum one thing is reported, and the `null`
in it alone has a code. -/
theorem gauge_elaborated :
    compileUnit {} (unitOf gauge) = .ok (codeOf {} gauge) ∧
    (∃ members, List.Forall₂ (ElaboratesMember (contextOf {} (unitOf gauge)))
        (contextOf {} (unitOf gauge)).members members ∧
      codeOf {} gauge = assemble (contextOf {} (unitOf gauge)) .package members) ∧
    (lowerExpr (contextOf {} (unitOf gauge)) .constructor bent {}).1.2 = .error ∧
    (∃ d ds, (lowerExpr (contextOf {} (unitOf gauge)) .constructor bent {}).2.diagnostics
      = d :: ds) ∧
    ∃ lowered, Elaborates (contextOf {} (unitOf gauge)) .constructor {} (.literal .null nowhere)
      lowered ∧ lowered.1.constants = [.null] := by
  have compiles : (compileSource {} gauge).toOption.isSome = true ∧
      (unitOf gauge).decl.modifiers.effective = .package := by decide +kernel
  have compiled := unit_compiles compiles.1
  have null : Elaborates (contextOf {} (unitOf gauge)) .constructor {}
      (.literal .null nowhere) (lowerLiteral .null) := .literal
  obtain ⟨reported, _, _, constants, members⟩ := no_silent_errors
  refine ⟨compiled, ?_, rfl, reported _ _ _ {} rfl, _, null, constants _ _ _ _ _ null⟩
  rw [← compiles.2]
  exact members _ _ _ compiled

end Classwright.Sample
