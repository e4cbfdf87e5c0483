import Classwright.Proofs.Accepting
import Classwright.Proofs.Members

/-!
# What stands in a class that compiles

All statements and expressions of a class that compiles have a code where they stand, and the
variables in scope there have slots of their own.
-/

namespace Classwright

open Check Check.Lower

/-! ### Expressions -/

namespace Check

variable {cx : ClassContext} {kind : BodyKind} {st : BodyState}

theorem ElaboratesAll.of_mem {es : List Source.Expr} {args : List Argument}
    (h : ElaboratesAll cx kind st es args) {e : Source.Expr} (member : e ∈ es) :
    ∃ lowered, Elaborates cx kind st e lowered := by
  induction es generalizing args with
  | nil => cases member
  | cons e' es ih =>
    cases h with
    | cons first rest =>
      rcases List.mem_cons.1 member with rfl | member
      · exact ⟨_, first⟩
      · exact ih rest member

/-- What stands right below an expression that has a code has one. -/
theorem Elaborates.child {e : Source.Expr} {lowered : Lowered}
    (h : Elaborates cx kind st e lowered) :
    ∀ c ∈ e.children, ∃ lowered, Elaborates cx kind st c lowered := by
  intro c child
  cases h with
  | literal | name | this | access => cases child
  | call target_ _ args_ =>
    rcases List.mem_cons.1 child with rfl | member
    · exact ⟨_, target_⟩
    · exact args_.of_mem member
  | ownCall _ args_ => exact args_.of_mem child
  | superCall _ args_ => exact args_.of_mem child
  | unary operand_ | cast _ operand_ | assign _ operand_ =>
    rw [List.mem_singleton.1 child]
    exact ⟨_, operand_⟩
  | binary left_ _ right_ | and left_ right_ | or left_ right_ =>
    rcases List.mem_pair.1 child with rfl | rfl
    · exact ⟨_, left_⟩
    · exact ⟨_, right_⟩
  | conditional condition_ then_ else_ =>
    simp only [Source.Expr.children, List.mem_cons, List.not_mem_nil, or_false] at child
    rcases child with rfl | rfl | rfl
    · exact ⟨_, condition_⟩
    · exact ⟨_, then_⟩
    · exact ⟨_, else_⟩

theorem Elaborates.parts {e : Source.Expr} {lowered : Lowered}
    (h : Elaborates cx kind st e lowered) :
    ∀ p ∈ e.parts, ∃ lowered, Elaborates cx kind st p lowered :=
  Source.Expr.forall_parts (P := fun p => ∃ lowered, Elaborates cx kind st p lowered)
    (fun _ ⟨_, h⟩ => h.child) e ⟨_, h⟩

/-- The expressions of a statement that has a code have one. -/
theorem ElaboratesStmt.exprs {s : Source.Stmt} {code : List Code.Stmt} {st' : BodyState}
    (h : ElaboratesStmt cx kind st s code st') :
    ∀ e ∈ s.exprs, ∃ lowered, Elaborates cx kind st e lowered := by
  intro e direct
  cases h with
  | block | empty => cases direct
  | expr e_ | throw e_ =>
    rw [List.mem_singleton.1 direct]
    exact ⟨_, e_⟩
  | declare _ init_ =>
    cases init_ with
    | default => cases direct
    | value value_ =>
      obtain ⟨_, e_, _⟩ := value_
      rw [List.mem_singleton.1 direct]
      exact ⟨_, e_⟩
  | ret returned =>
    cases returned with
    | nothing => cases direct
    | value _ _ value_ =>
      obtain ⟨_, e_, _⟩ := value_
      rw [List.mem_singleton.1 direct]
      exact ⟨_, e_⟩
  | ifThen condition_ | ifElse condition_ | loop condition_ =>
    rw [List.mem_singleton.1 direct]
    exact ⟨_, condition_⟩

end Check

/-! ### Sites -/

namespace World

variable {W : World} {n : Nat} {d : LoadedClass}

/-- Nothing has been reported, and the variables in scope have slots of their own. -/
structure Ready (st : BodyState) : Prop where
  slots : st.Scoped
  clean : st.diagnostics = []

theorem Ready.opened {st : BodyState} (ready : Ready st) : Ready st.opened :=
  ⟨⟨ready.slots.novoid, ready.slots.inside, ready.slots.distinct⟩, ready.clean⟩

/-- The statement has a code where it stands. -/
def Stands (W : World) (n : Nat) (site : Site Source.Stmt) : Prop :=
  Ready site.scope ∧
    ∃ code st', ElaboratesStmt (W.context n) site.kind site.scope site.node code st'

section

variable (valid : W.Valid) (hd : W.classes n = some d) (kind : BodyKind)

include valid hd

theorem Ready.behind {s : Source.Stmt} {st st' : BodyState} {code : List Code.Stmt}
    (ready : Ready st) (h : ElaboratesStmt (W.context n) kind st s code st') :
    Ready (lowerStmt (W.context n) kind s st).2 := by
  obtain ⟨ran, silent⟩ := (lowerStmt_decides (W.context n) kind s).run_iff.1 h
  have clean : (lowerStmt (W.context n) kind s st).2.diagnostics = [] := by
    rw [ran, silent, ready.clean]
  have lowers := lowerStmt_lowers valid hd (fieldsPlaced valid n) kind s st clean
  exact ⟨(lowers.2 ready.slots).1, clean⟩

theorem Ready.behindScope {s : Source.Stmt} {st st' : BodyState} {code : List Code.Stmt}
    (ready : Ready st) (h : ElaboratesStmt (W.context n) kind st.opened s code st') :
    Ready (lowerStmt (W.context n) kind s st.opened).2.closed := by
  have clean := (ready.opened.behind valid hd kind h).clean
  have lowers := (lowerStmt_lowers valid hd (fieldsPlaced valid n) kind s).inScope st clean
  exact ⟨(lowers.2 ready.slots).1, clean⟩

mutual

/-- What stands inside a statement that has a code has one. -/
theorem inner_stand : (s : Source.Stmt) → {st st' : BodyState} → {code : List Code.Stmt} →
    Ready st → ElaboratesStmt (W.context n) kind st s code st' →
    ∀ site ∈ innerSites (W.context n) kind s st, W.Stands n site
  | .block body _, _, _, _, ready, h => by
    cases h with
    | block body_ => exact all_stand body ready.opened body_
  | .ifThen _ t _, _, _, _, ready, h => by
    cases h with
    | ifThen _ then_ =>
      have inside := inner_stand t ready.opened then_
      exact List.forall_mem_cons.2 ⟨⟨ready.opened, _, _, then_⟩, inside⟩
  | .ifElse _ t e _, _, _, _, ready, h => by
    cases h with
    | ifElse _ then_ else_ =>
      have behind := ready.behindScope valid hd kind then_
      have ran := ((lowerStmt_decides (W.context n) kind t).run_iff.1 then_).1
      rw [ran] at behind
      have inThen := inner_stand t ready.opened then_
      have inElse := inner_stand e behind.opened else_
      rw [innerSites, ran]
      exact List.forall_mem_append.2
        ⟨List.forall_mem_cons.2 ⟨⟨ready.opened, _, _, then_⟩, inThen⟩,
          List.forall_mem_cons.2 ⟨⟨behind.opened, _, _, else_⟩, inElse⟩⟩
  | .loop _ b _, _, _, _, ready, h => by
    cases h with
    | loop _ body_ =>
      have inside := inner_stand b ready.opened body_
      exact List.forall_mem_cons.2 ⟨⟨ready.opened, _, _, body_⟩, inside⟩
  | .empty _, _, _, _, _, _ | .expr _, _, _, _, _, _ | .declare _ _ _ _, _, _, _, _, _
  | .ret _ _, _, _, _, _, _ | .throw _ _, _, _, _, _, _ => fun _ member => nomatch member

theorem all_stand : (ss : List Source.Stmt) → {st st' : BodyState} → {code : List Code.Stmt} →
    Ready st → ElaboratesStmts (W.context n) kind st ss code st' →
    ∀ site ∈ allSites (W.context n) kind ss st, W.Stands n site
  | [], _, _, _, _, _ => fun _ member => nomatch member
  | s :: ss, _, _, _, ready, h => by
    cases h with
    | cons first rest =>
      have behind := ready.behind valid hd kind first
      have ran := ((lowerStmt_decides (W.context n) kind s).run_iff.1 first).1
      rw [ran] at behind
      have inside := inner_stand s ready first
      have others := all_stand ss behind rest
      rw [allSites, ran]
      exact List.forall_mem_append.2
        ⟨List.forall_mem_cons.2 ⟨⟨ready, _, _, first⟩, inside⟩, others⟩

end

omit kind

/-- The variables that a body begins with are its parameters. -/
theorem ready_bodyScope {m : DeclaredMember} (member : m ∈ (W.context n).members) :
    Ready (bodyScope m.bodyParams.1 m.bodyParams.2) := by
  have clean := declareParams_clean valid hd member
  obtain ⟨_, declared⟩ := declareParams_checks _ _ {} clean
  exact Ready.opened ⟨(declared (bodyParams_novoid member) scoped_start).1, clean⟩

/-- All statements of a class have a code where they stand. -/
theorem statements_stand : ∀ site ∈ W.statements n, W.Stands n site := by
  intro site inside
  obtain ⟨m, member, inside⟩ := List.mem_flatMap.1 inside
  have ready := ready_bodyScope valid hd member
  have compiled := elaborates_of_clean ((W.accepted valid.toLinked hd).members_clean m member)
  have body : ∀ {kind params types statements code locals},
      ElaboratesBody (W.context n) kind params types statements code locals →
      Ready (bodyScope params types) →
      ∀ site ∈ allSites (W.context n) kind statements (bodyScope params types),
        W.Stands n site := by
    intro kind params types statements _ _ h ready
    cases h with
    | @body st _ _ params_ statements_ =>
      have ran := ((declareParams_decides params types).run_iff (a := ()).1 params_).1
      have same : bodyScope params types = st.opened := by rw [bodyScope, ran]
      rw [same] at ready ⊢
      exact all_stand valid hd kind statements ready statements_
  cases m with
  | field decl info => cases inside
  | method decl info =>
    cases compiled with
    | method body_ => exact body body_ ready site inside
  | constructor decl types =>
    cases compiled with
    | constructor body_ => exact body body_ ready site inside

/-- All expressions of a class have a code where they stand. -/
theorem expressions_stand : ∀ site ∈ W.expressions n, Ready site.scope ∧
    ∃ lowered, Elaborates (W.context n) site.kind site.scope site.node lowered := by
  intro site inside
  obtain ⟨m, member, inside⟩ := List.mem_flatMap.1 inside
  rcases List.mem_append.1 inside with initial | inBody
  · cases m with
    | method decl info => cases initial
    | constructor decl types => cases initial
    | field decl info =>
      have compiled := elaborates_of_clean ((W.accepted valid.toLinked hd).members_clean _ member)
      obtain ⟨p, part, rfl⟩ := List.mem_map.1 initial
      obtain ⟨e, init, part⟩ := List.mem_flatMap.1 part
      rw [Option.mem_toList] at init
      refine ⟨⟨scoped_start, rfl⟩, ?_⟩
      generalize (compileMember _ _).1 = made at compiled
      cases compiled with
      | field bare =>
        rw [bare] at init
        cases init
      | initialized init' value =>
        obtain ⟨_, e_, _⟩ := value
        obtain rfl := Option.some.inj (init'.symm.trans init)
        exact e_.parts p part
  · obtain ⟨stmt, standing, inside⟩ := List.mem_flatMap.1 inBody
    obtain ⟨ready, code, st', h⟩ := statements_stand valid hd stmt
      (List.mem_flatMap.2 ⟨m, member, standing⟩)
    obtain ⟨p, part, rfl⟩ := List.mem_map.1 inside
    obtain ⟨e, direct, part⟩ := List.mem_flatMap.1 part
    obtain ⟨_, e_⟩ := h.exprs e direct
    exact ⟨ready, e_.parts p part⟩

end

end World

end Classwright
