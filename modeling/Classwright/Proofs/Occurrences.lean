import Classwright.Proofs.Reporting
import Classwright.Proofs.World

/-!
# Statements, expressions and calls of a class

What an expression means depends on the kind of code it stands in and on the variables in scope
there; a `Site` is a statement or an expression with both. The sites of a class are all that its
bodies and the initial values of its fields contain. Among them are the calls, each with what the
checker goes by when it chooses a method.
-/

namespace Classwright

namespace Source

mutual

/-- The expressions inside an expression that are evaluated with it. -/
def Expr.inner : Expr → List Expr
  | .literal _ _ | .name _ _ | .this _ | .access _ _ _ => []
  | .call target _ args _ => target :: target.inner ++ Expr.allParts args
  | .ownCall _ args _ | .superCall _ args _ => Expr.allParts args
  | .unary _ e _ | .cast _ e _ | .assign _ _ e _ => e :: e.inner
  | .binary _ l r _ | .logical _ l r _ => l :: l.inner ++ r :: r.inner
  | .conditional c t e _ => c :: c.inner ++ t :: t.inner ++ e :: e.inner

def Expr.allParts : List Expr → List Expr
  | [] => []
  | e :: es => e :: e.inner ++ Expr.allParts es

end

/-- An expression and those inside it. -/
def Expr.parts (e : Expr) : List Expr := e :: e.inner

/-- The expressions right below an expression. -/
def Expr.children : Expr → List Expr
  | .literal _ _ | .name _ _ | .this _ | .access _ _ _ => []
  | .call target _ args _ => target :: args
  | .ownCall _ args _ | .superCall _ args _ => args
  | .unary _ e _ | .cast _ e _ | .assign _ _ e _ => [e]
  | .binary _ l r _ | .logical _ l r _ => [l, r]
  | .conditional c t e _ => [c, t, e]

/-- The expressions of a statement, without those of the statements inside it. -/
def Stmt.exprs : Stmt → List Expr
  | .block _ _ | .empty _ => []
  | .expr e | .throw e _ => [e]
  | .declare _ _ init _ => init.toList
  | .ret value _ => value.toList
  | .ifThen c _ _ | .ifElse c _ _ _ | .loop c _ _ => [c]

end Source

namespace Check

/-- Where a statement or an expression stands: in which kind of code and in which scope. -/
structure Site (α : Type) where
  kind : BodyKind
  scope : BodyState
  node : α

mutual

/-- The sites inside a statement that begins in this scope. -/
def innerSites (cx : ClassContext) (kind : BodyKind) :
    Source.Stmt → BodyState → List (Site Source.Stmt)
  | .block body _, st => allSites cx kind body st.opened
  | .ifThen _ t _, st | .loop _ t _, st => ⟨kind, st.opened, t⟩ :: innerSites cx kind t st.opened
  | .ifElse _ t e _, st =>
    let behind := (lowerStmt cx kind t st.opened).2.closed.opened
    ⟨kind, st.opened, t⟩ :: innerSites cx kind t st.opened
      ++ ⟨kind, behind, e⟩ :: innerSites cx kind e behind
  | _, _ => []

/-- The sites of statements one behind the other, each in the scope that those in front of it
leave. -/
def allSites (cx : ClassContext) (kind : BodyKind) :
    List Source.Stmt → BodyState → List (Site Source.Stmt)
  | [], _ => []
  | s :: ss, st =>
    ⟨kind, st, s⟩ :: innerSites cx kind s st ++ allSites cx kind ss (lowerStmt cx kind s st).2

end

/-- The site of a statement and those inside it. -/
def sitesOf (cx : ClassContext) (kind : BodyKind) (s : Source.Stmt) (st : BodyState) :
    List (Site Source.Stmt) :=
  ⟨kind, st, s⟩ :: innerSites cx kind s st

/-- The sites of the expressions of a statement. -/
def Site.exprs (site : Site Source.Stmt) : List (Site Source.Expr) :=
  (site.node.exprs.flatMap Source.Expr.parts).map fun e => ⟨site.kind, site.scope, e⟩

/-- The scope of a body behind its parameters. -/
def bodyScope (params : List Source.Param) (types : List TypeRef) : BodyState :=
  (declareParams params types {}).2.opened

namespace DeclaredMember

def stmtSites (cx : ClassContext) : DeclaredMember → List (Site Source.Stmt)
  | field _ _ => []
  | method decl info => allSites cx (.method info.method.returnType) decl.body.statements
      (bodyScope decl.params info.method.params)
  | constructor decl types =>
    allSites cx .constructor decl.body.statements (bodyScope decl.params types)

/-- The initial value of a field has no variables in scope. -/
def initSites : DeclaredMember → List (Site Source.Expr)
  | field decl info => (decl.init.toList.flatMap Source.Expr.parts).map fun e =>
      ⟨if info.isStatic then .staticInit else .instanceInit, {}, e⟩
  | _ => []

def exprSites (cx : ClassContext) (m : DeclaredMember) : List (Site Source.Expr) :=
  m.initSites ++ (m.stmtSites cx).flatMap Site.exprs

end DeclaredMember

/-- A call of a method. -/
structure Call where
  /-- The type that the method is called on; none for a call on `super`. -/
  receiver : Option String
  name : String
  args : List Argument

/-- The call that an expression is, on a receiver whose type has a name. -/
def Site.call? (cx : ClassContext) (site : Site Source.Expr) : Option Call :=
  let lowered es := (lowerArgs cx site.kind es site.scope).1
  match site.node with
  | .call target name es _ =>
    (lowerExpr cx site.kind target site.scope).1.2.named?.map fun type =>
      ⟨some type, name, lowered es⟩
  | .ownCall name es _ => some ⟨some cx.name, name, lowered es⟩
  | .superCall name es _ => some ⟨none, name, lowered es⟩
  | _ => none

end Check

namespace World

open Check

variable (W : World) (n : Nat)

/-- The statements of the class of this number. -/
def statements : List (Site Source.Stmt) :=
  (W.context n).members.flatMap (·.stmtSites (W.context n))

/-- The expressions of the class of this number. -/
def expressions : List (Site Source.Expr) :=
  (W.context n).members.flatMap (·.exprSites (W.context n))

/-- The calls of the class of this number. -/
def calls : List Call := (W.expressions n).filterMap (·.call? (W.context n))

end World

/-! ### Parts of expressions -/

namespace Source

theorem Expr.mem_parts_self (e : Expr) : e ∈ e.parts := List.mem_cons_self

theorem Expr.mem_allParts {p : Expr} {es : List Expr} :
    p ∈ Expr.allParts es ↔ ∃ e ∈ es, p ∈ e.parts := by
  induction es with
  | nil => simp [Expr.allParts]
  | cons e es ih =>
    simp only [Expr.allParts, List.mem_append, ih, List.mem_cons, exists_eq_or_imp, Expr.parts]

theorem Expr.inner_eq (e : Expr) : e.inner = Expr.allParts e.children := by
  cases e <;> simp [Expr.inner, Expr.children, Expr.allParts]

/-- The parts of an expression are itself and the parts of those right below it. -/
theorem Expr.mem_parts {p e : Expr} : p ∈ e.parts ↔ p = e ∨ ∃ c ∈ e.children, p ∈ c.parts := by
  rw [Expr.parts, List.mem_cons, Expr.inner_eq, Expr.mem_allParts]

theorem Expr.parts_of_child {c e : Expr} (child : c ∈ e.children) : c.parts ⊆ e.parts :=
  fun _ part => Expr.mem_parts.2 (.inr ⟨c, child, part⟩)

theorem Expr.sizeOf_lt_of_child {c e : Expr} (child : c ∈ e.children) :
    sizeOf c < sizeOf e := by
  have arg : ∀ args : List Expr, c ∈ args → sizeOf c < sizeOf args := fun _ member =>
    List.sizeOf_lt_of_mem member
  cases e with
  | literal | name | this | access => cases child
  | call target name args span =>
    rcases List.mem_cons.1 child with rfl | member
    · simp only [Expr.call.sizeOf_spec]
      omega
    · have := arg args member
      simp only [Expr.call.sizeOf_spec]
      omega
  | ownCall name args span =>
    have := arg args child
    simp only [Expr.ownCall.sizeOf_spec]
    omega
  | superCall name args span =>
    have := arg args child
    simp only [Expr.superCall.sizeOf_spec]
    omega
  | unary | cast | assign =>
    rw [List.mem_singleton.1 child]
    simp
    omega
  | binary | logical =>
    simp only [Expr.children, List.mem_cons, List.not_mem_nil, or_false] at child
    rcases child with rfl | rfl
    all_goals
      simp
      omega
  | conditional =>
    simp only [Expr.children, List.mem_cons, List.not_mem_nil, or_false] at child
    rcases child with rfl | rfl | rfl
    all_goals
      simp
      omega

/-- What holds right below each expression that it holds of holds of all its parts. -/
theorem Expr.forall_parts {P : Expr → Prop} (below : ∀ e, P e → ∀ c ∈ e.children, P c) (e : Expr)
    (h : P e) : ∀ p ∈ e.parts, P p := by
  intro p part
  rcases Expr.mem_parts.1 part with rfl | ⟨c, child, part⟩
  · exact h
  · have := Expr.sizeOf_lt_of_child child
    exact forall_parts below c (below e h c child) p part
termination_by sizeOf e

theorem Expr.parts_trans {p e : Expr} (part : p ∈ e.parts) : p.parts ⊆ e.parts :=
  Expr.forall_parts (P := fun p => p.parts ⊆ e.parts)
    (fun _ within _ child => List.Subset.trans (Expr.parts_of_child child) within) e
    (List.Subset.refl _) p part

end Source

/-! ### Sites inside of sites -/

namespace Check

variable (cx : ClassContext) (kind : BodyKind)

mutual

theorem innerSites_trans : (s : Source.Stmt) → (st : BodyState) →
    ∀ site ∈ innerSites cx kind s st,
      sitesOf cx site.kind site.node site.scope ⊆ innerSites cx kind s st
  | .block body _, st => allSites_trans body st.opened
  | .ifThen _ t _, st | .loop _ t _, st => sitesOf_trans t st.opened
  | .ifElse _ t e _, st => by
    intro site member
    rcases List.mem_append.1 member with inThen | inElse
    · exact fun _ inside => List.mem_append_left _ (sitesOf_trans t _ site inThen inside)
    · exact fun _ inside => List.mem_append_right _ (sitesOf_trans e _ site inElse inside)
  | .empty _, _ | .expr _, _ | .declare _ _ _ _, _ | .ret _ _, _ | .throw _ _, _ =>
    fun _ member => nomatch member

theorem sitesOf_trans (s : Source.Stmt) (st : BodyState) : ∀ site ∈ sitesOf cx kind s st,
    sitesOf cx site.kind site.node site.scope ⊆ sitesOf cx kind s st := by
  intro site member
  rcases List.mem_cons.1 member with rfl | inside
  · exact fun _ inside => inside
  · exact fun _ deeper => List.mem_cons_of_mem _ (innerSites_trans s st site inside deeper)

/-- What stands inside a site of a body stands in the body. -/
theorem allSites_trans : (ss : List Source.Stmt) → (st : BodyState) →
    ∀ site ∈ allSites cx kind ss st,
      sitesOf cx site.kind site.node site.scope ⊆ allSites cx kind ss st
  | [], _ => fun _ member => nomatch member
  | s :: ss, st => by
    intro site member
    rcases List.mem_append.1 member with first | rest
    · exact fun _ inside => List.mem_append_left _ (sitesOf_trans s st site first inside)
    · exact fun _ inside => List.mem_append_right _ (allSites_trans ss _ site rest inside)

end

end Check

end Classwright
