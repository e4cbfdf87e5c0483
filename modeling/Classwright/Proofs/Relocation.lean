import Classwright.Proofs.Places
import Classwright.Source.Declaration

/-!
# Trees on other stretches of source

`relocate` puts what was read from one source where it stands in another one. Trees that stand in
two sources alike are relocations of each other; what a tree is made of apart from its places does
not change.
-/

namespace Classwright

namespace Span

/-- What covers two stretches covers them in the other source, too. -/
def Carries (f : Span → Span) : Prop := ∀ s t : Span, f (s.through t) = (f s).through (f t)

theorem carries_id : Carries id := fun _ _ => rfl

end Span

def Lexeme.relocate (f : Span → Span) (l : Lexeme) : Lexeme := ⟨l.token, f l.span⟩

@[simp] theorem Lexeme.relocate_token (f : Span → Span) (l : Lexeme) :
    (l.relocate f).token = l.token := rfl

@[simp] theorem Lexeme.relocate_span (f : Span → Span) (l : Lexeme) :
    (l.relocate f).span = f l.span := rfl

@[simp] theorem Lexeme.relocate_id (l : Lexeme) : l.relocate id = l := rfl

namespace Source

variable (f : Span → Span)

def SyntaxError.relocate (e : SyntaxError) : SyntaxError := { e with span := f e.span }

@[simp] theorem SyntaxError.relocate_id (e : SyntaxError) : e.relocate id = e := rfl

/-! ### Expressions -/

def TypeName.relocate (t : TypeName) : TypeName := { t with span := f t.span }

mutual

def Expr.relocate : Expr → Expr
  | .literal v s => .literal v (f s)
  | .name n s => .name n (f s)
  | .this s => .this (f s)
  | .access t n s => .access (Expr.relocate t) n (f s)
  | .call t n args s => .call (Expr.relocate t) n (Expr.relocateAll args) (f s)
  | .ownCall n args s => .ownCall n (Expr.relocateAll args) (f s)
  | .superCall n args s => .superCall n (Expr.relocateAll args) (f s)
  | .unary op e s => .unary op (Expr.relocate e) (f s)
  | .binary op l r s => .binary op (Expr.relocate l) (Expr.relocate r) (f s)
  | .logical op l r s => .logical op (Expr.relocate l) (Expr.relocate r) (f s)
  | .assign op t v s => .assign op (Expr.relocate t) (Expr.relocate v) (f s)
  | .conditional c t e s =>
    .conditional (Expr.relocate c) (Expr.relocate t) (Expr.relocate e) (f s)
  | .cast t e s => .cast (t.relocate f) (Expr.relocate e) (f s)

def Expr.relocateAll : List Expr → List Expr
  | [] => []
  | e :: es => Expr.relocate e :: Expr.relocateAll es

end

namespace Expr

variable {f}

@[simp] theorem relocate_span (e : Expr) : (e.relocate f).span = f e.span := by
  cases e <;> simp only [relocate, span]

@[simp] theorem relocate_withSpan (s : Span) (e : Expr) :
    (e.withSpan s).relocate f = (e.relocate f).withSpan (f s) := by
  cases e <;> simp only [relocate, withSpan]

@[simp] theorem isAssignable_relocate (e : Expr) :
    (e.relocate f).isAssignable = e.isAssignable := by
  cases e with
  | access target name span => cases target <;> rfl
  | _ => rfl

theorem relocate_apply (carries : Span.Carries f) (o : InfixOp) (l r : Expr) :
    (o.apply l r).relocate f = o.apply (l.relocate f) (r.relocate f) := by
  cases o <;> simp only [InfixOp.apply, relocate, relocate_span, carries l.span r.span]

mutual

@[simp] theorem relocate_id : (e : Expr) → e.relocate id = e
  | .literal .. | .name .. | .this .. => rfl
  | .access t _ _ => by rw [relocate, relocate_id t]; rfl
  | .call t _ args _ => by rw [relocate, relocate_id t, relocateAll_id args]; rfl
  | .ownCall _ args _ | .superCall _ args _ => by rw [relocate, relocateAll_id args]; rfl
  | .unary _ e _ => by rw [relocate, relocate_id e]; rfl
  | .binary _ l r _ | .logical _ l r _ | .assign _ l r _ => by
    rw [relocate, relocate_id l, relocate_id r]
    rfl
  | .conditional c t e _ => by rw [relocate, relocate_id c, relocate_id t, relocate_id e]; rfl
  | .cast _ e _ => by rw [relocate, relocate_id e]; rfl

@[simp] theorem relocateAll_id : (es : List Expr) → relocateAll id es = es
  | [] => rfl
  | e :: es => by rw [relocateAll, relocate_id e, relocateAll_id es]

end

end Expr

/-! ### Statements -/

mutual

def Stmt.relocate : Stmt → Stmt
  | .block body s => .block (Stmt.relocateAll body) (f s)
  | .declare t n init s => .declare (t.relocate f) n (init.map (Expr.relocate f)) (f s)
  | .ret v s => .ret (v.map (Expr.relocate f)) (f s)
  | .ifThen c t s => .ifThen (c.relocate f) (Stmt.relocate t) (f s)
  | .ifElse c t e s => .ifElse (c.relocate f) (Stmt.relocate t) (Stmt.relocate e) (f s)
  | .loop c b s => .loop (c.relocate f) (Stmt.relocate b) (f s)
  | .throw v s => .throw (v.relocate f) (f s)
  | .expr v => .expr (v.relocate f)
  | .empty s => .empty (f s)

def Stmt.relocateAll : List Stmt → List Stmt
  | [] => []
  | s :: ss => Stmt.relocate s :: Stmt.relocateAll ss

end

theorem map_relocate_id (init : Option Expr) : init.map (Expr.relocate id) = init := by
  cases init <;> simp

mutual

@[simp] theorem Stmt.relocate_id : (s : Stmt) → s.relocate id = s
  | .expr e => by rw [Stmt.relocate, e.relocate_id]
  | .empty _ => rfl
  | .throw e _ => by rw [Stmt.relocate, e.relocate_id]; rfl
  | .declare _ _ init _ | .ret init _ => by rw [Stmt.relocate, map_relocate_id init]; rfl
  | .block body _ => by rw [Stmt.relocate, Stmt.relocateAll_id body]; rfl
  | .ifThen c t _ | .loop c t _ => by rw [Stmt.relocate, c.relocate_id, t.relocate_id]; rfl
  | .ifElse c t e _ => by
    rw [Stmt.relocate, c.relocate_id, t.relocate_id, e.relocate_id]
    rfl

@[simp] theorem Stmt.relocateAll_id : (ss : List Stmt) → Stmt.relocateAll id ss = ss
  | [] => rfl
  | s :: ss => by rw [Stmt.relocateAll, s.relocate_id, Stmt.relocateAll_id ss]

end

def Block.relocate (b : Block) : Block := ⟨Stmt.relocateAll f b.statements, f b.span⟩

/-! ### Declarations -/

def FieldDecl.relocate (d : FieldDecl) : FieldDecl :=
  { d with type := d.type.relocate f, init := d.init.map (Expr.relocate f), span := f d.span }

def Param.relocate (p : Param) : Param := { p with type := p.type.relocate f, span := f p.span }

def MethodDecl.relocate (d : MethodDecl) : MethodDecl :=
  { d with
    returnType := d.returnType.map (TypeName.relocate f)
    params := d.params.map (Param.relocate f)
    throws := d.throws.map (TypeName.relocate f)
    body := d.body.relocate f
    span := f d.span }

def ConstructorDecl.relocate (d : ConstructorDecl) : ConstructorDecl :=
  { d with
    params := d.params.map (Param.relocate f), body := d.body.relocate f, span := f d.span }

def Member.relocate : Member → Member
  | .field d => .field (d.relocate f)
  | .method d => .method (d.relocate f)
  | .constructor d => .constructor (d.relocate f)

def Import.relocate (i : Import) : Import := { i with span := f i.span }

def Cursor.Header.relocate (h : Cursor.Header) : Cursor.Header :=
  { h with
    superclass := h.superclass.map (TypeName.relocate f)
    interfaces := h.interfaces.map (TypeName.relocate f) }

def ClassDecl.relocate (d : ClassDecl) : ClassDecl :=
  { d with
    superclass := d.superclass.map (TypeName.relocate f)
    interfaces := d.interfaces.map (TypeName.relocate f)
    members := d.members.map (Member.relocate f)
    span := f d.span }

def CompilationUnit.relocate (u : CompilationUnit) : CompilationUnit :=
  ⟨u.imports.map (Import.relocate f), u.decl.relocate f⟩

@[simp] theorem Member.relocate_id (m : Member) : m.relocate id = m := by
  have types : TypeName.relocate id = id := rfl
  have params : Param.relocate id = id := rfl
  cases m <;>
    simp [relocate, FieldDecl.relocate, MethodDecl.relocate, ConstructorDecl.relocate,
      Block.relocate, map_relocate_id, types, params]

end Source

end Classwright
