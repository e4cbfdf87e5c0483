import Classwright.Source.Tree

/-!
# Trees without places

Two sources that differ in their layout have trees that differ in the stretches of source they
carry. What is left of a tree without them is `bare`.
-/

namespace Classwright

/-- The stretch that stands for all others. -/
def Span.blank : Span := ⟨0, 0, 0, 0⟩

namespace Source

def TypeName.bare (t : TypeName) : TypeName := ⟨t.name, t.dims, .blank⟩

mutual

def Expr.bare : Expr → Expr
  | .literal v _ => .literal v .blank
  | .name n _ => .name n .blank
  | .this _ => .this .blank
  | .access t n _ => .access t.bare n .blank
  | .call t n args _ => .call t.bare n (Expr.bareAll args) .blank
  | .ownCall n args _ => .ownCall n (Expr.bareAll args) .blank
  | .superCall n args _ => .superCall n (Expr.bareAll args) .blank
  | .unary op e _ => .unary op e.bare .blank
  | .binary op l r _ => .binary op l.bare r.bare .blank
  | .logical op l r _ => .logical op l.bare r.bare .blank
  | .assign op t v _ => .assign op t.bare v.bare .blank
  | .conditional c t e _ => .conditional c.bare t.bare e.bare .blank
  | .cast t e _ => .cast t.bare e.bare .blank

def Expr.bareAll : List Expr → List Expr
  | [] => []
  | e :: es => e.bare :: Expr.bareAll es

end

namespace Expr

@[simp] theorem bare_withSpan (s : Span) (e : Expr) : (e.withSpan s).bare = e.bare := by
  cases e <;> simp only [withSpan, bare]

@[simp] theorem isAssignable_bare (e : Expr) : e.bare.isAssignable = e.isAssignable := by
  cases e with
  | access target name span => cases target <;> rfl
  | _ => rfl

end Expr

mutual

def Stmt.bare : Stmt → Stmt
  | .block body _ => .block (Stmt.bareAll body) .blank
  | .declare t n init _ => .declare t.bare n (init.map Expr.bare) .blank
  | .ret v _ => .ret (v.map Expr.bare) .blank
  | .ifThen c t _ => .ifThen c.bare t.bare .blank
  | .ifElse c t e _ => .ifElse c.bare t.bare e.bare .blank
  | .loop c b _ => .loop c.bare b.bare .blank
  | .throw v _ => .throw v.bare .blank
  | .expr v => .expr v.bare
  | .empty _ => .empty .blank

def Stmt.bareAll : List Stmt → List Stmt
  | [] => []
  | s :: ss => s.bare :: Stmt.bareAll ss

end

def Block.bare (b : Block) : Block := ⟨Stmt.bareAll b.statements, .blank⟩

def FieldDecl.bare (d : FieldDecl) : FieldDecl :=
  { d with type := d.type.bare, init := d.init.map Expr.bare, span := .blank }

def Param.bare (p : Param) : Param := ⟨p.type.bare, p.name, .blank⟩

def MethodDecl.bare (d : MethodDecl) : MethodDecl :=
  { d with
    returnType := d.returnType.map TypeName.bare
    params := d.params.map Param.bare
    throws := d.throws.map TypeName.bare
    body := d.body.bare
    span := .blank }

def ConstructorDecl.bare (d : ConstructorDecl) : ConstructorDecl :=
  { d with params := d.params.map Param.bare, body := d.body.bare, span := .blank }

def Member.bare : Member → Member
  | .field d => .field d.bare
  | .method d => .method d.bare
  | .constructor d => .constructor d.bare

def Import.bare (i : Import) : Import := ⟨i.path, .blank⟩

def ClassDecl.bare (d : ClassDecl) : ClassDecl :=
  { d with
    superclass := d.superclass.map TypeName.bare
    interfaces := d.interfaces.map TypeName.bare
    members := d.members.map Member.bare
    span := .blank }

def CompilationUnit.bare (u : CompilationUnit) : CompilationUnit :=
  ⟨u.imports.map Import.bare, u.decl.bare⟩

end Source

end Classwright
