import Classwright.Operator
import Classwright.Number.Binary
import Classwright.Source.Span
import Classwright.Type.Descriptor

/-!
# Syntax trees

One source unit as it was written. Every node keeps the stretch of source it came from.
-/

namespace Classwright.Source

/-- A type as written: a dotted name or primitive keyword, and its array dimensions. -/
structure TypeName where
  name : String
  dims : Nat
  span : Span
deriving DecidableEq

inductive Literal
  | int (value : Int32)
  | long (value : Int64)
  | float (value : Binary32)
  | double (value : Binary64)
  | char (value : Char)
  | string (value : String)
  | bool (value : Bool)
  | null
deriving DecidableEq

inductive Expr
  | literal (value : Literal) (span : Span)
  | name (name : String) (span : Span)
  | this (span : Span)
  | access (target : Expr) (name : String) (span : Span)
  | call (target : Expr) (name : String) (args : List Expr) (span : Span)
  | ownCall (name : String) (args : List Expr) (span : Span)
  | superCall (name : String) (args : List Expr) (span : Span)
  | unary (op : SignOp) (operand : Expr) (span : Span)
  | binary (op : BinaryOp) (left right : Expr) (span : Span)
  | logical (op : LogicalOp) (left right : Expr) (span : Span)
  | assign (op : Option BinaryOp) (target value : Expr) (span : Span)
  | conditional (condition thenExpr elseExpr : Expr) (span : Span)
  | cast (type : TypeName) (operand : Expr) (span : Span)

namespace Expr

def span : Expr → Span
  | literal _ s | name _ s | this s | access _ _ s | call _ _ _ s | ownCall _ _ s | superCall _ _ s
  | unary _ _ s | binary _ _ _ s | logical _ _ _ s | assign _ _ _ s | conditional _ _ _ s
  | cast _ _ s => s

/-- The same expression on another stretch of source. -/
def withSpan (s : Span) : Expr → Expr
  | literal v _ => literal v s
  | name n _ => name n s
  | this _ => this s
  | access t n _ => access t n s
  | call t n args _ => call t n args s
  | ownCall n args _ => ownCall n args s
  | superCall n args _ => superCall n args s
  | unary op e _ => unary op e s
  | binary op l r _ => binary op l r s
  | logical op l r _ => logical op l r s
  | assign op t v _ => assign op t v s
  | conditional c t e _ => conditional c t e s
  | cast t e _ => cast t e s

/-- Only variables and fields of `this` can be assigned. -/
def isAssignable : Expr → Bool
  | name _ _ => true
  | access (this _) _ _ => true
  | _ => false

end Expr

inductive Stmt
  | block (body : List Stmt) (span : Span)
  | declare (type : TypeName) (name : String) (init : Option Expr) (span : Span)
  | ret (value : Option Expr) (span : Span)
  | ifThen (condition : Expr) (thenBranch : Stmt) (span : Span)
  | ifElse (condition : Expr) (thenBranch elseBranch : Stmt) (span : Span)
  | loop (condition : Expr) (body : Stmt) (span : Span)
  | throw (value : Expr) (span : Span)
  | expr (value : Expr)
  | empty (span : Span)

def Stmt.span : Stmt → Span
  | block _ s | declare _ _ _ s | ret _ s | ifThen _ _ s | ifElse _ _ _ s | loop _ _ s | throw _ s
  | empty s => s
  | expr e => e.span

structure Block where
  statements : List Stmt
  span : Span

structure Modifiers where
  visibility : Option Visibility := none
  isStatic : Bool := false
  isFinal : Bool := false
deriving DecidableEq

/-- Without a modifier a member is visible in its package. -/
def Modifiers.effective (m : Modifiers) : Visibility := m.visibility.getD .package

structure FieldDecl where
  modifiers : Modifiers
  type : TypeName
  name : String
  init : Option Expr
  span : Span

structure Param where
  type : TypeName
  name : String
  span : Span
deriving DecidableEq

/-- A method; no return type means `void`. -/
structure MethodDecl where
  modifiers : Modifiers
  returnType : Option TypeName
  name : String
  params : List Param
  throws : List TypeName
  body : Block
  span : Span

structure ConstructorDecl where
  modifiers : Modifiers
  name : String
  params : List Param
  body : Block
  span : Span

inductive Member
  | field (decl : FieldDecl)
  | method (decl : MethodDecl)
  | constructor (decl : ConstructorDecl)

structure Import where
  path : String
  span : Span
deriving DecidableEq

structure ClassDecl where
  modifiers : Modifiers
  name : String
  superclass : Option TypeName
  interfaces : List TypeName
  members : List Member
  span : Span

/-- A source file: imports and one class. -/
structure CompilationUnit where
  imports : List Import
  decl : ClassDecl

end Classwright.Source
