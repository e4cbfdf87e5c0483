import Classwright.Number.Binary
import Classwright.Operator
import Classwright.Type.Descriptor

/-!
# Compiled code

A checked class: variables are slots, types are qualified and conversions are explicit.
-/

namespace Classwright.Code

inductive Constant
  | null
  | bool (value : Bool)
  | int (value : Int32)
  | long (value : Int64)
  | float (value : Binary32)
  | double (value : Binary64)
  | char (value : Char)
  | str (value : String)
deriving DecidableEq

inductive UnaryOp
  | negate
  | not
deriving DecidableEq, Repr

/-- A cast converts a primitive operand, or checks that a reference has the type already. -/
inductive CastMode
  | convert
  | check
deriving DecidableEq, Repr

inductive Expr
  | const (value : Constant)
  | var (slot : Nat)
  | this
  | field (slot : Nat)
  | static (slot : Nat)
  | storeVar (slot : Nat) (value : Expr)
  | storeField (slot : Nat) (value : Expr)
  | storeStatic (slot : Nat) (value : Expr)
  | unary (op : UnaryOp) (operand : Expr)
  | binary (op : BinaryOp) (left right : Expr)
  | and (left right : Expr)
  | or (left right : Expr)
  | conditional (condition thenExpr elseExpr : Expr)
  | cast (target : TypeRef) (mode : CastMode) (operand : Expr)
  | invoke (receiver : Expr) (method : String) (args : List Expr)
  | invokeSuper (method : String) (args : List Expr)

inductive Stmt
  | expr (value : Expr)
  | ret (value : Option Expr)
  | cond (condition : Expr) (thenBranch elseBranch : List Stmt)
  | loop (condition : Expr) (body : List Stmt)
  | throw (value : Expr)
  | block (body : List Stmt)

structure Field where
  name : String
  type : TypeRef
  visibility : Visibility
  isFinal : Bool
  init : Option Expr

/-- `locals` counts the slots of parameters and variables. -/
structure Constructor where
  params : List TypeRef
  visibility : Visibility
  locals : Nat
  body : List Stmt

structure Method where
  name : String
  params : List TypeRef
  returnType : TypeRef
  throws : List String
  visibility : Visibility
  locals : Nat
  body : List Stmt

def Method.signature (m : Method) : String := printedSignature m.name m.params

/-- A compiled class. Fields and statics are numbered by their places. -/
structure Class where
  version : Nat
  name : String
  superclass : String
  interfaces : List String
  fields : List Field
  statics : List Field
  constructors : List Constructor
  methods : List Method

/-- The version of the form in which compiled classes are stored. -/
def formatVersion : Nat := 1

/-- Name of the file that holds a compiled class. -/
def fileName (className : String) : String := className ++ ".unit.json"

end Classwright.Code
