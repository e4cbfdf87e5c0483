import Classwright.Check.StaticType
import Classwright.Operator
import Classwright.Source.Span

/-!
# Diagnostics

Everything that checking a class can find wrong, with the place in the source.
-/

namespace Classwright.Check

inductive Cause
  | unknownClass (name : String)
  | importClash (simple existing : String)
  | duplicateField (name className : String)
  | duplicateMethod (signature className : String)
  | duplicateConstructor (params className : String)
  | staticMethod (name : String)
  | staticConstructor
  | badSuperclass (type : TypeRef)
  | cyclicInheritance (name : String)
  | finalSuperclass (name : String)
  | interfaceAsSuperclass (name : String)
  | noDefaultConstructor (name : String)
  | notAnInterface (type : String)
  | repeatedInterface (name : String)
  | incompatibleReturn (own className parent owner : String) (ownType parentType : TypeRef)
  | weakerAccess (own className parent owner : String)
  | missingImplementation (className signature owner : String)
  | missingReturn
  | misnamedConstructor
  | duplicateVariable (name : String)
  | voidValue
  | missingReturnValue
  | unexpectedReturnValue
  | returnFromInitializer
  | incompatible (source target : String)
  | staticContext (name : String)
  | staticContextMethod (name : String)
  | unknownVariable (name : String)
  | foreignField (name : String)
  | badTarget
  | finalAssignment (name : String)
  | badOperand (type : StaticType) (sign : String)
  | badOperands (op : BinaryOp) (left right : StaticType)
  | incomparable (left right : StaticType)
  | notDereferenceable (type : StaticType)
  | unknownMethod (name : String) (args : List StaticType) (receiver : StaticType)
  | abstractSuperCall (signature owner : String)
deriving DecidableEq

namespace Cause

def message : Cause → String
  | unknownClass name => "cannot find symbol: class " ++ name
  | importClash simple existing =>
    simple ++ " is already defined in a single-type import (" ++ existing ++ ")"
  | duplicateField name className =>
    "variable " ++ name ++ " is already defined in class " ++ className
  | duplicateMethod signature className =>
    "method " ++ signature ++ " is already defined in class " ++ className
  | duplicateConstructor params className =>
    "constructor " ++ className ++ "(" ++ params ++ ") is already defined in class " ++ className
  | staticMethod name => "static method " ++ name ++ " is not supported"
  | staticConstructor => "modifier static not allowed here"
  | badSuperclass type => "unexpected type " ++ type.canonicalName ++ " in extends clause"
  | cyclicInheritance name => "cyclic inheritance involving " ++ name
  | finalSuperclass name => "cannot inherit from final " ++ name
  | interfaceAsSuperclass name => "no interface expected here: " ++ name
  | noDefaultConstructor name => "no default constructor available in " ++ name
  | notAnInterface type => "interface expected here: " ++ type
  | repeatedInterface name => "repeated interface " ++ name
  | incompatibleReturn own className parent owner ownType parentType =>
    own ++ " in " ++ className ++ " cannot override " ++ parent ++ " in " ++ owner
      ++ "; return type " ++ ownType.canonicalName ++ " is not compatible with "
      ++ parentType.canonicalName
  | weakerAccess own className parent owner =>
    own ++ " in " ++ className ++ " cannot override " ++ parent ++ " in " ++ owner
      ++ "; attempting to assign weaker access privileges"
  | missingImplementation className signature owner =>
    className ++ " is not abstract and does not override abstract method " ++ signature ++ " in "
      ++ owner
  | missingReturn => "missing return statement"
  | misnamedConstructor => "invalid method declaration; return type required"
  | duplicateVariable name => "variable " ++ name ++ " is already defined"
  | voidValue => "'void' type not allowed here"
  | missingReturnValue => "missing return value"
  | unexpectedReturnValue => "incompatible types: unexpected return value"
  | returnFromInitializer => "cannot return a value from a constructor or initializer"
  | incompatible source target =>
    "incompatible types: " ++ source ++ " cannot be converted to " ++ target
  | staticContext name =>
    "non-static variable " ++ name ++ " cannot be referenced from a static context"
  | staticContextMethod name =>
    "non-static method " ++ name ++ " cannot be referenced from a static context"
  | unknownVariable name => "cannot find symbol: variable " ++ name
  | foreignField name =>
    "cannot access field " ++ name ++ ": only fields of this are accessible"
  | badTarget => "unexpected assignment target"
  | finalAssignment name => "cannot assign a value to final variable " ++ name
  | badOperand type sign =>
    "bad operand type " ++ type.text ++ " for unary operator '" ++ sign ++ "'"
  | badOperands op left right =>
    "bad operand types for binary operator '" ++ op.text ++ "': " ++ left.text ++ " and "
      ++ right.text
  | incomparable left right => "incomparable types: " ++ left.text ++ " and " ++ right.text
  | notDereferenceable type => type.text ++ " cannot be dereferenced"
  | unknownMethod name args receiver =>
    "cannot find symbol: method " ++ name ++ "(" ++ String.intercalate "," (args.map (·.text))
      ++ ") in " ++ receiver.text
  | abstractSuperCall signature owner =>
    "abstract method " ++ signature ++ " in " ++ owner ++ " cannot be accessed directly"

end Cause

structure Diagnostic where
  cause : Cause
  span : Span
deriving DecidableEq

namespace Diagnostic

def message (d : Diagnostic) : String := "error at " ++ d.span.text ++ ": " ++ d.cause.message

/-- The message with the line of the source it is about. -/
def report (source : String) (d : Diagnostic) : String :=
  d.message ++ "\n" ++ d.span.excerpt source

/-- Whether `a` stands no later in the source than `b`. -/
def notAfter (a b : Diagnostic) : Bool :=
  a.span.line < b.span.line || (a.span.line == b.span.line && a.span.column ≤ b.span.column)

end Diagnostic

end Classwright.Check
