import Classwright.Files.Tree
import Classwright.Machine.Value
import Classwright.Synthesis.ClassSource

/-!
# Failures

Everything that can go wrong while a class is generated, loaded, instantiated or run. A failure
holds its cause; `Failure.message` words it.
-/

namespace Classwright

/-- The kinds of slots that compiled code numbers. -/
inductive SlotKind
  | local_
  | field
  | static
deriving DecidableEq, Repr

def SlotKind.word : SlotKind → String
  | local_ => "local"
  | field => "field"
  | static => "static"

inductive ArgumentFault
  | notApplicable (className signature : String) (kinds : List String)
  | unmatched (typeName signature : String)
  | badOperand (sign kind : String)
  | badOperands (op : BinaryOp) (left right : String)
  | missingSlot (className : String) (kind : SlotKind) (slot : Nat)
  | handlerCall
  | notAString (method kind : String)
  | foreignObject (kind className : String)
  | unsettable (type : TypeRef) (className field kind : String)
deriving DecidableEq, Repr

def ArgumentFault.text : ArgumentFault → String
  | notApplicable className signature kinds =>
    className ++ "." ++ signature ++ " cannot be applied to (" ++ String.intercalate "," kinds ++ ")"
  | unmatched typeName signature => "arguments do not match " ++ typeName ++ "." ++ signature
  | badOperand sign kind => "bad operand for '" ++ sign ++ "': " ++ kind
  | badOperands op left right =>
    "bad operands for '" ++ op.text ++ "': " ++ left ++ " and " ++ right
  | missingSlot className kind slot =>
    className ++ " has no " ++ kind.word ++ " slot " ++ toString slot
  | handlerCall => "Handler.call expects (Class, Method, args...)"
  | notAString method kind => "String." ++ method ++ " expects a String, found " ++ kind
  | foreignObject kind className => kind ++ " is not an instance of " ++ className
  | unsettable type className field kind =>
    "cannot set " ++ type.canonicalName ++ " field " ++ className ++ "." ++ field ++ " to " ++ kind

/-- Why a stored class cannot be loaded. -/
inductive LoadFault
  | unreadable
  | malformed
  | format (version : Nat)
  | declares (name : String)
  | unresolved (supertype : String)
  | notImplementing (contract : String)
  | badDescriptor
deriving DecidableEq, Repr

def LoadFault.text : LoadFault → String
  | unreadable => "cannot read"
  | malformed => "malformed unit"
  | format version =>
    "unit format " ++ toString version ++ " is not supported (expected "
      ++ toString Code.formatVersion ++ ")"
  | declares name => "unit declares class " ++ name
  | unresolved supertype => "cannot resolve supertype " ++ supertype
  | notImplementing contract => "loaded class does not implement " ++ contract
  | badDescriptor => "bad descriptor"

inductive Failure
  | synthesis (error : SynthesisError)
  | notProxied (contract : String) (kind : TypeKind)
  | conflicting (contract : String)
  | compilation (className : String) (diagnostics : List String)
  | load (name : String) (fault : LoadFault)
  | staticInitializer (className field : String) (cause : Failure)
  | construction (className : String) (cause : Failure)
  | notImplemented (className contract : String)
  | invalidResult (expected found : String)
  | unpatchable (className field : String)
  | patch (className field : String) (cause : Failure)
  | noSuchMethod (className method : String) (arity : Nat)
  | abstractMethod (className method : String) (arity : Nat)
  | noSuchField (className field : String)
  | illegalAccess (className field : String)
  | illegalArgument (fault : ArgumentFault)
  | nullReference (member : String)
  | divisionByZero
  | thrown (value : Value)
  | stackOverflow (limit : Nat)
  | handler (message : String)
  | file (fault : FileFault)

namespace Failure

def withArity (method : String) (arity : Nat) : String := method ++ "/" ++ toString arity

/-- The member that constructors are called by. -/
def constructorName : String := "<init>"

def loadMessage (name reason : String) : String := "Could not load " ++ name ++ ": " ++ reason

def instantiationMessage (className reason : String) : String :=
  "Could not instantiate " ++ className ++ ": " ++ reason

def patchMessage (className field reason : String) : String :=
  "Patching " ++ className ++ " failed: field '" ++ field ++ "' " ++ reason

def message : Failure → String
  | synthesis error => error.message
  | notProxied contract kind =>
    SynthesisError.contractMessage contract
      ("only interfaces can be proxied, not a " ++ kind.text)
  | conflicting contract =>
    SynthesisError.contractMessage contract ("conflicting descriptor for " ++ contract)
  | compilation className diagnostics =>
    "Compilation of " ++ className ++ " failed:\n" ++ String.intercalate "\n" diagnostics
  | load name fault => loadMessage name fault.text
  | staticInitializer className field cause =>
    loadMessage className ("static initializer of " ++ field ++ " failed: " ++ cause.message)
  | construction className cause => instantiationMessage className cause.message
  | notImplemented className contract =>
    instantiationMessage className ("instance does not implement " ++ contract)
  | invalidResult expected found =>
    "Invalid result type: expected " ++ expected ++ ", found " ++ found
  | unpatchable className field => patchMessage className field "is missing"
  | patch className field cause => patchMessage className field cause.message
  | noSuchMethod className method arity =>
    "No such method: " ++ className ++ "." ++ withArity method arity
  | abstractMethod className method arity =>
    "Abstract method invoked: " ++ className ++ "." ++ withArity method arity
  | noSuchField className field => "No such field: " ++ className ++ "." ++ field
  | illegalAccess className field => "Illegal access to " ++ className ++ "." ++ field
  | illegalArgument fault => "Illegal argument: " ++ fault.text
  | nullReference member => "Null reference: cannot invoke '" ++ member ++ "' on null"
  | divisionByZero => "Arithmetic error: / by zero"
  | thrown value => "Thrown: " ++ value.text
  | stackOverflow limit => "Stack overflow: call depth exceeded " ++ toString limit
  | handler message => "Handler error: " ++ message
  | file fault => fault.text

end Failure

end Classwright
