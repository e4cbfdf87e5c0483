import Classwright.Check.Scope

/-!
# Declared classes

Supertypes and members of a class with their types resolved, and the relations between types that
hold while it is compiled.
-/

namespace Classwright.Check

open Source

/-- A field. The slot is its place among the static or among the instance fields. -/
structure FieldInfo where
  name : String
  type : TypeRef
  visibility : Visibility
  isStatic : Bool
  isFinal : Bool
  slot : Nat
deriving DecidableEq

/-- A method with the type that declares it. -/
structure OwnedMethod where
  method : Method
  owner : String
  isStatic : Bool := false
deriving DecidableEq

namespace OwnedMethod

def name (m : OwnedMethod) : String := m.method.name

/-- Name and parameter types, without packages. -/
def signature (m : OwnedMethod) : String :=
  m.name ++ "(" ++ String.intercalate "," (m.method.params.map TypeRef.simple) ++ ")"

/-- Whether one of the two overrides the other. -/
def sameParameters (a b : OwnedMethod) : Bool :=
  a.method.name == b.method.name && a.method.params == b.method.params

end OwnedMethod

/-- The methods that some types declare, in order. -/
def ownedMethods (types : List Descriptor) : List OwnedMethod :=
  types.flatMap fun d => d.methods.map fun m => ⟨m, d.name, false⟩

inductive DeclaredMember
  | field (decl : FieldDecl) (info : FieldInfo)
  | method (decl : MethodDecl) (info : OwnedMethod)
  | constructor (decl : ConstructorDecl) (params : List TypeRef)

namespace DeclaredMember

def field? : DeclaredMember → Option FieldInfo
  | field _ info => some info
  | _ => none

def method? : DeclaredMember → Option OwnedMethod
  | method _ info => some info
  | _ => none

def constructor? : DeclaredMember → Option (List TypeRef)
  | constructor _ params => some params
  | _ => none

end DeclaredMember

/-- A class under compilation. -/
structure ClassContext where
  scope : TypeScope
  name : String
  superclass : String
  interfaces : List String
  members : List DeclaredMember

namespace ClassContext

def table (cx : ClassContext) : TypeTable := cx.scope.table

def fields (cx : ClassContext) : List FieldInfo := cx.members.filterMap (·.field?)

def methods (cx : ClassContext) : List OwnedMethod := cx.members.filterMap (·.method?)

def field? (cx : ClassContext) (name : String) : Option FieldInfo :=
  cx.fields.find? (·.name == name)

/-- Whether `sub` is `sup` or stands below it, the class itself included. -/
def isSubtype (cx : ClassContext) (sub sup : String) : Bool :=
  sub == sup || sup == Builtin.object ||
    (if sub == cx.name then
      (cx.superclass :: cx.interfaces).any fun parent => cx.table.isSubtype parent sup
    else cx.table.isSubtype sub sup)

/-- Whether a value of type `source` may be stored as `target` without a cast. Elements of arrays
must have the same primitive type or be assignable references. -/
def isAssignableRef (cx : ClassContext) (source target : TypeRef) : Bool :=
  match source, target with
  | _, .void => false
  | .void, _ => false
  | .primitive a, .primitive b => a.widensTo b
  | _, .primitive _ => false
  | .primitive _, .named name => name == Builtin.object
  | .primitive _, .array _ => false
  | .named sub, .named sup => cx.isSubtype sub sup
  | .array _, .named sup => sup == Builtin.object
  | .named _, .array _ => false
  | .array a, .array b =>
    match a, b with
    | .primitive p, .primitive q => p == q
    | .primitive _, _ => false
    | _, .primitive _ => false
    | a, b => cx.isAssignableRef a b

/-- Whether an expression of the static type may stand where `target` is expected. -/
def isAssignable (cx : ClassContext) (source : StaticType) (target : TypeRef) : Bool :=
  match source, target with
  | .error, _ => true
  | _, .void => false
  | .void, _ => false
  | .null, .primitive _ => false
  | .null, _ => true
  | .primitive kind, target => cx.isAssignableRef (.primitive kind) target
  | .ref type, target => cx.isAssignableRef type target

/-- Methods of the superclasses, nearest first, and then of all interfaces. -/
def inheritedMethods (cx : ClassContext) : List OwnedMethod :=
  ownedMethods (cx.table.lineage cx.superclass cx.interfaces)

/-- Methods of a value of the named type, nearest declarations first. -/
def methodsOf (cx : ClassContext) (typeName : String) : List OwnedMethod :=
  if typeName = cx.name then cx.methods ++ cx.inheritedMethods
  else ownedMethods (cx.table.lineage typeName [])

end ClassContext

/-- Resolves the class that is extended. -/
def superclassOf (scope : TypeScope) (className : String) (written : TypeName) :
    String × List Diagnostic :=
  let wrong (cause : Cause) : String × List Diagnostic := (Builtin.object, [⟨cause, written.span⟩])
  match scope.resolve written with
  | .error d => (Builtin.object, [d])
  | .ok (.named name) =>
    if name = className then wrong (.cyclicInheritance name)
    else if name ∈ Builtin.all then
      if name = Builtin.object then (name, []) else wrong (.finalSuperclass name)
    else
      match scope.table.lookup name with
      | none => (name, [])
      | some d =>
        if !d.isClass then (name, [⟨.interfaceAsSuperclass name, written.span⟩])
        else if !d.hasDefaultConstructor then (name, [⟨.noDefaultConstructor name, written.span⟩])
        else (name, [])
  | .ok other => wrong (.badSuperclass other)

/-- Resolves the interfaces that are implemented, after those in `seen`. -/
def interfacesOf (scope : TypeScope) (seen : List String) :
    List TypeName → List String × List Diagnostic
  | [] => ([], [])
  | written :: rest =>
    let skip (d : Diagnostic) : List String × List Diagnostic :=
      let (names, ds) := interfacesOf scope seen rest
      (names, d :: ds)
    match scope.resolve written with
    | .error d => skip d
    | .ok (.named name) =>
      if !((scope.table.lookup name).map (·.isInterface)).getD false then
        skip ⟨.notAnInterface name, written.span⟩
      else if seen.contains name then skip ⟨.repeatedInterface name, written.span⟩
      else
        let (names, ds) := interfacesOf scope (name :: seen) rest
        (name :: names, ds)
    | .ok other => skip ⟨.notAnInterface other.canonicalName, written.span⟩

def reportIf (wrong : Bool) (cause : Cause) (span : Span) : List Diagnostic :=
  if wrong then [⟨cause, span⟩] else []

/-- Resolves a member that follows those in `before`. -/
def declareMember (scope : TypeScope) (className : String) (before : List DeclaredMember) :
    Member → DeclaredMember × List Diagnostic
  | .field decl =>
    let fields := before.filterMap (·.field?)
    let (type, unresolved) := scope.resolveOr decl.type
    let info : FieldInfo := {
      name := decl.name
      type := type
      visibility := decl.modifiers.effective
      isStatic := decl.modifiers.isStatic
      isFinal := decl.modifiers.isFinal
      slot := fields.countP (·.isStatic == decl.modifiers.isStatic) }
    (.field decl info,
      reportIf (fields.any (·.name == decl.name)) (.duplicateField decl.name className) decl.span
        ++ unresolved)
  | .method decl =>
    let (params, unresolvedParams) := scope.resolveAll (decl.params.map (·.type))
    let (returnType, unresolvedReturn) : TypeRef × List Diagnostic := match decl.returnType with
      | none => (.void, [])
      | some written => scope.resolveOr written
    let (throws, unresolvedThrows) := scope.resolveAll decl.throws
    let method : Method := {
      name := decl.name
      returnType := returnType
      params := params
      throws := throws.map (·.canonicalName)
      visibility := decl.modifiers.effective
      isAbstract := false }
    let info : OwnedMethod := ⟨method, className, decl.modifiers.isStatic⟩
    (.method decl info,
      reportIf decl.modifiers.isStatic (.staticMethod decl.name) decl.span
        ++ unresolvedParams ++ unresolvedReturn ++ unresolvedThrows
        ++ reportIf ((before.filterMap (·.method?)).any (·.sameParameters info))
          (.duplicateMethod info.signature className) decl.span)
  | .constructor decl =>
    let (params, unresolved) := scope.resolveAll (decl.params.map (·.type))
    (.constructor decl params,
      reportIf decl.modifiers.isStatic .staticConstructor decl.span ++ unresolved
        ++ reportIf ((before.filterMap (·.constructor?)).contains params)
          (.duplicateConstructor (String.intercalate "," (params.map (·.simple))) className)
          decl.span)

/-- Resolves the members in order. -/
def declareMembers (scope : TypeScope) (className : String) (members : List Member) :
    List DeclaredMember × List Diagnostic :=
  members.foldl
    (fun (before, ds) m =>
      let (declared, found) := declareMember scope className before m
      (before ++ [declared], ds ++ found))
    ([], [])

/-- Resolves supertypes and members of a class. -/
def ClassContext.declare (scope : TypeScope) (decl : ClassDecl) : ClassContext × List Diagnostic :=
  let (superclass, ds₁) := match decl.superclass with
    | none => (Builtin.object, [])
    | some written => superclassOf scope decl.name written
  let (interfaces, ds₂) := interfacesOf scope [] decl.interfaces
  let (members, ds₃) := declareMembers scope decl.name decl.members
  (⟨scope, decl.name, superclass, interfaces, members⟩, ds₁ ++ ds₂ ++ ds₃)

namespace ClassContext

/-- How many places may see a member; an override may not see fewer. -/
def accessRank : Visibility → Nat
  | .hidden => 0
  | .package => 1
  | .shielded => 2
  | .visible => 3

/-- Whether a method may return `own` where it overrides one that returns `parent`. -/
def returnFits (cx : ClassContext) (own parent : TypeRef) : Bool :=
  own == parent ||
    match own, parent with
    | .named a, .named b => cx.isSubtype a b
    | _, _ => false

/-- What is wrong with a method that overrides another. -/
def checkOverride (cx : ClassContext) (span : Span) (own parent : OwnedMethod) :
    List Diagnostic :=
  if parent.method.visibility = .hidden then []
  else
    reportIf (!cx.returnFits own.method.returnType parent.method.returnType)
      (.incompatibleReturn own.signature cx.name parent.signature parent.owner
        own.method.returnType parent.method.returnType) span
    ++ reportIf (accessRank own.method.visibility < accessRank parent.method.visibility)
      (.weakerAccess own.signature cx.name parent.signature parent.owner) span

/-- Whether the class or a type above it has code for the method. -/
def implements (cx : ClassContext) (inherited : List OwnedMethod) (m : OwnedMethod) : Bool :=
  cx.methods.any (·.sameParameters m)
    || inherited.any fun other => !other.method.isAbstract && other.sameParameters m

/-- The abstract methods that are missing, of those with one printed signature the first. -/
def missing (cx : ClassContext) (inherited : List OwnedMethod) (reported : List String) :
    List OwnedMethod → List OwnedMethod
  | [] => []
  | m :: ms =>
    if m.method.isAbstract && !cx.implements inherited m && !reported.contains m.signature then
      m :: cx.missing inherited (m.signature :: reported) ms
    else cx.missing inherited reported ms

/-- Checks overrides, and that no inherited abstract method is left without code. -/
def checkInheritance (cx : ClassContext) (span : Span) : List Diagnostic :=
  let inherited := cx.inheritedMethods
  (cx.members.flatMap fun
    | .method decl own =>
      (inherited.filter (·.sameParameters own)).flatMap fun parent =>
        cx.checkOverride decl.span own parent
    | _ => [])
  ++ (cx.missing inherited [] inherited).map fun m =>
    ⟨.missingImplementation cx.name m.signature m.owner, span⟩

end ClassContext

end Classwright.Check
