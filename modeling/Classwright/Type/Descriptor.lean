import Classwright.Type.Ref

/-!
# Descriptors

Metadata of declared types: the contracts that classes are generated for, and the host types that
sources refer to.
-/

namespace Classwright

inductive Visibility
  | visible
  | shielded
  | package
  | hidden
deriving DecidableEq, Repr

namespace Visibility

/-- The modifier that a source writes; package visibility has none. -/
def keyword? : Visibility → Option String
  | visible => some "public"
  | shielded => some "protected"
  | package => none
  | hidden => some "private"

end Visibility

/-- A declared method. -/
structure Method where
  name : String
  returnType : TypeRef := .void
  params : List TypeRef := []
  throws : List String := []
  visibility : Visibility := .visible
  isAbstract : Bool := true
deriving DecidableEq, Repr

namespace Method

def arity (m : Method) : Nat := m.params.length

def signature (m : Method) : String := printedSignature m.name m.params

/-- Return type and signature. -/
def text (m : Method) : String := m.returnType.canonicalName ++ " " ++ m.signature

end Method

structure Constructor where
  params : List TypeRef := []
  visibility : Visibility := .visible
deriving DecidableEq, Repr

/-- Whether a subclass in any package may call it without arguments. -/
def Constructor.isDefaultAccessible (c : Constructor) : Bool :=
  c.params.isEmpty && c.visibility != .hidden

inductive TypeKind
  | interface
  | concreteClass
  | abstractClass
  | primitive
  | array
deriving DecidableEq, Repr

def TypeKind.text : TypeKind → String
  | interface => "interface"
  | concreteClass => "class"
  | abstractClass => "abstract class"
  | primitive => "primitive"
  | array => "array"

/-- A declared type. No constructors means one public constructor without parameters. -/
structure Descriptor where
  name : String
  kind : TypeKind
  superclass : Option String := none
  interfaces : List String := []
  constructors : List Constructor := []
  methods : List Method := []
deriving DecidableEq, Repr

namespace Descriptor

def text (d : Descriptor) : String := d.kind.text ++ " " ++ d.name

def ofPrimitive (kind : Primitive) : Descriptor := ⟨kind.keyword, .primitive, none, [], [], []⟩

def ofArray (element : TypeRef) : Descriptor :=
  ⟨(TypeRef.array element).canonicalName, .array, none, [], [], []⟩

def isInterface (d : Descriptor) : Bool := d.kind == .interface

def isClass (d : Descriptor) : Bool := d.kind == .concreteClass || d.kind == .abstractClass

def isAbstract (d : Descriptor) : Bool := d.kind == .interface || d.kind == .abstractClass

/-- Whether classes can be generated for the type. -/
def isContract (d : Descriptor) : Bool := d.kind != .primitive && d.kind != .array

def abstractMethods (d : Descriptor) : List Method := d.methods.filter (·.isAbstract)

def findMethods (d : Descriptor) (name : String) (arity : Nat) : List Method :=
  d.methods.filter fun m => m.name == name && m.arity == arity

def hasDefaultConstructor (d : Descriptor) : Bool :=
  d.constructors.isEmpty || d.constructors.any (·.isDefaultAccessible)

/-- The names that the type directly stands below. -/
def parents (d : Descriptor) : List String := d.superclass.toList ++ d.interfaces

end Descriptor

end Classwright
