import Classwright.Json.Decode
import Classwright.Json.Writer
import Classwright.Type.Descriptor

/-!
# Descriptors as documents

How types, methods and descriptors are written as JSON and read back. Fields that are left out have
standard values; superclass, interfaces and constructors are left out when there are none.
-/

namespace Classwright

namespace TypeRef

/-- A type inside which at most `depth` objects may nest. -/
def decode : Decoder TypeRef
  | depth + 1, .object [(some "array", element)] => (decode depth element).map array
  | depth + 1, .object [(some "primitive", kind)] =>
    (Decoder.oneOf (Primitive.all.map fun p => (p.keyword, p)) depth kind).map primitive
  | _ + 1, .object [(some "named", .string name)] => name.map named
  | depth, j => Decoder.oneOf [("void", void)] depth j

def encode : TypeRef → Json
  | void => .str "void"
  | primitive kind => .record [("primitive", .str kind.keyword)]
  | named name => .record [("named", .str name)]
  | array element => .record [("array", element.encode)]

end TypeRef

namespace Visibility

def word : Visibility → String
  | visible => "public"
  | shielded => "protected"
  | package => "package"
  | hidden => "private"

def decode : Decoder Visibility :=
  .oneOf ([visible, shielded, package, hidden].map fun v => (v.word, v))

def encode (v : Visibility) : Json := .str v.word

end Visibility

namespace Method

def fieldNames : List String :=
  ["name", "return_type", "params", "throws", "visibility", "is_abstract"]

def decode : Decoder Method := .record fieldNames fun depth given => do
  return {
    name := ← Decoder.need depth "name" .string given
    returnType := ← Decoder.fieldOr .void depth "return_type" TypeRef.decode given
    params := ← Decoder.fieldOr [] depth "params" (.list TypeRef.decode) given
    throws := ← Decoder.fieldOr [] depth "throws" (.list .string) given
    visibility := ← Decoder.fieldOr .visible depth "visibility" Visibility.decode given
    isAbstract := ← Decoder.fieldOr true depth "is_abstract" .bool given }

def encode (m : Method) : Json :=
  .record [("name", .str m.name), ("return_type", m.returnType.encode),
    ("params", .array (m.params.map TypeRef.encode)), ("throws", .array (m.throws.map Json.str)),
    ("visibility", m.visibility.encode), ("is_abstract", .bool m.isAbstract)]

end Method

namespace Constructor

def decode : Decoder Constructor := .record ["params", "visibility"] fun depth given => do
  return {
    params := ← Decoder.fieldOr [] depth "params" (.list TypeRef.decode) given
    visibility := ← Decoder.fieldOr .visible depth "visibility" Visibility.decode given }

def encode (c : Constructor) : Json :=
  .record [("params", .array (c.params.map TypeRef.encode)), ("visibility", c.visibility.encode)]

end Constructor

namespace TypeKind

def all : List TypeKind := [interface, concreteClass, abstractClass, primitive, array]

def word : TypeKind → String
  | interface => "interface"
  | concreteClass => "class"
  | abstractClass => "abstract_class"
  | primitive => "primitive"
  | array => "array"

def decode : Decoder TypeKind := .oneOf (all.map fun k => (k.word, k))

end TypeKind

namespace Descriptor

def fieldNames : List String :=
  ["name", "kind", "superclass", "interfaces", "constructors", "methods"]

def decode : Decoder Descriptor := .record fieldNames fun depth given => do
  return {
    name := ← Decoder.need depth "name" .string given
    kind := ← Decoder.need depth "kind" TypeKind.decode given
    superclass := ← Decoder.fieldOr none depth "superclass" (.nullable .string) given
    interfaces := ← Decoder.fieldOr [] depth "interfaces" (.list .string) given
    constructors := ← Decoder.fieldOr [] depth "constructors" (.list Constructor.decode) given
    methods := ← Decoder.fieldOr [] depth "methods" (.list Method.decode) given }

/-- A field that is written only when the list has members. -/
def listField (name : String) (items : List Json) : List (String × Json) :=
  if items.isEmpty then [] else [(name, .array items)]

def encode (d : Descriptor) : Json :=
  .record ([("name", .str d.name), ("kind", .str d.kind.word)]
    ++ (d.superclass.map fun s => ("superclass", Json.str s)).toList
    ++ listField "interfaces" (d.interfaces.map Json.str)
    ++ listField "constructors" (d.constructors.map Constructor.encode)
    ++ [("methods", .array (d.methods.map Method.encode))])

/-- Reads the text of a descriptor. -/
def ofText? (text : String) : Option Descriptor := (Json.parse? text).bind (decode Json.maxDepth)

/-- The text of a descriptor, with indentation. -/
def toText (d : Descriptor) : String := d.encode.pretty

end Descriptor

end Classwright
