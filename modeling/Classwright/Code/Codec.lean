import Classwright.Code.Basic
import Classwright.Json.Exact
import Classwright.Type.Codec

/-!
# Compiled classes as documents

How compiled classes are stored as JSON. Readers refuse documents that nest too deep.
-/

namespace Classwright.Code

namespace Constant

/-- A number that is read with the precision of `float`. -/
def decodeFloat : Decoder Binary32
  | _, .number n =>
    match n.toInt? with
    | some i => some (.ofInt i)
    | none => n.toBinary?.map (·.toFormat .single)
  | _, _ => none

def decodeDouble : Decoder Binary64
  | _, .number n => n.toBinary?
  | _, _ => none

def decodeChar : Decoder Char := fun depth j =>
  (Decoder.string depth j).bind fun s =>
    match s.toList with
    | [c] => some c
    | _ => none

def decode : Decoder Constant := fun depth j =>
  (Decoder.variant depth j).bind fun (tag, content) =>
    match tag, content with
    | "Null", content => if Decoder.isBare content then some null else none
    | "Bool", some (d, j) => (Decoder.bool d j).map bool
    | "Int", some (d, j) => (Decoder.int32 d j).map int
    | "Long", some (d, j) => (Decoder.int64 d j).map long
    | "Float", some (d, j) => (decodeFloat d j).map float
    | "Double", some (d, j) => (decodeDouble d j).map double
    | "Char", some (d, j) => (decodeChar d j).map char
    | "Str", some (d, j) => (Decoder.string d j).map str
    | _, _ => none

def encode : Constant → Json
  | null => .str "Null"
  | bool b => .record [("Bool", .bool b)]
  | int v => .record [("Int", .int v.toInt)]
  | long v => .record [("Long", .int v.toInt)]
  | float v => .record [("Float", .ofBinary JsonNumber.floatStyle v)]
  | double v => .record [("Double", .ofBinary JsonNumber.doubleStyle v)]
  | char c => .record [("Char", .str (String.singleton c))]
  | str s => .record [("Str", .str s)]

/-- The document for readers that would round a number. -/
def encodeExact : Constant → Json
  | long v => .record [("Long", .exactLong v)]
  | float v => .record [("Float", .exactBinary v)]
  | double v => .record [("Double", .exactBinary v)]
  | c => c.encode

end Constant

def UnaryOp.word : UnaryOp → String
  | negate => "Negate"
  | not => "Not"

def UnaryOp.decode : Decoder UnaryOp :=
  .oneOf ([UnaryOp.negate, .not].map fun o => (o.word, o))

def CastMode.word : CastMode → String
  | convert => "Convert"
  | check => "Check"

def CastMode.decode : Decoder CastMode :=
  .oneOf ([CastMode.convert, .check].map fun m => (m.word, m))

def binaryWord : BinaryOp → String
  | .add => "Add"
  | .sub => "Sub"
  | .mul => "Mul"
  | .div => "Div"
  | .rem => "Rem"
  | .eq => "Eq"
  | .ne => "Ne"
  | .lt => "Lt"
  | .le => "Le"
  | .gt => "Gt"
  | .ge => "Ge"

def decodeBinary : Decoder BinaryOp := .oneOf (BinaryOp.all.map fun o => (binaryWord o, o))

namespace Expr

/-- An expression inside which at most `depth` lists and objects may nest. -/
def decode : Decoder Expr
  | depth + 1, .object [(some "Const", c)] => (Constant.decode depth c).map const
  | depth + 1, .object [(some "Local", n)] => (Decoder.nat depth n).map var
  | depth + 1, .object [(some "Field", n)] => (Decoder.nat depth n).map field
  | depth + 1, .object [(some "Static", n)] => (Decoder.nat depth n).map static
  | depth + 2, .object [(some "StoreLocal", .array [n, e])] => do
    return storeVar (← Decoder.nat depth n) (← decode depth e)
  | depth + 2, .object [(some "StoreField", .array [n, e])] => do
    return storeField (← Decoder.nat depth n) (← decode depth e)
  | depth + 2, .object [(some "StoreStatic", .array [n, e])] => do
    return storeStatic (← Decoder.nat depth n) (← decode depth e)
  | depth + 2, .object [(some "Unary", .array [o, e])] => do
    return unary (← UnaryOp.decode depth o) (← decode depth e)
  | depth + 2, .object [(some "Binary", .array [o, l, r])] => do
    return binary (← decodeBinary depth o) (← decode depth l) (← decode depth r)
  | depth + 2, .object [(some "And", .array [l, r])] => do
    return .and (← decode depth l) (← decode depth r)
  | depth + 2, .object [(some "Or", .array [l, r])] => do
    return .or (← decode depth l) (← decode depth r)
  | depth + 2, .object [(some "Conditional", .array [c, t, e])] => do
    return conditional (← decode depth c) (← decode depth t) (← decode depth e)
  | depth + 2, .object [(some "Cast", j)] => do
    let given ← Decoder.fields ["target", "mode", "expr"] j
    return cast (← Decoder.need depth "target" TypeRef.decode given)
      (← Decoder.need depth "mode" CastMode.decode given) (← decode depth (← given "expr"))
  | depth + 3, .object [(some "Invoke", j)] => do
    let given ← Decoder.fields ["receiver", "method", "args"] j
    let receiver ← decode (depth + 1) (← given "receiver")
    let method ← Decoder.need depth "method" .string given
    let .array args ← given "args" | none
    return invoke receiver method (← args.mapM (decode depth))
  | depth + 3, .object [(some "InvokeSuper", j)] => do
    let given ← Decoder.fields ["method", "args"] j
    let method ← Decoder.need depth "method" .string given
    let .array args ← given "args" | none
    return invokeSuper method (← args.mapM (decode depth))
  | depth, j => Decoder.oneOf [("This", this)] depth j

mutual

/-- The document of an expression, given that of its constants. -/
def encode (constant : Constant → Json) : Expr → Json
  | const c => .record [("Const", constant c)]
  | var n => .record [("Local", .nat n)]
  | this => .str "This"
  | field n => .record [("Field", .nat n)]
  | static n => .record [("Static", .nat n)]
  | storeVar n e => .record [("StoreLocal", .array [.nat n, e.encode constant])]
  | storeField n e => .record [("StoreField", .array [.nat n, e.encode constant])]
  | storeStatic n e => .record [("StoreStatic", .array [.nat n, e.encode constant])]
  | unary o e => .record [("Unary", .array [.str o.word, e.encode constant])]
  | binary o l r =>
    .record [("Binary", .array [.str (binaryWord o), l.encode constant, r.encode constant])]
  | .and l r => .record [("And", .array [l.encode constant, r.encode constant])]
  | .or l r => .record [("Or", .array [l.encode constant, r.encode constant])]
  | conditional c t e =>
    .record [("Conditional",
      .array [c.encode constant, t.encode constant, e.encode constant])]
  | cast t m e =>
    .record [("Cast", .record [("target", t.encode), ("mode", .str m.word),
      ("expr", e.encode constant)])]
  | invoke r m args =>
    .record [("Invoke", .record [("receiver", r.encode constant), ("method", .str m),
      ("args", .array (encodeList constant args))])]
  | invokeSuper m args =>
    .record [("InvokeSuper", .record [("method", .str m),
      ("args", .array (encodeList constant args))])]

def encodeList (constant : Constant → Json) : List Expr → List Json
  | [] => []
  | e :: es => e.encode constant :: encodeList constant es

end

end Expr

def encodeOption (constant : Constant → Json) : Option Expr → Json
  | none => .null
  | some e => e.encode constant

namespace Stmt

/-- A statement inside which at most `depth` lists and objects may nest. -/
def decode : Decoder Stmt
  | depth + 1, .object [(some "Expr", e)] => (Expr.decode depth e).map expr
  | depth + 1, .object [(some "Return", e)] => (Decoder.nullable Expr.decode depth e).map ret
  | depth + 1, .object [(some "Throw", e)] => (Expr.decode depth e).map throw
  | depth + 2, .object [(some "Block", .array body)] => (body.mapM (decode depth)).map block
  | depth + 3, .object [(some "If", j)] => do
    let given ← Decoder.fields ["condition", "then_branch", "else_branch"] j
    let condition ← Decoder.need (depth + 1) "condition" Expr.decode given
    let .array thenBranch ← given "then_branch" | none
    let .array elseBranch ← given "else_branch" | none
    return cond condition (← thenBranch.mapM (decode depth)) (← elseBranch.mapM (decode depth))
  | depth + 3, .object [(some "While", j)] => do
    let given ← Decoder.fields ["condition", "body"] j
    let condition ← Decoder.need (depth + 1) "condition" Expr.decode given
    let .array body ← given "body" | none
    return loop condition (← body.mapM (decode depth))
  | _, _ => none

mutual

def encode (constant : Constant → Json) : Stmt → Json
  | expr e => .record [("Expr", e.encode constant)]
  | ret e => .record [("Return", encodeOption constant e)]
  | cond c t e =>
    .record [("If", .record [("condition", c.encode constant),
      ("then_branch", .array (encodeList constant t)),
      ("else_branch", .array (encodeList constant e))])]
  | loop c b =>
    .record [("While", .record [("condition", c.encode constant),
      ("body", .array (encodeList constant b))])]
  | throw e => .record [("Throw", e.encode constant)]
  | block b => .record [("Block", .array (encodeList constant b))]

def encodeList (constant : Constant → Json) : List Stmt → List Json
  | [] => []
  | s :: ss => s.encode constant :: encodeList constant ss

end

end Stmt

namespace Field

def decode : Decoder Field := .record ["name", "ty", "visibility", "is_final", "init"]
  fun depth given => do
    return {
      name := ← Decoder.need depth "name" .string given
      type := ← Decoder.need depth "ty" TypeRef.decode given
      visibility := ← Decoder.need depth "visibility" Visibility.decode given
      isFinal := ← Decoder.need depth "is_final" .bool given
      init := ← Decoder.fieldOr none depth "init" (.nullable Expr.decode) given }

def encode (constant : Constant → Json) (f : Field) : Json :=
  .record [("name", .str f.name), ("ty", f.type.encode), ("visibility", f.visibility.encode),
    ("is_final", .bool f.isFinal), ("init", encodeOption constant f.init)]

end Field

namespace Constructor

def decode : Decoder Constructor := .record ["params", "visibility", "locals", "body"]
  fun depth given => do
    return {
      params := ← Decoder.need depth "params" (.list TypeRef.decode) given
      visibility := ← Decoder.need depth "visibility" Visibility.decode given
      locals := ← Decoder.need depth "locals" .nat given
      body := ← Decoder.need depth "body" (.list Stmt.decode) given }

def encode (constant : Constant → Json) (c : Constructor) : Json :=
  .record [("params", .array (c.params.map TypeRef.encode)), ("visibility", c.visibility.encode),
    ("locals", .nat c.locals), ("body", .array (Stmt.encodeList constant c.body))]

end Constructor

namespace Method

def decode : Decoder Method :=
  .record ["name", "params", "return_type", "throws", "visibility", "locals", "body"]
  fun depth given => do
    return {
      name := ← Decoder.need depth "name" .string given
      params := ← Decoder.need depth "params" (.list TypeRef.decode) given
      returnType := ← Decoder.need depth "return_type" TypeRef.decode given
      throws := ← Decoder.need depth "throws" (.list .string) given
      visibility := ← Decoder.need depth "visibility" Visibility.decode given
      locals := ← Decoder.need depth "locals" .nat given
      body := ← Decoder.need depth "body" (.list Stmt.decode) given }

def encode (constant : Constant → Json) (m : Method) : Json :=
  .record [("name", .str m.name), ("params", .array (m.params.map TypeRef.encode)),
    ("return_type", m.returnType.encode), ("throws", .array (m.throws.map Json.str)),
    ("visibility", m.visibility.encode), ("locals", .nat m.locals),
    ("body", .array (Stmt.encodeList constant m.body))]

end Method

namespace Class

def fieldNames : List String :=
  ["format_version", "name", "superclass", "interfaces", "fields", "statics", "constructors",
    "methods"]

def decode : Decoder Class := .record fieldNames fun depth given => do
  return {
    version := (← Decoder.need depth "format_version" (.intIn 0 (UInt32.size - 1)) given).toNat
    name := ← Decoder.need depth "name" .string given
    superclass := ← Decoder.need depth "superclass" .string given
    interfaces := ← Decoder.need depth "interfaces" (.list .string) given
    fields := ← Decoder.need depth "fields" (.list Field.decode) given
    statics := ← Decoder.need depth "statics" (.list Field.decode) given
    constructors := ← Decoder.need depth "constructors" (.list Constructor.decode) given
    methods := ← Decoder.need depth "methods" (.list Method.decode) given }

def encode (constant : Constant → Json) (c : Class) : Json :=
  .record [("format_version", .nat c.version), ("name", .str c.name),
    ("superclass", .str c.superclass), ("interfaces", .array (c.interfaces.map Json.str)),
    ("fields", .array (c.fields.map (Field.encode constant))),
    ("statics", .array (c.statics.map (Field.encode constant))),
    ("constructors", .array (c.constructors.map (Constructor.encode constant))),
    ("methods", .array (c.methods.map (Method.encode constant)))]

/-- The stored form. -/
def toText (c : Class) : String := (c.encode Constant.encode).pretty

/-- Reads the stored form. -/
def ofText? (text : String) : Option Class := (Json.parse? text).bind (decode Json.maxDepth)

end Class

end Classwright.Code
