import Classwright.Json.Exact
import Classwright.Machine.Value

/-!
# Values as documents

What a running program holds, as seen from outside: types, methods, handlers and objects are shown
by name and number only.
-/

namespace Classwright.Value

mutual

def encode : Value → Json
  | null => .null
  | bool b => .bool b
  | byte v => .record [("byte", .int v.toInt)]
  | short v => .record [("short", .int v.toInt)]
  | char c => .record [("char", .char c)]
  | int v => .record [("int", .int v.toInt)]
  | long v => .record [("long", .exactLong v)]
  | float v => .record [("float", .exactBinary v)]
  | double v => .record [("double", .exactBinary v)]
  | str s => .str s
  | object o => .record [("object", .str o.cls.code.name), ("id", .nat o.id)]
  | type d => .record [("class", .str d.name)]
  | method m => .record [("method", .str m.signature)]
  | handler _ => .record [("handler", .bool true)]
  | array vs => .record [("array", .array (encodeList vs))]

def encodeList : List Value → List Json
  | [] => []
  | v :: vs => v.encode :: encodeList vs

end

end Classwright.Value
