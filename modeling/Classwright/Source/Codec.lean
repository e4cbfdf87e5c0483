import Classwright.Json.Exact
import Classwright.Source.Cursor
import Classwright.Source.Tree

/-!
# Tokens, trees and errors as documents

What reading a source finds out, for tools that go on from there. A node of a tree is an object
with its kind, its parts and the stretch of source it came from; parts that were not written are
`null`.
-/

namespace Classwright

def Span.encode (s : Span) : Json :=
  .array [.nat s.start, .nat s.stop, .nat s.place.1.toNat, .nat s.place.2.toNat]

namespace Symbol

def kind : Symbol → String
  | leftParen => "LeftParen"
  | rightParen => "RightParen"
  | leftBrace => "LeftBrace"
  | rightBrace => "RightBrace"
  | leftBracket => "LeftBracket"
  | rightBracket => "RightBracket"
  | semicolon => "Semicolon"
  | comma => "Comma"
  | dot => "Dot"
  | equal => "Equal"
  | plusEqual => "PlusEqual"
  | minusEqual => "MinusEqual"
  | starEqual => "StarEqual"
  | slashEqual => "SlashEqual"
  | percentEqual => "PercentEqual"
  | equalEqual => "EqualEqual"
  | bangEqual => "BangEqual"
  | less => "Less"
  | lessEqual => "LessEqual"
  | greater => "Greater"
  | greaterEqual => "GreaterEqual"
  | plus => "Plus"
  | minus => "Minus"
  | star => "Star"
  | slash => "Slash"
  | percent => "Percent"
  | bang => "Bang"
  | ampAmp => "AmpAmp"
  | pipePipe => "PipePipe"
  | question => "Question"
  | colon => "Colon"

end Symbol

namespace Token

/-- Keywords are kinds of their own. -/
def kind : Token → String
  | keyword word => word.text.capitalize
  | primitive _ => "Primitive"
  | int _ => "IntLiteral"
  | long _ => "LongLiteral"
  | float _ => "FloatLiteral"
  | double _ => "DoubleLiteral"
  | char _ => "CharLiteral"
  | string _ => "StringLiteral"
  | identifier _ => "Identifier"
  | symbol sign => sign.kind

/-- What a token says beyond its kind. -/
def payload : Token → Json
  | primitive kind => .str kind.keyword
  | int value => .str (toString value)
  | long value => .exactLong value
  | float value => .exactBinary value
  | double value => .exactBinary value
  | char value => .char value
  | string value => .str value
  | identifier name => .str name
  | _ => .null

end Token

/-- Kind, payload and text of a token, and its place. -/
def encodeLexeme (kind : String) (payload : Json) (text : String) (s : Span) : Json :=
  .array [.str kind, payload, .str text, .nat s.start, .nat s.stop, .nat s.place.1.toNat,
    .nat s.place.2.toNat]

def Lexeme.encode (l : Lexeme) : Json :=
  encodeLexeme l.token.kind l.token.payload l.token.text l.span

/-- The end of a source stands behind its tokens. -/
def encodeEnd (s : Span) : Json := encodeLexeme "Eof" .null "end of file" s

def Lexed.encode (l : Lexed) : Json :=
  .array (l.tokens.map Lexeme.encode ++ [encodeEnd l.finish])

def LexCause.kind : LexCause → String
  | unexpectedCharacter _ => "UnexpectedCharacter"
  | unterminatedString => "UnterminatedString"
  | unterminatedComment => "UnterminatedComment"
  | invalidNumber _ => "InvalidNumber"
  | invalidEscape _ => "InvalidEscape"
  | invalidCharacter _ => "InvalidCharLiteral"

def LexError.encode (source : String) (e : LexError) : Json :=
  .record [("kind", .str e.cause.kind), ("s", e.span.encode), ("display", .str e.message),
    ("hint", .optional .str e.hint?), ("formatted", .str (e.report source))]

namespace Source

/-- The current token, or the end. -/
def Cursor.encode (c : Cursor) : Json :=
  match c.rest with
  | [] => encodeEnd c.finish
  | l :: _ => l.encode

namespace SyntaxCause

def kind : SyntaxCause → String
  | unexpected _ _ => "UnexpectedToken"
  | unexpectedEnd _ => "UnexpectedEof"
  | numberTooLarge _ => "InvalidNumber"
  | _ => "InvalidSyntax"

def expected? : SyntaxCause → Option (List Token)
  | unexpected expected _ | unexpectedEnd expected => some expected
  | _ => none

def found? : SyntaxCause → Option Token
  | unexpected _ found => some found
  | _ => none

end SyntaxCause

def SyntaxError.encode (e : SyntaxError) : Json :=
  .record [("kind", .str e.cause.kind),
    ("expected", .optional (fun ts => .texts (ts.map Token.text)) e.cause.expected?),
    ("found", .optional (fun t => .str t.text) e.cause.found?), ("s", e.span.encode),
    ("message", .str e.message), ("suggestion", .optional .str (e.suggestion.map Suggestion.text)),
    ("display", .str e.report)]

def node (kind : String) (s : Span) (parts : List (String × Json)) : Json :=
  .record (("k", .str kind) :: parts ++ [("s", s.encode)])

def TypeName.encode (t : TypeName) : Json :=
  .record [("name", .str t.name), ("dims", .nat t.dims), ("s", t.span.encode)]

def Literal.encode (s : Span) : Literal → Json
  | int v => node "int" s [("v", .int v.toInt)]
  | long v => node "long" s [("v", .exactLong v)]
  | float v => node "float" s [("v", .exactBinary v)]
  | double v => node "double" s [("v", .exactBinary v)]
  | char c => node "char" s [("v", .char c)]
  | string v => node "string" s [("v", .str v)]
  | bool b => node "bool" s [("v", .bool b)]
  | null => node "null" s [("v", .null)]

def signText : SignOp → String
  | .negate => "-"
  | .plus => "+"
  | .not => "!"

namespace Expr

mutual

def encode : Expr → Json
  | literal v s => v.encode s
  | name n s => node "name" s [("name", .str n)]
  | this s => node "this" s []
  | access t n s => node "access" s [("target", t.encode), ("name", .str n)]
  | call t n args s =>
    node "call" s [("target", t.encode), ("name", .str n), ("args", .array (encodeList args))]
  | ownCall n args s =>
    node "call" s [("target", .null), ("name", .str n), ("args", .array (encodeList args))]
  | superCall n args s =>
    node "supercall" s [("name", .str n), ("args", .array (encodeList args))]
  | unary op e s => node "unary" s [("op", .str (signText op)), ("e", e.encode)]
  | binary op l r s => node "binary" s [("op", .str op.text), ("l", l.encode), ("r", r.encode)]
  | logical op l r s => node "logical" s [("op", .str op.text), ("l", l.encode), ("r", r.encode)]
  | assign op t v s =>
    node "assign" s [("op", .str ((op.map BinaryOp.text).getD "" ++ "=")), ("target", t.encode),
      ("value", v.encode)]
  | conditional c t e s =>
    node "conditional" s [("cond", c.encode), ("then", t.encode), ("else", e.encode)]
  | cast t e s => node "cast" s [("type", t.encode), ("e", e.encode)]

def encodeList : List Expr → List Json
  | [] => []
  | e :: es => e.encode :: encodeList es

end

end Expr

namespace Stmt

mutual

def encode : Stmt → Json
  | block body s => node "block" s [("body", .array (encodeList body))]
  | declare t n init s =>
    node "local" s [("type", t.encode), ("name", .str n), ("init", .optional Expr.encode init)]
  | ret v s => node "return" s [("value", .optional Expr.encode v)]
  | ifThen c t s => node "if" s [("cond", c.encode), ("then", t.encode), ("else", .null)]
  | ifElse c t e s => node "if" s [("cond", c.encode), ("then", t.encode), ("else", e.encode)]
  | loop c b s => node "while" s [("cond", c.encode), ("body", b.encode)]
  | throw v s => node "throw" s [("value", v.encode)]
  | expr e => node "expr" e.span [("value", e.encode)]
  | empty s => node "empty" s []

def encodeList : List Stmt → List Json
  | [] => []
  | s :: ss => s.encode :: encodeList ss

end

end Stmt

def Block.encode (b : Block) : Json := (Stmt.block b.statements b.span).encode

def Modifiers.encode (m : Modifiers) : Json :=
  .array [.optional .str (m.visibility.bind Visibility.keyword?), .bool m.isStatic, .bool m.isFinal]

def Param.encode (p : Param) : Json :=
  .record [("type", p.type.encode), ("name", .str p.name), ("s", p.span.encode)]

def Member.encode : Member → Json
  | field d =>
    node "field" d.span [("modifiers", d.modifiers.encode), ("type", d.type.encode),
      ("name", .str d.name), ("init", .optional Expr.encode d.init)]
  | method d =>
    node "method" d.span [("modifiers", d.modifiers.encode),
      ("returns", .optional TypeName.encode d.returnType), ("name", .str d.name),
      ("params", .array (d.params.map Param.encode)),
      ("throws", .array (d.throws.map TypeName.encode)), ("body", d.body.encode)]
  | constructor d =>
    node "constructor" d.span [("modifiers", d.modifiers.encode), ("name", .str d.name),
      ("params", .array (d.params.map Param.encode)), ("body", d.body.encode)]

def Import.encode (i : Import) : Json :=
  .record [("path", .str i.path), ("s", i.span.encode)]

def CompilationUnit.encode (u : CompilationUnit) : Json :=
  .record [("imports", .array (u.imports.map Import.encode)),
    ("modifiers", u.decl.modifiers.encode), ("name", .str u.decl.name),
    ("extends", .optional TypeName.encode u.decl.superclass),
    ("implements", .array (u.decl.interfaces.map TypeName.encode)),
    ("members", .array (u.decl.members.map Member.encode)), ("s", u.decl.span.encode)]

end Source

end Classwright
