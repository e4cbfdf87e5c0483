import Classwright.Number.Shortest
import Classwright.Text.Escape
import Classwright.Type.Primitive

/-!
# Tokens

The words and signs of the class language.
-/

namespace Classwright

inductive Keyword
  | import_
  | class_
  | extends_
  | implements
  | public_
  | protected_
  | private_
  | static
  | final
  | void
  | return_
  | if_
  | else_
  | while_
  | throw
  | throws
  | this
  | super
  | true_
  | false_
  | null
deriving DecidableEq, Repr

namespace Keyword

def all : List Keyword :=
  [import_, class_, extends_, implements, public_, protected_, private_, static, final, void,
    return_, if_, else_, while_, throw, throws, this, super, true_, false_, null]

def text : Keyword → String
  | import_ => "import"
  | class_ => "class"
  | extends_ => "extends"
  | implements => "implements"
  | public_ => "public"
  | protected_ => "protected"
  | private_ => "private"
  | static => "static"
  | final => "final"
  | void => "void"
  | return_ => "return"
  | if_ => "if"
  | else_ => "else"
  | while_ => "while"
  | throw => "throw"
  | throws => "throws"
  | this => "this"
  | super => "super"
  | true_ => "true"
  | false_ => "false"
  | null => "null"

end Keyword

/-- Brackets, separators and operators. -/
inductive Symbol
  | leftParen
  | rightParen
  | leftBrace
  | rightBrace
  | leftBracket
  | rightBracket
  | semicolon
  | comma
  | dot
  | equal
  | plusEqual
  | minusEqual
  | starEqual
  | slashEqual
  | percentEqual
  | equalEqual
  | bangEqual
  | less
  | lessEqual
  | greater
  | greaterEqual
  | plus
  | minus
  | star
  | slash
  | percent
  | bang
  | ampAmp
  | pipePipe
  | question
  | colon
deriving DecidableEq, Repr

namespace Symbol

def all : List Symbol :=
  [leftParen, rightParen, leftBrace, rightBrace, leftBracket, rightBracket, semicolon, comma, dot,
    equal, plusEqual, minusEqual, starEqual, slashEqual, percentEqual, equalEqual, bangEqual, less,
    lessEqual, greater, greaterEqual, plus, minus, star, slash, percent, bang, ampAmp, pipePipe,
    question, colon]

def chars : Symbol → List Char
  | leftParen => ['(']
  | rightParen => [')']
  | leftBrace => ['{']
  | rightBrace => ['}']
  | leftBracket => ['[']
  | rightBracket => [']']
  | semicolon => [';']
  | comma => [',']
  | dot => ['.']
  | equal => ['=']
  | plusEqual => ['+', '=']
  | minusEqual => ['-', '=']
  | starEqual => ['*', '=']
  | slashEqual => ['/', '=']
  | percentEqual => ['%', '=']
  | equalEqual => ['=', '=']
  | bangEqual => ['!', '=']
  | less => ['<']
  | lessEqual => ['<', '=']
  | greater => ['>']
  | greaterEqual => ['>', '=']
  | plus => ['+']
  | minus => ['-']
  | star => ['*']
  | slash => ['/']
  | percent => ['%']
  | bang => ['!']
  | ampAmp => ['&', '&']
  | pipePipe => ['|', '|']
  | question => ['?']
  | colon => [':']

def text (s : Symbol) : String := String.ofList s.chars

end Symbol

/-- A token. An `int` literal may be one larger than any `int`, for a minus sign in front. -/
inductive Token
  | keyword (word : Keyword)
  | primitive (kind : Primitive)
  | int (value : Nat)
  | long (value : Int64)
  | float (value : Binary32)
  | double (value : Binary64)
  | char (value : Char)
  | string (value : String)
  | identifier (name : String)
  | symbol (sign : Symbol)
deriving DecidableEq

namespace Token

/-- The token as messages quote it. -/
def text : Token → String
  | keyword word => word.text
  | primitive kind => kind.keyword
  | int value => toString value
  | long value => toString value.toInt ++ "L"
  | float value => value.plainText ++ "f"
  | double value => value.plainText
  | char value => "'" ++ String.ofList (Text.escapeChar value) ++ "'"
  | string value => "\"" ++ String.ofList (Text.escape value.toList) ++ "\""
  | identifier name => name
  | symbol sign => sign.text

def isIdentifier : Token → Bool
  | identifier _ => true
  | _ => false

/-- Whether the token is a literal or a literal keyword. -/
def isLiteral : Token → Bool
  | int _ | long _ | float _ | double _ | char _ | string _ => true
  | keyword .true_ | keyword .false_ | keyword .null => true
  | _ => false

end Token

end Classwright
