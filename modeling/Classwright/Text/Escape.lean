import Classwright.Text.Lines

/-!
# Escapes in literals

`unescape` decodes the body of a string or character literal and `escape` writes a character so that
only printable ASCII is left.
-/

namespace Classwright.Text

def hexValue (c : Char) : Option Nat :=
  if '0' ≤ c && c ≤ '9' then some (c.toNat - '0'.toNat)
  else if 'a' ≤ c && c ≤ 'f' then some (c.toNat - 'a'.toNat + 10)
  else if 'A' ≤ c && c ≤ 'F' then some (c.toNat - 'A'.toNat + 10)
  else none

/-- Value of a numeral of hexadecimal digits, which must not be empty. -/
def hexNumeral : List Char → Option Nat
  | [] => none
  | cs => cs.foldl (fun acc c => do return 16 * (← acc) + (← hexValue c)) (some 0)

/-- Code of the four characters after `\u`: a hexadecimal numeral, which may start with a plus. -/
def unicodeCode (cs : List Char) : Option Nat :=
  if cs.length = 4 then
    match cs with
    | '+' :: ds => hexNumeral ds
    | ds => hexNumeral ds
  else none

/-- The character with this code, if the code is that of a character. -/
def charOfCode? (n : Nat) : Option Char :=
  if n.isValidChar then some (Char.ofNat n) else none

/-- The character that a backslash and `c` stand for. -/
def simpleEscape (c : Char) : Option Char :=
  match c with
  | 'n' => some '\n'
  | 't' => some '\t'
  | 'r' => some '\r'
  | 'b' => some '\x08'
  | 'f' => some '\x0c'
  | '0' => some '\x00'
  | '\\' => some '\\'
  | '"' => some '"'
  | '\x27' => some '\x27'
  | _ => none

/-- Decodes the escapes of a literal's body; the error is the first escape that is none. -/
def unescape : List Char → Except (List Char) (List Char)
  | [] => .ok []
  | '\\' :: 'u' :: cs =>
    match (unicodeCode (cs.take 4)).bind charOfCode? with
    | some c => (unescape (cs.drop 4)).map (c :: ·)
    | none => .error ('\\' :: 'u' :: cs.take 4)
  | '\\' :: e :: cs =>
    match simpleEscape e with
    | some c => (unescape cs).map (c :: ·)
    | none => .error ['\\', e]
  | c :: cs => (unescape cs).map (c :: ·)
termination_by cs => cs.length

/-- A character as it is shown between quotes: printable ASCII as itself, others as escapes. -/
def escapeChar (c : Char) : List Char :=
  match c with
  | '\t' => ['\\', 't']
  | '\r' => ['\\', 'r']
  | '\n' => ['\\', 'n']
  | '\x27' => ['\\', '\x27']
  | '"' => ['\\', '"']
  | '\\' => ['\\', '\\']
  | _ =>
    if 0x20 ≤ c.toNat && c.toNat ≤ 0x7e then [c]
    else "\\u\x7b".toList ++ (hexDigits c.toNat).toList ++ ['\x7d']

def escape (cs : List Char) : List Char := cs.flatMap escapeChar

end Classwright.Text
