import Classwright.Json.Basic

/-!
# Writing JSON

The pretty form has two blanks of indentation a level and a blank behind each colon; empty lists
and objects stay on one line. The compact form has no white space at all.
-/

namespace Classwright.Json

/-- A character inside quotes: quotes, backslashes and control characters are escaped. -/
def quoteChar (c : Char) : List Char :=
  match c with
  | '"' => ['\\', '"']
  | '\\' => ['\\', '\\']
  | '\x08' => ['\\', 'b']
  | '\x0c' => ['\\', 'f']
  | '\n' => ['\\', 'n']
  | '\r' => ['\\', 'r']
  | '\t' => ['\\', 't']
  | _ =>
    if c.toNat < 0x20 then
      ['\\', 'u', '0', '0', Nat.digitChar (c.toNat / 16), Nat.digitChar (c.toNat % 16)]
    else [c]

def quote (cs : List Char) : List Char := '"' :: cs.flatMap quoteChar ++ ['"']

def quoted (s : Option String) : List Char := quote (s.getD "").toList

/-- Line feed and indentation of a level. -/
def newline (depth : Nat) : List Char := '\n' :: List.replicate (2 * depth) ' '

mutual

/-- The pretty form of a value that stands at the given level, in front of `rest`. -/
def prettyBefore (depth : Nat) (rest : List Char) : Json → List Char
  | null => "null".toList ++ rest
  | bool b => (if b then "true" else "false").toList ++ rest
  | number n => n.chars ++ rest
  | string s => quoted s ++ rest
  | array [] => '[' :: ']' :: rest
  | array items => '[' :: prettyItems (depth + 1) (newline depth ++ ']' :: rest) items
  | object [] => '{' :: '}' :: rest
  | object fields => '{' :: prettyFields (depth + 1) (newline depth ++ '}' :: rest) fields

def prettyItems (depth : Nat) (rest : List Char) : List Json → List Char
  | [] => rest
  | [last] => newline depth ++ prettyBefore depth rest last
  | item :: items => newline depth ++ prettyBefore depth (',' :: prettyItems depth rest items) item

def prettyFields (depth : Nat) (rest : List Char) : List (Option String × Json) → List Char
  | [] => rest
  | [(k, v)] => newline depth ++ quoted k ++ ':' :: ' ' :: prettyBefore depth rest v
  | (k, v) :: fields =>
    newline depth ++ quoted k
      ++ ':' :: ' ' :: prettyBefore depth (',' :: prettyFields depth rest fields) v

end

def pretty (j : Json) : String := String.ofList (prettyBefore 0 [] j)

mutual

/-- The compact form of a value in front of `rest`. -/
def compactBefore (rest : List Char) : Json → List Char
  | null => "null".toList ++ rest
  | bool b => (if b then "true" else "false").toList ++ rest
  | number n => n.chars ++ rest
  | string s => quoted s ++ rest
  | array items => '[' :: compactItems (']' :: rest) items
  | object fields => '{' :: compactFields ('}' :: rest) fields

def compactItems (rest : List Char) : List Json → List Char
  | [] => rest
  | [last] => compactBefore rest last
  | item :: items => compactBefore (',' :: compactItems rest items) item

def compactFields (rest : List Char) : List (Option String × Json) → List Char
  | [] => rest
  | [(k, v)] => quoted k ++ ':' :: compactBefore rest v
  | (k, v) :: fields => quoted k ++ ':' :: compactBefore (',' :: compactFields rest fields) v

end

def compact (j : Json) : String := String.ofList (compactBefore [] j)

end Classwright.Json
