import Classwright.Toml.Scalar

/-!
# TOML documents

A document is a table of values. Tables come to be by headers, by dotted keys, or along the path of
either, and how a table came to be decides what may still be added to it.
-/

namespace Classwright.Toml

inductive TableKind
  /-- Written in braces; complete. -/
  | inline
  /-- Opened by a header of its own. -/
  | header
  /-- On the path of a header. -/
  | implied
  /-- On the path of a dotted key. -/
  | dotted
deriving DecidableEq, Repr

inductive Node
  | scalar (value : Scalar)
  | array (items : List Node)
  | table (kind : TableKind) (fields : List (String × Node))
  /-- Tables that repeated headers have opened. -/
  | tables (items : List (List (String × Node)))

abbrev Fields := List (String × Node)

namespace Fields

def find (fields : Fields) (key : String) : Option Node := (fields.find? (·.1 == key)).map (·.2)

/-- Puts a value in place of the one of the key, or at the end. -/
def put (fields : Fields) (key : String) (value : Node) : Fields :=
  if (fields.find key).isSome then
    fields.map fun (k, old) => if k == key then (k, value) else (k, old)
  else fields ++ [(key, value)]

/-- Applies a change to the last of some tables. -/
def changeLast (change : Fields → Option Fields) (items : List Fields) : Option (List Fields) :=
  match items.getLast? with
  | none => none
  | some last => (change last).map fun last => items.dropLast ++ [last]

/-- Adds the value of a dotted key. Only tables that dotted keys have made can be added to by such
keys. -/
def insert (key : String) (value : Node) : List String → Fields → Option Fields
  | [], fields => if (fields.find key).isSome then none else some (fields ++ [(key, value)])
  | p :: ps, fields =>
    match fields.find p with
    | none => (insert key value ps []).map fun sub => fields.put p (.table .dotted sub)
    | some (.table .dotted sub) =>
      (insert key value ps sub).map fun sub => fields.put p (.table .dotted sub)
    | some (.table .implied sub) =>
      if ps.isEmpty then none
      else (insert key value ps sub).map fun sub => fields.put p (.table .implied sub)
    | some (.tables items) =>
      if ps.isEmpty then none
      else (changeLast (insert key value ps) items).map fun items => fields.put p (.tables items)
    | some _ => none

/-- Opens a table by its header; `repeated` tells whether the header may come again. -/
def openTable (repeated : Bool) : List String → Fields → Option Fields
  | [], _ => none
  | [key], fields =>
    match fields.find key, repeated with
    | none, false => some (fields.put key (.table .header []))
    | some (.table .implied sub), false => some (fields.put key (.table .header sub))
    | none, true => some (fields.put key (.tables [[]]))
    | some (.tables items), true => some (fields.put key (.tables (items ++ [[]])))
    | _, _ => none
  | p :: ps, fields =>
    match fields.find p with
    | none => (openTable repeated ps []).map fun sub => fields.put p (.table .implied sub)
    | some (.table .inline _) => none
    | some (.table kind sub) =>
      (openTable repeated ps sub).map fun sub => fields.put p (.table kind sub)
    | some (.tables items) =>
      (changeLast (openTable repeated ps) items).map fun items => fields.put p (.tables items)
    | some _ => none

/-- Applies a change to the table that a header has opened last. -/
def changeAt (change : Fields → Option Fields) : List String → Fields → Option Fields
  | [], fields => change fields
  | p :: ps, fields =>
    match fields.find p with
    | some (.table kind sub) =>
      (changeAt change ps sub).map fun sub => fields.put p (.table kind sub)
    | some (.tables items) =>
      (changeLast (changeAt change ps) items).map fun items => fields.put p (.tables items)
    | _ => none

end Fields

/-! ## Reading -/

/-- The rest after a comment, which reaches to the end of its line. -/
def comment? (cs : List Char) : Option (List Char) :=
  let rest := cs.dropWhile fun c => !isControl c
  if rest.isEmpty || (lineEnd? rest).isSome then some rest else none

/-- The rest after white space, line ends and comments. -/
def skipGaps : Nat → List Char → Option (List Char)
  | 0, _ => none
  | fuel + 1, cs =>
    match skipSpace cs with
    | '#' :: cs => (comment? cs).bind (skipGaps fuel)
    | cs =>
      match lineEnd? cs with
      | some rest => skipGaps fuel rest
      | none => some cs

def isBareKeyChar (c : Char) : Bool :=
  isDigit c || ('a' ≤ c && c ≤ 'z') || ('A' ≤ c && c ≤ 'Z') || c == '_' || c == '-'

def key (cs : List Char) : Option (String × List Char) :=
  match quoted cs with
  | some read => some read
  | none =>
    let bare := cs.takeWhile isBareKeyChar
    if bare.isEmpty then none else some (String.ofList bare, cs.drop bare.length)

/-- A key of one or more parts between dots, and the blanks after it. -/
def keyPath : Nat → List Char → Option (List String × List Char)
  | 0, _ => none
  | fuel + 1, cs => do
    let (k, rest) ← key cs
    match skipSpace rest with
    | '.' :: rest => do
      let (ks, rest) ← keyPath fuel (skipSpace rest)
      return (k :: ks, rest)
    | rest => return ([k], rest)

mutual

/-- A value; the fuel is at least the length of the text. -/
def value : Nat → List Char → Option (Node × List Char)
  | 0, _ => none
  | fuel + 1, cs =>
    match cs with
    | '[' :: cs => do
      let (items, rest) ← items fuel (← skipGaps (cs.length + 1) cs)
      return (.array items, rest)
    | '{' :: cs =>
      match skipSpace cs with
      | '}' :: rest => some (.table .inline [], rest)
      | cs => do
        let (fields, rest) ← pairs fuel [] cs
        return (.table .inline fields, rest)
    | cs => (scalar cs).map fun (s, rest) => (.scalar s, rest)

/-- The items of a list and its closing bracket. -/
def items : Nat → List Char → Option (List Node × List Char)
  | 0, _ => none
  | _ + 1, ']' :: rest => some ([], rest)
  | fuel + 1, cs => do
    let (v, rest) ← value fuel cs
    match ← skipGaps (rest.length + 1) rest with
    | ',' :: rest => do
      let (vs, rest) ← items fuel (← skipGaps (rest.length + 1) rest)
      return (v :: vs, rest)
    | ']' :: rest => return ([v], rest)
    | _ => none

/-- The pairs of an inline table and its closing brace. -/
def pairs : Nat → Fields → List Char → Option (Fields × List Char)
  | 0, _, _ => none
  | fuel + 1, fields, cs => do
    let ((path, v), rest) ← pair fuel cs
    let fields ← fields.insert (path.getLast?.getD "") v path.dropLast
    match skipSpace rest with
    | ',' :: rest => pairs fuel fields (skipSpace rest)
    | '}' :: rest => return (fields, rest)
    | _ => none

/-- A key with its value. -/
def pair : Nat → List Char → Option ((List String × Node) × List Char)
  | 0, _ => none
  | fuel + 1, cs => do
    let (path, rest) ← keyPath (cs.length + 1) cs
    let '=' :: rest := rest | none
    let (v, rest) ← value fuel (skipSpace rest)
    return ((path, v), rest)

end

/-- The rest after the end of a line, before which a comment may stand. -/
def endOfLine? (cs : List Char) : Option (List Char) :=
  match skipSpace cs with
  | '#' :: cs => (comment? cs).map fun rest => (lineEnd? rest).getD []
  | [] => some []
  | cs => lineEnd? cs

/-- The header of a table or of one of several tables, after its first bracket. -/
def header (cs : List Char) : Option ((Bool × List String) × List Char) := do
  match cs with
  | '[' :: cs =>
    let (path, rest) ← keyPath (cs.length + 1) (skipSpace cs)
    let ']' :: ']' :: rest := rest | none
    return ((true, path), rest)
  | cs =>
    let (path, rest) ← keyPath (cs.length + 1) (skipSpace cs)
    let ']' :: rest := rest | none
    return ((false, path), rest)

/-- Reads line after line into the table under the last header. -/
def lines : Nat → Fields → List String → List Char → Option Fields
  | 0, _, _, _ => none
  | fuel + 1, root, place, cs =>
    match skipSpace cs with
    | [] => some root
    | '#' :: cs => do lines fuel root place (← endOfLine? ('#' :: cs))
    | '[' :: cs => do
      let ((repeated, path), rest) ← header cs
      lines fuel (← root.openTable repeated path) path (← endOfLine? rest)
    | cs =>
      match lineEnd? cs with
      | some rest => lines fuel root place rest
      | none => do
        let ((path, v), rest) ← pair (cs.length + 1) cs
        let root ← root.changeAt (Fields.insert (path.getLast?.getD "") v path.dropLast) place
        lines fuel root place (← endOfLine? rest)

/-- The table that a text stands for. -/
def parse? (text : String) : Option Fields :=
  let cs := match text.toList with
    | '\ufeff' :: cs => cs
    | cs => cs
  lines (cs.length + 1) [] [] cs

end Classwright.Toml
