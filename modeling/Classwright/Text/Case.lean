import Classwright.Text.CaseTable

/-!
# Upper and lower case of texts

Full mappings, so that one character may become several. In lower case a sigma at the end of a word
has a form of its own.
-/

namespace Classwright

namespace CaseTable

def inRanges (ranges : List (Nat × Nat)) (c : Char) : Bool :=
  ranges.any fun (lo, hi) => lo ≤ c.toNat && c.toNat ≤ hi

/-- Looks a character up among the expansions first, then among the runs. -/
def mapChar (expansions : List (Nat × List Nat)) (runs : List CaseRun) (c : Char) : List Char :=
  match expansions.find? (fun e => e.1 == c.toNat) with
  | some (_, cs) => cs.map Char.ofNat
  | none =>
    match runs.find? (fun r => r.contains c.toNat) with
    | some r => [Char.ofNat (c.toNat + r.shift).toNat]
    | none => [c]

end CaseTable

namespace Text

open CaseTable

def isBlank (c : Char) : Bool := inRanges blank c

/-- Removes white space at both ends. -/
def trim (cs : List Char) : List Char :=
  ((cs.dropWhile isBlank).reverse.dropWhile isBlank).reverse

def toUpper (cs : List Char) : List Char := cs.flatMap (mapChar upperExpansions upperRuns)

/-- Whether the nearest character that is not passed over is a cased letter. -/
def reachesCased (cs : List Char) : Bool :=
  match cs.dropWhile (inRanges ignorable) with
  | [] => false
  | c :: _ => inRanges cased c

/-- `before` holds the characters already passed, nearest first. -/
def toLowerAfter (before : List Char) : List Char → List Char
  | [] => []
  | c :: rest =>
    let mapped :=
      if c = 'Σ' then
        if reachesCased before && !reachesCased rest then ['ς'] else ['σ']
      else mapChar lowerExpansions lowerRuns c
    mapped ++ toLowerAfter (c :: before) rest

def toLower (cs : List Char) : List Char := toLowerAfter [] cs

end Text

end Classwright
