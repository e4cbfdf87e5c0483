import Classwright.Text.Lines

/-!
# Places in a source text

Offsets count bytes of UTF-8 from zero; lines and columns count from one, columns in characters.
-/

namespace Classwright

/-- A stretch of a source, with line and column of its start. -/
structure Span where
  start : Nat
  stop : Nat
  line : Nat
  column : Nat
deriving DecidableEq, Repr

namespace Span

/-- From the start of `s` through `t`. -/
def through (s t : Span) : Span := ⟨s.start, max t.stop s.stop, s.line, s.column⟩

/-- Line and column in the words of 32 bits in which they are told. -/
def place (s : Span) : UInt32 × UInt32 := (.ofNat s.line, .ofNat s.column)

/-- `line:column` of the start. -/
def text (s : Span) : String :=
  toString s.place.1.toNat ++ ":" ++ toString s.place.2.toNat

/-- The line of the source on which the span starts, with its number and a caret below the first
character, each line ended; nothing when the source has no such line. -/
def excerpt (s : Span) (source : String) : String :=
  let (number, column) := s.place
  match (Text.lines source.toList)[number.toNat - 1]? with
  | none => ""
  | some line =>
    "  |\n" ++ Text.padLeft 3 (toString number.toNat) ++ " | " ++ String.ofList line ++ "\n  | "
      ++ String.ofList (List.replicate (column.toNat - 1) ' ') ++ "^\n"

end Span

/-! ### From offsets to lines -/

/-- A source with the offsets at which its lines start. -/
structure LineIndex where
  text : List Char
  starts : Array Nat

namespace LineIndex

/-- The offsets behind the line feeds of a text that starts at `offset`. -/
def startsFrom (offset : Nat) : List Char → List Nat
  | [] => []
  | c :: cs =>
    let next := offset + c.utf8Size
    if c = '\n' then next :: startsFrom next cs else startsFrom next cs

def ofText (text : List Char) : LineIndex := ⟨text, (0 :: startsFrom 0 text).toArray⟩

/-- Looks for an offset in the places from `low` up to `high` of ascending offsets: its place, or
else the place at which it would have to be put in. -/
def search (starts : Array Nat) (offset low high : Nat) : Except Nat Nat :=
  if low < high then
    let middle := low + (high - low) / 2
    match compare (starts[middle]?.getD 0) offset with
    | .eq => .ok middle
    | .lt => search starts offset (middle + 1) high
    | .gt => search starts offset low middle
  else .error low
termination_by high - low
decreasing_by all_goals omega

/-- The number of lines in front of the one on which the offset is. -/
def lineAt (index : LineIndex) (offset : Nat) : Nat :=
  match search index.starts offset 0 index.starts.size with
  | .ok exact => exact
  | .error next => next - 1

/-- The stretch between two offsets. -/
def span (index : LineIndex) (start stop : Nat) : Span :=
  let line := index.lineAt start
  let lineStart := index.starts[line]?.getD 0
  let before := Text.takeBytes (start - lineStart) (Text.dropBytes lineStart index.text)
  ⟨start, stop, line + 1, before.length + 1⟩

end LineIndex

end Classwright
