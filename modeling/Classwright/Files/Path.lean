import Classwright.Text.Lines

/-!
# Paths

A path keeps its text as the parts between the slashes, empty ones included.
-/

namespace Classwright

abbrev Path := List String

namespace Path

def ofText (text : String) : Path := (Text.splitAt '/' text.toList).map String.ofList

def text (p : Path) : String := String.intercalate "/" p

/-- Whether the text is empty. -/
def isBlank (p : Path) : Bool := p.text.isEmpty

/-- Whether the text starts with a slash. -/
def isAbsolute : Path → Bool
  | "" :: _ :: _ => true
  | _ => false

/-- The second path as seen from the first. -/
def join (base p : Path) : Path :=
  if p.isAbsolute || base.isBlank then p
  else if base.getLast? = some "" then base.dropLast ++ p
  else base ++ p

/-- The path without its last part. A path of one part has the empty parent. -/
def parent (p : Path) : Path :=
  let bare := (p.reverse.dropWhile (·.isEmpty)).reverse
  match (bare.dropLast.reverse.dropWhile (·.isEmpty)).reverse with
  | [] => if bare.length < 2 then [""] else ["", ""]
  | parts => parts

/-- The last part. -/
def fileName (p : Path) : String := ((p.reverse.dropWhile (·.isEmpty)).head?).getD ""

/-- What a file name ends in after its last dot, unless the dot is its first character. -/
def extension? (fileName : String) : Option String :=
  match Text.splitLastDot fileName.toList with
  | (some (_ :: _), ending) => some (String.ofList ending)
  | _ => none

end Path

end Classwright
