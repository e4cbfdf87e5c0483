/-!
# Measures and lines of texts

A text is measured in bytes of its UTF-8 form for positions, in characters for columns and in
UTF-16 units for its length as a value.
-/

namespace Classwright.Text

/-- The characters of a text. One whose characters have a byte each is read byte by byte. -/
def chars (s : String) : List Char :=
  let bytes := s.toByteArray.data.toList
  if bytes.all (· < 128) then bytes.map fun b => Char.ofNat b.toNat else s.toList

/-- Bytes of the UTF-8 form. -/
def byteSize (cs : List Char) : Nat := cs.foldr (fun c size => c.utf8Size + size) 0

/-- The characters that start within so many bytes. -/
def takeBytes : Nat → List Char → List Char
  | 0, _ | _, [] => []
  | n + 1, c :: cs => c :: takeBytes (n + 1 - c.utf8Size) cs

/-- The characters behind those. -/
def dropBytes : Nat → List Char → List Char
  | 0, cs => cs
  | _, [] => []
  | n + 1, c :: cs => dropBytes (n + 1 - c.utf8Size) cs

/-- The UTF-16 units of one character. -/
def units16 (c : Char) : List Nat :=
  if c.toNat < 0x10000 then [c.toNat]
  else [0xD800 + (c.toNat - 0x10000) / 0x400, 0xDC00 + (c.toNat - 0x10000) % 0x400]

/-- Splits at each separator; the parts are never fewer than one. -/
def splitAt (sep : Char) : List Char → List (List Char)
  | [] => [[]]
  | c :: cs =>
    if c = sep then [] :: splitAt sep cs
    else match splitAt sep cs with
      | [] => [[c]]
      | part :: parts => (c :: part) :: parts

def dropReturn (line : List Char) : List Char :=
  if line.getLast? = some '\r' then line.dropLast else line

/-- The lines of a text. Each ends at a line feed, which a carriage return may precede; after the
last line feed there is a line only if something stands there, and that one keeps its carriage
return. -/
def lines (cs : List Char) : List (List Char) :=
  let parts := splitAt '\n' cs
  let last := parts.getLast?.getD []
  parts.dropLast.map dropReturn ++ (if last.isEmpty then [] else [last])

/-- Whether `needle` occurs in the text. -/
def occursIn (needle : List Char) : List Char → Bool
  | [] => needle.isEmpty
  | c :: cs => needle.isPrefixOf (c :: cs) || occursIn needle cs

/-- The part before the last dot, if there is a dot, and the part after it. -/
def splitLastDot (cs : List Char) : Option (List Char) × List Char :=
  let parts := splitAt '.' cs
  let last := parts.getLast?.getD []
  (if parts.length = 1 then none else some (cs.take (cs.length - last.length - 1)), last)

def hexDigits (n : Nat) : String := String.ofList (Nat.toDigits 16 n)

/-- Pads with blanks on the left to `width` characters. -/
def padLeft (width : Nat) (s : String) : String :=
  String.ofList (List.replicate (width - s.length) ' ') ++ s

end Classwright.Text
