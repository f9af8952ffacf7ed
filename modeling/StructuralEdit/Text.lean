/-
  StructuralEdit.Text
  ───────────────────
  **SOURCE TEXTS AS UTF-8 BYTES.**

  Every offset of this library counts bytes, so a source text IS its list of
  UTF-8 bytes: cutting is `take` and `drop`, joining is `++`, and no offset
  arithmetic ever needs a decoder.  Characters come back at two places only:

    • `isBoundary` tells the offsets at which a character starts or the text
      ends, and `floorBoundary` goes back to the nearest of them;
    • `decode` reads the characters again, and fails on bytes that are none.
-/

namespace StructuralEdit

/-- A source text: its UTF-8 bytes, in order. -/
abbrev Text := List UInt8

namespace Text

/-! ## §1. Texts and strings. -/

/-- The bytes of a string. -/
def ofString (s : String) : Text :=
  s.toByteArray.data.toList

/-- The string a text encodes, if it encodes one. -/
def decode (t : Text) : Option String :=
  String.fromUTF8? ⟨t.toArray⟩

/-- The string a text encodes; the empty string for bytes that encode none. -/
def toStr (t : Text) : String :=
  t.decode.getD ""

/-- The text is the encoding of some string. -/
def IsUtf8 (t : Text) : Prop :=
  ∃ s : String, t = ofString s

/-! ## §2. Character boundaries. -/

/-- The second, third and fourth bytes of a character: `10xxxxxx`. -/
def isContinuation (b : UInt8) : Bool :=
  b &&& 0xC0 == 0x80

/-- Offset `i` stands before a character, or at the end of the text. -/
def isBoundary (t : Text) (i : Nat) : Bool :=
  if i = 0 then true
  else match t[i]? with
    | some b => !isContinuation b
    | none => i == t.length

/-- The nearest boundary at or before `i`. -/
def floorBoundary (t : Text) : Nat → Nat
  | 0 => 0
  | i + 1 => if t.isBoundary (i + 1) then i + 1 else t.floorBoundary i

/-! ## §3. Pieces of a text. -/

/-- The bytes from offset `start` up to, not including, offset `stop`. -/
def slice (t : Text) (start stop : Nat) : Text :=
  (t.drop start).take (stop - start)

/-- The text with `[start, stop)` replaced by `new`. -/
def replaceRange (t : Text) (start stop : Nat) (new : Text) : Text :=
  t.take start ++ new ++ t.drop stop

/-- Some stretch of the text reads `needle`. -/
def hasInfix (needle : Text) : Text → Bool
  | [] => needle.isEmpty
  | b :: t => needle.isPrefixOf (b :: t) || hasInfix needle t

/-- The line feed byte. -/
def newline : UInt8 := 10

/-- A line without the carriage return that ends it. -/
def dropReturn (line : Text) : Text :=
  if line.getLast? == some 13 then line.dropLast else line

/-- The lines of a text; `line` holds the bytes of the line that is being read,
the last byte first. -/
def linesFrom (line : Text) : Text → List Text
  | [] => if line.isEmpty then [] else [line.reverse]
  | b :: t =>
      if b == newline then dropReturn line.reverse :: linesFrom [] t else linesFrom (b :: line) t

/-- The lines of a text, without the line feeds that end them and without a
carriage return before such a line feed. -/
def lines (t : Text) : List Text :=
  linesFrom [] t

/-- The first line. -/
def firstLine (t : Text) : Text :=
  t.lines.head?.getD []

end Text

end StructuralEdit
