/-
  StructuralEdit.Point
  ────────────────────
  **ROWS AND COLUMNS OF BYTE OFFSETS.**

  A point is a zero-based row and a column counted in BYTES since the last
  line feed.  `Text.pointAt` reads both off the bytes before the offset; an
  offset beyond the text gives the point of its end.
-/
import StructuralEdit.Text

namespace StructuralEdit

/-- A zero-based row and byte column. -/
structure Point where
  row : Nat
  column : Nat
  deriving DecidableEq, Repr

/-- The point reached from the start of a text by reading all of it. -/
def Text.endPoint (t : Text) : Point :=
  { row := t.count Text.newline
    column := (t.reverse.takeWhile (· != Text.newline)).length }

/-- The point of a byte offset. -/
def Text.pointAt (t : Text) (offset : Nat) : Point :=
  Text.endPoint (t.take offset)

end StructuralEdit
