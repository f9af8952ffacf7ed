/-
  StructuralEdit.Edit
  ───────────────────
  **PENDING EDITS.**

  An edit replaces the bytes `[pos, stop)` by new bytes: an insertion has
  `pos = stop`, a removal has no new bytes.  Offsets are those of the text the
  edit will be spliced into.

  What can be wrong with an edit is one of three causes: it was built with
  `stop < pos`, it ends beyond the text, or one of its ends cuts a character.
  `Edit.check` tests the last two, the end of the text first and `pos` before
  `stop`.
-/
import StructuralEdit.Text

namespace StructuralEdit

/-- Replace `[pos, stop)` by `newText`. -/
structure Edit where
  pos : Nat
  stop : Nat
  newText : Text
  deriving DecidableEq, Repr

/-- Why an edit cannot be built or cannot be spliced into a text. -/
inductive EditError where
  /-- The range ends before it starts. -/
  | inverted (pos stop : Nat)
  /-- The range ends beyond the text. -/
  | outOfBounds (pos stop size : Nat)
  /-- The offset lies inside a character. -/
  | insideCharacter (offset : Nat)
  deriving DecidableEq, Repr

/-- The wording of an edit error. -/
def EditError.message : EditError → String
  | .inverted pos stop => s!"Inverted byte range: [{pos}, {stop})"
  | .outOfBounds pos stop size =>
      s!"Invalid byte range: [{pos}, {stop}) in text of length {size}"
  | .insideCharacter offset =>
      s!"Byte offset {offset} is not on a UTF-8 character boundary"

namespace Edit

/-- The edit that puts `newText` in place of `[pos, stop)`. -/
def replacing (pos stop : Nat) (newText : Text) : Except EditError Edit :=
  if stop < pos then .error (.inverted pos stop) else .ok ⟨pos, stop, newText⟩

/-- The edit that deletes `[pos, stop)`. -/
def deleting (pos stop : Nat) : Except EditError Edit :=
  replacing pos stop []

/-- The edit that puts `newText` before offset `at`. -/
def inserting (offset : Nat) (newText : Text) : Edit :=
  ⟨offset, offset, newText⟩

/-- The edit can be spliced into `t`. -/
def check (t : Text) (e : Edit) : Except EditError Unit :=
  if t.length < e.stop then .error (.outOfBounds e.pos e.stop t.length)
  else if !t.isBoundary e.pos then .error (.insideCharacter e.pos)
  else if !t.isBoundary e.stop then .error (.insideCharacter e.stop)
  else .ok ()

end Edit

end StructuralEdit
