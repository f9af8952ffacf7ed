/-
  StructuralEdit.LineDiff.Run
  ───────────────────────────
  **LINES, AND RUNS OF LINES THAT STAY, GO OR COME.**

  A line ends with a line feed, a carriage return, or both, and holds what ends
  it; the last line may end without any.  Comparing two lists of lines gives a
  list of runs: lines that both have, lines that only the old list has, lines that
  only the new one has.  A run says where it starts in either list.
-/
import StructuralEdit.Text

namespace StructuralEdit.LineDiff

/-! ## §1. Lines. -/

/-- The carriage return byte. -/
def carriageReturn : UInt8 := 13

/-- The lines of a text, put together they are the text; `line` holds the bytes
of the line that is being read, the last byte first. -/
def linesFrom (line : Text) : Text → List Text
  | [] => if line.isEmpty then [] else [line.reverse]
  | b :: rest =>
      let ends := b == Text.newline || (b == carriageReturn && rest.head? != some Text.newline)
      if ends then (b :: line).reverse :: linesFrom [] rest else linesFrom (b :: line) rest

/-- The lines of a text. -/
def linesOf (t : Text) : List Text :=
  linesFrom [] t

/-- The line ends with a line feed or a carriage return. -/
def isTerminated (line : Text) : Bool :=
  line.getLast?.any fun b => b == Text.newline || b == carriageReturn

/-- How many lines two lists have in common at the front. -/
def commonPrefix : List Text → List Text → Nat
  | a :: as, b :: bs => if a == b then commonPrefix as bs + 1 else 0
  | _, _ => 0

/-- How many lines two lists have in common at the end. -/
def commonSuffix (as bs : List Text) : Nat :=
  commonPrefix as.reverse bs.reverse

/-! ## §2. Runs. -/

/-- What happens to the lines of a run. -/
inductive Fate where
  | stays
  | goes
  | comes
  deriving DecidableEq, Repr

/-- A run of lines with one fate. -/
structure Run where
  fate : Fate
  oldStart : Nat
  newStart : Nat
  size : Nat
  deriving DecidableEq, Repr

namespace Run

/-- The lines of the old list that a run covers. -/
def oldLines (r : Run) (old : List Text) : List Text :=
  match r.fate with
  | .comes => []
  | _ => (old.drop r.oldStart).take r.size

/-- The lines of the new list that a run covers. -/
def newLines (r : Run) (new : List Text) : List Text :=
  match r.fate with
  | .goes => []
  | _ => (new.drop r.newStart).take r.size

/-- The run, `n` lines further up. -/
def moveUp (r : Run) (n : Nat) : Run :=
  { r with oldStart := r.oldStart - n, newStart := r.newStart - n }

/-- The run, `n` lines further down. -/
def moveDown (r : Run) (n : Nat) : Run :=
  { r with oldStart := r.oldStart + n, newStart := r.newStart + n }

/-- The run with `n` more lines at its end. -/
def lengthen (r : Run) (n : Nat) : Run :=
  { r with size := r.size + n }

/-- The run with `n` lines less at its end. -/
def shorten (r : Run) (n : Nat) : Run :=
  { r with size := r.size - n }

end Run

end StructuralEdit.LineDiff
