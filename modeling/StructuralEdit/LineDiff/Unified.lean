/-
  StructuralEdit.LineDiff.Unified
  ───────────────────────────────
  **DIFFERENCES IN THE UNIFIED FORMAT.**

  Neighbouring runs that go and come form one block, which shows its old lines
  first.  Blocks are shown with up to `context` lines that stay on either side;
  where more than twice as many stay between two blocks, a new hunk starts.  Every
  hunk names the lines it shows of either text, counted from 1.  Equal texts show
  nothing.
-/
import StructuralEdit.LineDiff.Shortest
import StructuralEdit.LineDiff.Compact
import StructuralEdit.Path

namespace StructuralEdit

namespace LineDiff

/-! ## §1. Blocks. -/

/-- Old lines and the new lines in their place; where nothing changes, both are
the same. -/
structure Block where
  same : Bool
  oldStart : Nat
  oldSize : Nat
  newStart : Nat
  newSize : Nat
  deriving DecidableEq, Repr

/-- The number of lines in some runs. -/
def totalSize : List Run → Nat
  | [] => 0
  | r :: rest => r.size + totalSize rest

/-- The block of neighbouring runs, all of which stay or none of which does. -/
def blockOf : List Run → Option Block
  | [] => none
  | first :: rest =>
      let rs := first :: rest
      if first.fate = .stays then
        some ⟨true, first.oldStart, totalSize rs, first.newStart, totalSize rs⟩
      else
        let gone := rs.filter (·.fate = .goes)
        let come := rs.filter (·.fate = .comes)
        some ⟨false, (gone.head?.getD first).oldStart, totalSize gone,
          (come.head?.getD first).newStart, totalSize come⟩

/-- The blocks of a list of runs. -/
def blocks (rs : List Run) : List Block :=
  (rs.splitBy fun a b => decide (a.fate = .stays) == decide (b.fate = .stays)).filterMap blockOf

/-! ## §2. Hunks. -/

/-- The number of unchanged lines shown on either side of a change. -/
def context : Nat := 3

/-- The first lines of an unchanged block, no more than the context. -/
def Block.head (b : Block) : Block :=
  { b with oldSize := min b.oldSize context, newSize := min b.newSize context }

/-- The last lines of an unchanged block, no more than the context. -/
def Block.tail (b : Block) : Block :=
  let cut := b.oldSize - context
  { b with oldStart := b.oldStart + cut, oldSize := b.oldSize - cut,
           newStart := b.newStart + cut, newSize := b.newSize - cut }

/-- The blocks, of the first and the last only what is context. -/
def trim (bs : List Block) : List Block :=
  let headless := match bs with
    | first :: rest => (if first.same then first.tail else first) :: rest
    | [] => []
  match headless.getLast? with
  | some last => headless.dropLast ++ [if last.same then last.head else last]
  | none => []

/-- The hunks of blocks, `pending` being the blocks of the first hunk so far. -/
def hunksFrom (pending : List Block) : List Block → List (List Block)
  | [] => if pending.all Block.same then [] else [pending]
  | b :: rest =>
      if b.same && 2 * context < b.oldSize then
        (pending ++ [b.head]) :: hunksFrom [b.tail] rest
      else hunksFrom (pending ++ [b]) rest

/-- The hunks of a list of blocks. -/
def hunks (bs : List Block) : List (List Block) :=
  hunksFrom [] (trim bs)

/-! ## §3. Text. -/

/-- The lines from `start` up to `stop`, as a hunk names them. -/
def lineRange (start stop : Nat) : String :=
  let size := stop - start
  if size = 1 then toString (start + 1)
  else if size = 0 then toString start ++ ",0"
  else toString (start + 1) ++ "," ++ toString size

/-- The heading of a hunk. -/
def heading (bs : List Block) : String :=
  match bs.head?, bs.getLast? with
  | some first, some last =>
      "@@ -" ++ lineRange first.oldStart (last.oldStart + last.oldSize) ++ " +"
        ++ lineRange first.newStart (last.newStart + last.newSize) ++ " @@\n"
  | _, _ => ""

/-- A line with its mark in front; a line that nothing ends is told so. -/
def showLine (mark : String) (line : Text) : Text :=
  Text.ofString mark ++ line
    ++ (if isTerminated line then [] else Text.ofString "\n\\ No newline at end of file\n")

/-- The lines of a block. -/
def showBlock (old new : List Text) (b : Block) : Text :=
  let olds := (old.drop b.oldStart).take b.oldSize
  let news := (new.drop b.newStart).take b.newSize
  if b.same then (olds.map (showLine " ")).flatten
  else (olds.map (showLine "-")).flatten ++ (news.map (showLine "+")).flatten

/-- A hunk. -/
def showHunk (old new : List Text) (bs : List Block) : Text :=
  Text.ofString (heading bs) ++ (bs.map (showBlock old new)).flatten

end LineDiff

/-- The difference between two texts of one file. -/
def unifiedDiff (path : Path) (old new : Text) : Text :=
  let olds := LineDiff.linesOf old
  let news := LineDiff.linesOf new
  let hunks := LineDiff.hunks (LineDiff.blocks (LineDiff.compact olds news (LineDiff.runs olds news)))
  if hunks.isEmpty then []
  else Text.ofString ("--- " ++ path.spelling ++ "\n+++ " ++ path.spelling ++ "\n")
    ++ (hunks.map (LineDiff.showHunk olds news)).flatten

end StructuralEdit
