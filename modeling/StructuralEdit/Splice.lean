/-
  StructuralEdit.Splice
  ─────────────────────
  **MANY EDITS, ONE PASS.**

  `splice` puts a batch of edits into a text.  It sorts them by falling end,
  then by falling start, and applies them from right to left, so that the
  offsets of the edits still to come never move.  Conflicts follow one rule:

      an edit that does not start before the last applied one is DROPPED.

  An edit that starts before the last applied one but reaches into it is still
  applied; its end is cut back to the text so far, onto a character
  boundary.  Each applied edit leaves a `Change`, which tells an incremental
  parser what moved, and each conflict leaves a `Notice`.
-/
import StructuralEdit.Edit
import StructuralEdit.Point
import StructuralEdit.Sorting

namespace StructuralEdit

/-! ## §1. What a splice reports. -/

/-- One applied edit as an incremental parser needs it: the offsets `[start,
oldEnd)` of the text before became `[start, newEnd)` of the text after. -/
structure Change where
  start : Nat
  oldEnd : Nat
  newEnd : Nat
  startPoint : Point
  oldEndPoint : Point
  newEndPoint : Point
  deriving DecidableEq, Repr

/-- A conflict met on the way. -/
inductive Notice where
  /-- An edit was dropped. -/
  | dropped
  /-- An edit reached into text that had been replaced already. -/
  | overlapped
  deriving DecidableEq, Repr

/-- How many edits of a batch were applied and how many were dropped. -/
structure Tally where
  applied : Nat := 0
  dropped : Nat := 0
  deriving DecidableEq, Repr

/-- A spliced text, with the account of how it came about. -/
structure Splice where
  text : Text
  changes : List Change := []
  tally : Tally := {}
  notices : List Notice := []
  deriving DecidableEq, Repr

/-! ## §2. The order of application. -/

/-- `a` is applied before `b`, or they have the same range. -/
def Edit.before (a b : Edit) : Bool :=
  b.stop < a.stop || (a.stop == b.stop && b.pos ≤ a.pos)

/-- The edits in the order in which they are applied; equal ranges keep the
order in which they were queued. -/
def inOrder (edits : List Edit) : List Edit :=
  sortBy Edit.before edits

/-! ## §3. The pass. -/

/-- A pass under way: the result so far, and where the last applied edit
started. -/
structure Pass where
  result : Splice
  lastPos : Option Nat := none
  deriving DecidableEq, Repr

namespace Pass

/-- Nothing is applied yet. -/
def start (t : Text) : Pass :=
  { result := { text := t } }

/-- The edit starts at or after the last applied one. -/
def drops (p : Pass) (e : Edit) : Bool :=
  match p.lastPos with
  | some last => last ≤ e.pos
  | none => false

/-- The edit reaches into text that has been replaced already. -/
def overlaps (p : Pass) (e : Edit) : Bool :=
  match p.lastPos with
  | some last => last < e.stop
  | none => false

/-- Where the edit ends in the text so far: cut back to its length and to a
character boundary. -/
def cutEnd (t : Text) (e : Edit) : Nat :=
  t.floorBoundary (min e.stop t.length)

/-- The change that applying `e` makes to the text so far, `t`. -/
def changeOf (t : Text) (e : Edit) : Change :=
  let oldEnd := cutEnd t e
  let newEnd := e.pos + e.newText.length
  { start := e.pos
    oldEnd := oldEnd
    newEnd := newEnd
    startPoint := t.pointAt e.pos
    oldEndPoint := t.pointAt oldEnd
    newEndPoint := (t.replaceRange e.pos oldEnd e.newText).pointAt newEnd }

/-- Drop or apply one edit. -/
def step (p : Pass) (e : Edit) : Pass :=
  let r := p.result
  if p.drops e then
    { p with result :=
        { r with
          tally := { r.tally with dropped := r.tally.dropped + 1 }
          notices := r.notices ++ [.dropped] } }
  else
    { result :=
        { text := r.text.replaceRange e.pos (cutEnd r.text e) e.newText
          changes := r.changes ++ [changeOf r.text e]
          tally := { r.tally with applied := r.tally.applied + 1 }
          notices := if p.overlaps e then r.notices ++ [.overlapped] else r.notices }
      lastPos := some e.pos }

end Pass

/-- The batch applied to `t`, all edits being in order and valid. -/
def spliceValid (t : Text) (edits : List Edit) : Splice :=
  ((inOrder edits).foldl Pass.step (Pass.start t)).result

/-- Splice a batch of edits into a text.  The first edit, in queue order, that
does not fit the text is the error, and then nothing is spliced. -/
def splice (t : Text) (edits : List Edit) : Except EditError Splice := do
  edits.forM (Edit.check t)
  return spliceValid t edits

end StructuralEdit
