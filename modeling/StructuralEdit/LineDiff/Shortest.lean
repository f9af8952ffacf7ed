/-
  StructuralEdit.LineDiff.Shortest
  ────────────────────────────────
  **A SHORTEST LIST OF CHANGES, BY DIVIDE AND CONQUER.**

  Old and new lines span a grid: a step to the right drops an old line, a step
  down adds a new one, and a diagonal step keeps a line that both have.  The
  shortest way from corner to corner is searched from both ends at once.  After
  `d` steps other than diagonal ones, each side knows for every diagonal `k` how
  far it has come; where the two sides meet, the problem splits into two smaller
  ones.  Lines in common at the front and at the end are taken off first.
-/
import StructuralEdit.LineDiff.Run

namespace StructuralEdit.LineDiff

/-! ## §1. Frontiers. -/

/-- For each diagonal from `-bound` to `bound`, how many old lines lie behind the
furthest point reached on it. -/
structure Frontier where
  bound : Nat
  reached : Array Nat

namespace Frontier

/-- Nothing reached yet. -/
def start (bound : Nat) : Frontier :=
  { bound := bound, reached := Array.replicate (2 * bound + 1) 0 }

/-- The furthest point on a diagonal. -/
def get (f : Frontier) (k : Int) : Nat :=
  f.reached.getD (k + f.bound).toNat 0

/-- Note the furthest point on a diagonal. -/
def set (f : Frontier) (k : Int) (x : Nat) : Frontier :=
  { f with reached := f.reached.setIfInBounds (k + f.bound).toNat x }

/-- Where round `d` enters diagonal `k`: by a step down from the diagonal above,
or by a step to the right from the one below, whichever leads further. -/
def entry (f : Frontier) (d k : Int) : Nat :=
  if k = -d || (k ≠ d && f.get (k - 1) < f.get (k + 1)) then f.get (k + 1)
  else f.get (k - 1) + 1

end Frontier

/-- The diagonals of round `d`, the highest first. -/
def diagonals (d : Nat) : List Int :=
  (List.range (d + 1)).map fun (i : Nat) => (d : Int) - 2 * (i : Int)

/-! ## §2. Where the two sides meet. -/

/-- One round of one side along the given diagonals.  `halts k` says that the
other side has a point on the diagonal to compare with, and `other k` which; the
two meet when they leave no old line between them.  The result is the point at
which the meeting diagonal was entered and the point reached there. -/
def round (old new : List Text) (d : Nat) (halts : Int → Bool) (other : Int → Nat) :
    List Int → Frontier → Option ((Nat × Nat) × (Nat × Nat)) × Frontier
  | [], f => (none, f)
  | k :: ks, f =>
      let x := f.entry d k
      let y := ((x : Int) - k).toNat
      let n := commonPrefix (old.drop x) (new.drop y)
      let f := f.set k (x + n)
      if halts k && old.length ≤ x + n + other k then (some ((x, y), (x + n, y + n)), f)
      else round old new d halts other ks f

/-- The rounds of both sides in turn, from round `d` on; `count` rounds at most. -/
def rounds (old new oldRev newRev : List Text) (delta : Int) :
    Nat → Nat → Frontier → Frontier → Option (Nat × Nat)
  | 0, _, _, _ => none
  | count + 1, d, forward, backward =>
      let odd := delta % 2 != 0
      let (met, forward) :=
        round old new d (fun k => odd && (k - delta).natAbs < d)
          (fun k => backward.get (delta - k)) (diagonals d) forward
      match met with
      | some (enter, _) => some enter
      | none =>
          let (met, backward) :=
            round oldRev newRev d (fun k => !odd && (k - delta).natAbs ≤ d)
              (fun k => forward.get (delta - k)) (diagonals d) backward
          match met with
          | some (_, reach) => some (old.length - reach.1, new.length - reach.2)
          | none => rounds old new oldRev newRev delta count (d + 1) forward backward

/-- A point on a shortest way, as numbers of old and new lines before it. -/
def middle (old new : List Text) : Option (Nat × Nat) :=
  let bound := (old.length + new.length + 1) / 2 + 1
  rounds old new old.reverse new.reverse ((old.length : Int) - new.length) bound 0
    (Frontier.start bound) (Frontier.start bound)

/-! ## §3. Runs. -/

/-- A run, unless it is empty. -/
def runOf (fate : Fate) (i j size : Nat) : List Run :=
  if size = 0 then [] else [⟨fate, i, j, size⟩]

/-- The runs between two lists that start at lines `i` and `j`; problems are split
at most `depth` times. -/
def runsFrom : Nat → Nat → Nat → List Text → List Text → List Run
  | 0, i, j, old, new => runOf .goes i j old.length ++ runOf .comes i j new.length
  | depth + 1, i, j, old, new =>
      let head := commonPrefix old new
      let tail := commonSuffix (old.drop head) (new.drop head)
      let oldMid := (old.drop head).take (old.length - head - tail)
      let newMid := (new.drop head).take (new.length - head - tail)
      let i' := i + head
      let j' := j + head
      let between :=
        if oldMid.isEmpty || newMid.isEmpty then
          runOf .goes i' j' oldMid.length ++ runOf .comes i' j' newMid.length
        else match middle oldMid newMid with
          | some (x, y) =>
              runsFrom depth i' j' (oldMid.take x) (newMid.take y)
                ++ runsFrom depth (i' + x) (j' + y) (oldMid.drop x) (newMid.drop y)
          | none => runOf .goes i' j' oldMid.length ++ runOf .comes i' j' newMid.length
      runOf .stays i j head ++ between
        ++ runOf .stays (i' + oldMid.length) (j' + newMid.length) tail

/-- The runs between two lists of lines. -/
def runs (old new : List Text) : List Run :=
  runsFrom (old.length + new.length + 1) 0 0 old new

end StructuralEdit.LineDiff
