/-
  StructuralEdit.LineDiff.Compact
  ───────────────────────────────
  **RUNS SETTLE WHERE THEY CAN REST LOWEST.**

  Where lines repeat, a run of lines that come can stand at several places with
  the same effect.  It first slides up as far as it can and then down as far as it
  can: over lines that stay, if they are also the lines that come, changing places
  with runs that go, and swallowing other runs that come.  A run of lines that go
  covers no new lines, so it stops at lines that stay; it changes places with runs
  that come and swallows other runs that go.  The runs that go settle first.

  A position in the list of runs is a run in focus, with the runs above it,
  nearest first, and the runs below it.
-/
import StructuralEdit.LineDiff.Run

namespace StructuralEdit.LineDiff

/-- A run in focus, between the runs above it, nearest first, and those below. -/
structure Focus where
  above : List Run
  run : Run
  below : List Run

/-- Put lines that stay in front of the runs below: the nearest one grows if its
lines stay, and else there is a new run. -/
def growBelow (r : Run) : List Run → List Run
  | [] => [r]
  | next :: rest =>
      if next.fate = .stays then (next.moveUp r.size).lengthen r.size :: rest
      else r :: next :: rest

/-- Put lines that stay behind the runs above. -/
def growAbove (r : Run) : List Run → List Run
  | [] => [r]
  | prev :: rest =>
      if prev.fate = .stays then prev.lengthen r.size :: rest else r :: prev :: rest

/-- What is left to slide over: every run counts, and so does every line. -/
def weight : List Run → Nat
  | [] => 0
  | r :: rest => r.size + 1 + weight rest

/-- Slide a run up as far as it can. -/
def slideUp (old new : List Text) (above : List Run) (run : Run) (below : List Run) : Focus :=
  match above with
  | [] => ⟨[], run, below⟩
  | prev :: above =>
      if prev.fate = run.fate then slideUp old new above (prev.lengthen run.size) below
      else if prev.fate ≠ .stays then slideUp old new above run (prev :: below)
      else if prev.size = 0 then slideUp old new above run below
      else
        let n := commonSuffix (prev.oldLines old) (run.newLines new)
        if n = 0 then ⟨prev :: above, run, below⟩
        else
          let passed : Run :=
            ⟨.stays, prev.oldStart + prev.size - n, run.newStart + run.size - n, n⟩
          slideUp old new (prev.shorten n :: above) (run.moveUp n) (growBelow passed below)
termination_by weight above
decreasing_by
  all_goals simp only [weight, Run.shorten]
  all_goals omega

/-- Slide a run down as far as it can. -/
def slideDown (old new : List Text) (above : List Run) (run : Run) (below : List Run) : Focus :=
  match below with
  | [] => ⟨above, run, []⟩
  | next :: below =>
      if next.fate = run.fate then slideDown old new above (run.lengthen next.size) below
      else if next.fate ≠ .stays then slideDown old new (next :: above) run below
      else if next.size = 0 then slideDown old new above run below
      else
        let n := commonPrefix (next.oldLines old) (run.newLines new)
        if n = 0 then ⟨above, run, next :: below⟩
        else
          let passed : Run := ⟨.stays, next.oldStart, run.newStart, n⟩
          slideDown old new (growAbove passed above) (run.moveDown n)
            ((next.moveDown n).shorten n :: below)
termination_by weight below
decreasing_by
  all_goals simp only [weight, Run.shorten, Run.moveDown]
  all_goals omega

/-- Let the runs of one fate settle, from the first run below on; at most `bound`
runs are looked at. -/
def settleFrom (old new : List Text) (fate : Fate) : Nat → List Run → List Run → List Run
  | 0, above, below => above.reverse ++ below
  | _, above, [] => above.reverse
  | bound + 1, above, run :: below =>
      if run.fate = fate then
        let up := slideUp old new above run below
        let down := slideDown old new up.above up.run up.below
        settleFrom old new fate bound (down.run :: down.above) down.below
      else settleFrom old new fate bound (run :: above) below

/-- Let the runs of one fate settle. -/
def settle (old new : List Text) (fate : Fate) (rs : List Run) : List Run :=
  settleFrom old new fate (2 * (old.length + new.length) + rs.length) [] rs

/-- Let all runs settle. -/
def compact (old new : List Text) (rs : List Run) : List Run :=
  settle old new .comes (settle old new .goes rs)

end StructuralEdit.LineDiff
