/-
  StructuralEdit.Proofs.PointAdvance
  ──────────────────────────────────
  **POINTS MOVE WITH THE TEXT THAT IS READ.**

  Row and column of an offset are read off by two scans of their own, a count of
  the line feeds and a search for the last one.  `Point.advance` says what both
  come to when a text is read from a given point on:

      rows are added;  the column starts anew after the last line feed,
                       and goes on where there is none

  (`endPoint_append`).  So the point behind new text depends on the point before
  it and on the new text alone (`pointAt_replaceRange`).
-/
import StructuralEdit.Point

namespace StructuralEdit

/-! ## §1. Reading a text from a point on. -/

/-- The point that reading `t` from the point `p` on leads to. -/
def Point.advance (p : Point) (t : Text) : Point :=
  { row := p.row + t.count Text.newline
    column :=
      if Text.newline ∈ t then (t.reverse.takeWhile (· != Text.newline)).length
      else p.column + t.length }

namespace Text

/-- A search for the last line feed of a text that has one stops inside it. -/
theorem length_takeWhile_reverse_ne {b : Text} (hb : newline ∈ b) :
    (b.reverse.takeWhile (· != newline)).length ≠ b.reverse.length := by
  intro hlength
  have hwhole : b.reverse.takeWhile (· != newline) = b.reverse :=
    (List.takeWhile_prefix _).eq_of_length hlength
  have hall : b.reverse.all (· != newline) = true := by
    rw [← hwhole]
    exact List.all_takeWhile
  have hne := List.all_eq_true.mp hall newline (List.mem_reverse.mpr hb)
  exact absurd hne (by decide)

/-- **The point behind two texts is that behind the first, advanced over the
second.** -/
theorem endPoint_append (a b : Text) : endPoint (a ++ b) = a.endPoint.advance b := by
  unfold endPoint Point.advance
  rw [List.count_append, List.reverse_append]
  by_cases hb : newline ∈ b
  · -- the search ends in `b` and never sees `a`
    rw [List.takeWhile_append, if_neg (length_takeWhile_reverse_ne hb), if_pos hb]
  · have hall : ∀ x ∈ b.reverse, (x != newline) = true := by
      intro x hx
      rw [bne_iff_ne]
      intro heq
      exact hb (heq ▸ List.mem_reverse.mp hx)
    rw [List.takeWhile_append_of_pos hall, if_neg hb, List.length_append, List.length_reverse,
        Nat.add_comm b.length]

/-! ## §2. Points of texts that agree. -/

theorem pointAt_eq_of_take_eq {s t : Text} {i : Nat} (h : s.take i = t.take i) :
    s.pointAt i = t.pointAt i := by
  unfold pointAt
  rw [h]

theorem take_replaceRange {t : Text} {start : Nat} (hstart : start ≤ t.length) (stop : Nat)
    (new : Text) :
    (t.replaceRange start stop new).take (start + new.length) = t.take start ++ new := by
  unfold replaceRange
  apply List.take_left'
  rw [List.length_append, List.length_take, Nat.min_eq_left hstart]

/-- The point behind new text is the point before it, advanced over it. -/
theorem pointAt_replaceRange {t : Text} {start : Nat} (hstart : start ≤ t.length) (stop : Nat)
    (new : Text) :
    (t.replaceRange start stop new).pointAt (start + new.length)
      = (t.pointAt start).advance new := by
  unfold pointAt
  rw [take_replaceRange hstart, endPoint_append]

end Text

end StructuralEdit
