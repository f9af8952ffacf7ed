/-
  StructuralEdit.Proofs.PointOffset
  ─────────────────────────────────
  **POINTS AND OFFSETS TELL THE SAME PLACES.**

  An offset has one point, and within a text a point has one offset.  Both directions
  come from cutting the bytes that have been read at their LAST line feed:

      no line feed        row 0                     column  all bytes
      u ++ newline :: v   row  line feeds of u, + 1   column  length of v

  Reading on leads to a later point (`Point.before_advance`), so no two offsets of a
  text share one.  And the line that a row counts up to starts right behind that last
  line feed (`getElem?_lineStarts`), so the column leads from there back to the offset.
-/
import StructuralEdit.Proofs.PointAdvance

namespace StructuralEdit

/-! ## §1. Reading on leads to a later point. -/

namespace Point

/-- In an earlier row, or in the same row and further to the left. -/
def Before (p q : Point) : Prop :=
  p.row < q.row ∨ (p.row = q.row ∧ p.column < q.column)

instance (p q : Point) : Decidable (p.Before q) :=
  inferInstanceAs (Decidable (_ ∨ _))

theorem Before.ne {p q : Point} (h : p.Before q) : p ≠ q := by
  intro heq
  subst heq
  unfold Before at h
  omega

variable (p : Point) {u v : Text}

/-- Without a line feed the column goes on. -/
theorem advance_of_not_mem (hv : Text.newline ∉ v) :
    p.advance v = ⟨p.row, p.column + v.length⟩ := by
  unfold advance
  rw [List.count_eq_zero.mpr hv, if_neg hv, Nat.add_zero]

/-- Behind the last line feed the column starts anew. -/
theorem advance_line (hv : Text.newline ∉ v) :
    p.advance (u ++ Text.newline :: v) = ⟨p.row + u.count Text.newline + 1, v.length⟩ := by
  have hall : ∀ b ∈ v.reverse, (b != Text.newline) = true := by
    intro b hb
    rw [bne_iff_ne]
    intro heq
    exact hv (heq ▸ List.mem_reverse.mp hb)
  -- read from the back, the search passes `v` and stops
  have hsearch : ((u ++ Text.newline :: v).reverse.takeWhile (· != Text.newline)) = v.reverse := by
    rw [List.reverse_append, List.reverse_cons, List.append_assoc,
      List.takeWhile_append_of_pos hall]
    simp
  unfold advance
  rw [if_pos (by simp), hsearch, List.length_reverse, List.count_append, List.count_cons_self,
    List.count_eq_zero.mpr hv]
  simp only [Point.mk.injEq, and_true]
  omega

/-- **Reading on leads to a later point.** -/
theorem before_advance (hv : v ≠ []) : p.Before (p.advance v) := by
  unfold Before
  by_cases hline : Text.newline ∈ v
  · have hcount : 0 < v.count Text.newline := List.count_pos_iff.mpr hline
    left
    show p.row < p.row + v.count Text.newline
    omega
  · have hlength : 0 < v.length := List.length_pos_iff.mpr hv
    rw [advance_of_not_mem p hline]
    right
    exact ⟨rfl, by show p.column < p.column + v.length; omega⟩

end Point

namespace Text

/-! ## §2. Points of one text. -/

/-- The point of an offset is that of any earlier one, advanced over what lies between. -/
theorem pointAt_add (t : Text) (i k : Nat) :
    t.pointAt (i + k) = (t.pointAt i).advance ((t.drop i).take k) := by
  unfold pointAt
  rw [List.take_add, endPoint_append]

theorem before_pointAt {t : Text} {i j : Nat} (hij : i < j) (hj : j ≤ t.length) :
    (t.pointAt i).Before (t.pointAt j) := by
  obtain ⟨k, rfl⟩ := Nat.exists_eq_add_of_lt hij
  rw [Nat.add_assoc, pointAt_add]
  apply Point.before_advance
  intro hnil
  have hlength := congrArg List.length hnil
  simp only [List.length_take, List.length_drop, List.length_nil] at hlength
  omega

theorem pointAt_append {a b : Text} (k : Nat) :
    (a ++ b).pointAt (a.length + k) = (a.pointAt a.length).advance (b.take k) := by
  unfold pointAt
  rw [List.take_length_add_append, endPoint_append, List.take_length]

theorem pointAt_of_length_le {t : Text} {i : Nat} (h : t.length ≤ i) :
    t.pointAt i = t.pointAt t.length := by
  unfold pointAt
  rw [List.take_of_length_le h, List.take_length]

/-! ## §3. Where lines start. -/

/-- A line starts at the start of the text, and behind every line feed. -/
def isLineStart (t : Text) : Nat → Bool
  | 0 => true
  | i + 1 => t[i]? == some newline

/-- The offsets at which the lines of a text start, in order. -/
def lineStarts (t : Text) : List Nat :=
  (List.range (t.length + 1)).filter t.isLineStart

/-- Up to an offset there is one line more than there are line feeds. -/
theorem length_filter_isLineStart {t : Text} {i : Nat} (hi : i ≤ t.length) :
    ((List.range (i + 1)).filter t.isLineStart).length = (t.take i).count newline + 1 := by
  induction i with
  | zero => rfl
  | succ i ih =>
      have hlt : i < t.length := hi
      have hstart : t.isLineStart (i + 1) = (t[i] == newline) := by
        show (t[i]? == some newline) = _
        rw [List.getElem?_eq_getElem hlt]
        rfl
      rw [List.range_succ, List.filter_append, List.length_append, ih (Nat.le_of_lt hlt),
        List.take_succ_eq_append_getElem hlt, List.count_append, List.filter_cons, hstart,
        List.count_singleton]
      cases t[i] == newline <;> rfl

/-- **The line that starts at an offset is counted by the line feeds before it.** -/
theorem getElem?_lineStarts {t : Text} {s : Nat} (hs : s ≤ t.length)
    (hstart : t.isLineStart s = true) : t.lineStarts[(t.take s).count newline]? = some s := by
  obtain ⟨rest, hrest⟩ := Nat.exists_eq_add_of_le hs
  have hrange : List.range (t.length + 1)
      = List.range s ++ s :: (List.range rest).map (s + 1 + ·) := by
    rw [show t.length + 1 = s + 1 + rest by omega, List.range_add, List.range_succ]
    simp
  have hcount : ((List.range s).filter t.isLineStart).length = (t.take s).count newline := by
    have hupto := length_filter_isLineStart hs
    rw [List.range_succ, List.filter_append, List.filter_cons_of_pos hstart] at hupto
    simpa using hupto
  unfold lineStarts
  rw [hrange, List.filter_append, List.filter_cons_of_pos hstart, ← hcount]
  simp

/-- A text is cut at its last line feed, if it has one. -/
theorem eq_append_of_newline_mem {t : Text} (h : newline ∈ t) :
    ∃ u v, t = u ++ newline :: v ∧ newline ∉ v := by
  obtain ⟨v, u, hsplit, hv⟩ := List.eq_append_cons_of_mem (List.mem_reverse.mpr h)
  refine ⟨u.reverse, v.reverse, ?_, ?_⟩
  · rw [← List.reverse_inj, hsplit]
    simp
  · rwa [List.mem_reverse]

/-- **Row and column lead back to the offset.** -/
theorem exists_lineStart {t : Text} {i : Nat} (hi : i ≤ t.length) :
    ∃ s, t.lineStarts[(t.pointAt i).row]? = some s ∧ i = s + (t.pointAt i).column := by
  have hlength : (t.take i).length = i := List.length_take_of_le hi
  have hpoint : t.pointAt i = (⟨0, 0⟩ : Point).advance (t.take i) := endPoint_append [] (t.take i)
  by_cases hline : newline ∈ t.take i
  · obtain ⟨u, v, hcut, hv⟩ := eq_append_of_newline_mem hline
    rw [hpoint, hcut, Point.advance_line _ hv]
    have hlong : u.length + 1 + v.length = i := by
      rw [← hlength, hcut, List.length_append, List.length_cons]
      omega
    have htext : t = u ++ newline :: (v ++ t.drop i) :=
      calc t = t.take i ++ t.drop i := (List.take_append_drop i t).symm
        _ = u ++ newline :: (v ++ t.drop i) := by rw [hcut]; simp
    -- the line of the offset starts behind `u` and the line feed
    have hstart : t.isLineStart (u.length + 1) = true := by
      show (t[u.length]? == some newline) = true
      rw [htext]
      simp
    have hbefore : (t.take (u.length + 1)).count newline = 0 + u.count newline + 1 := by
      rw [htext, List.take_length_add_append]
      simp
    refine ⟨u.length + 1, ?_, ?_⟩
    · show t.lineStarts[0 + u.count newline + 1]? = _
      rw [← hbefore]
      exact getElem?_lineStarts (by omega) hstart
    · show i = u.length + 1 + v.length
      omega
  · rw [hpoint, Point.advance_of_not_mem _ hline]
    refine ⟨0, ?_, ?_⟩
    · exact getElem?_lineStarts (Nat.zero_le _) rfl
    · show i = 0 + (0 + (t.take i).length)
      omega

end Text

/-! ## §4. The correspondence. -/

/-- **Points and offsets correspond.**  For every text:

  (1) within it, a later offset has a later point;
  (2) so no two offsets of it have one point;
  (3) all offsets beyond its end have the point of its end;
  (4) an offset is as far from the start of its line as the column says, and its line is
      the one that the row counts up to.

And for two texts, one behind the other, the point of an offset in the second one is the
end of the first, advanced over what is read of the second: line feeds are added to the
row; the column is counted on where there are none, and from the last of them otherwise. -/
theorem points_mark_offsets (t a b : Text) :
    (∀ i j, i < j → j ≤ t.length → (t.pointAt i).Before (t.pointAt j))
    ∧ (∀ i j, i ≤ t.length → j ≤ t.length → t.pointAt i = t.pointAt j → i = j)
    ∧ (∀ i, t.length ≤ i → t.pointAt i = t.pointAt t.length)
    ∧ (∀ i, i ≤ t.length →
        ∃ s, t.lineStarts[(t.pointAt i).row]? = some s ∧ i = s + (t.pointAt i).column)
    ∧ ∀ k, k ≤ b.length →
        let p := a.pointAt a.length
        let q := (a ++ b).pointAt (a.length + k)
        q = p.advance (b.take k)
          ∧ (Text.newline ∉ b.take k → q = ⟨p.row, p.column + k⟩)
          ∧ ∀ u v, b.take k = u ++ Text.newline :: v → Text.newline ∉ v →
              q = ⟨p.row + u.count Text.newline + 1, v.length⟩ := by
  refine ⟨fun i j => Text.before_pointAt, ?_, fun i => Text.pointAt_of_length_le,
    fun i => Text.exists_lineStart, ?_⟩
  · intro i j hi hj hsame
    rcases Nat.lt_trichotomy i j with hlt | heq | hgt
    · exact absurd hsame (Text.before_pointAt hlt hj).ne
    · exact heq
    · exact absurd hsame.symm (Text.before_pointAt hgt hi).ne
  · intro k hk p q
    have hq : q = p.advance (b.take k) := Text.pointAt_append k
    refine ⟨hq, ?_, ?_⟩
    · intro hline
      rw [hq, Point.advance_of_not_mem p hline, List.length_take_of_le hk]
    · intro u v hcut hv
      rw [hq, hcut, Point.advance_line p hv]

/-- A character of two bytes, an empty line, and a letter behind it: points go on inside the
character and across the empty line, the largest offset of 64 bits has the point of the end,
the last line starts at offset 4, and one more line behind it makes a fourth row. -/
theorem points_mark_offsets_empty_line :
    let t : Text := [0xC3, 0xA9, 10, 10, 98]
    (t.pointAt 1).Before (t.pointAt 2)
      ∧ t.pointAt 3 ≠ t.pointAt 4
      ∧ t.pointAt 18446744073709551615 = ⟨2, 1⟩
      ∧ (∃ s, t.lineStarts[2]? = some s ∧ 5 = s + 1)
      ∧ (t ++ [10, 99]).pointAt 7 = ⟨3, 1⟩ := by
  intro t
  obtain ⟨hlater, hone, hend, hline, hjoin⟩ := points_mark_offsets t t [10, 99]
  obtain ⟨-, -, hcut⟩ := hjoin 2 (by decide)
  refine ⟨hlater 1 2 (by decide) (by decide), ?_, hend _ (by decide), hline 5 (by decide), ?_⟩
  · intro hsame
    exact absurd (hone 3 4 (by decide) (by decide) hsame) (by decide)
  · exact hcut [] [99] rfl (by decide)

end StructuralEdit
