/-
  StructuralEdit.Proofs.Splice.Boundaries
  ───────────────────────────────────────
  **A PASS NEVER CUTS A CHARACTER.**

  The edits of a batch are checked ONCE, against the original text, and then
  applied to a text that earlier edits have already rewritten.  That is safe
  because of one invariant: what lies before the last applied start is still the
  original text, and what lies from there on is a text of its own,

      working text  =  original up to the limit  ++  some UTF-8 text

  with the limit on a boundary of the original (`Pass.Sound`).  Every step keeps
  it (`Sound.step`), whatever the overlaps.  An edit that is not dropped starts
  at or before the limit, so its start is still a boundary, and going back from
  its end meets that boundary at the latest (`Sound.safeToApply`).
-/
import StructuralEdit.Proofs.Splice.Pass
import StructuralEdit.Proofs.CharacterBoundary

namespace StructuralEdit

/-! ## §1. Edits that fit a text. -/

/-- The edit fits the text `t`: its range is not inverted and lies inside `t`,
both ends are on boundaries, and the new text is text. -/
structure Edit.Fits (t : Text) (e : Edit) : Prop where
  ordered : e.pos ≤ e.stop
  inside : e.stop ≤ t.length
  pos_on : t.isBoundary e.pos = true
  stop_on : t.isBoundary e.stop = true
  utf8 : e.newText.IsUtf8

theorem Edit.replacing_eq_ok_iff {e : Edit} :
    Edit.replacing e.pos e.stop e.newText = .ok e ↔ e.pos ≤ e.stop := by
  unfold Edit.replacing
  split
  next hlt =>
    simp only [reduceCtorEq, false_iff]
    omega
  next hge =>
    simp only [true_iff]
    omega

/-- An edit fits exactly if it can be built, passes its check and brings text. -/
theorem Edit.fits_iff {t : Text} {e : Edit} :
    e.Fits t ↔ Edit.replacing e.pos e.stop e.newText = .ok e
      ∧ e.check t = .ok () ∧ e.newText.IsUtf8 := by
  rw [Edit.replacing_eq_ok_iff, Edit.check_eq_ok_iff]
  constructor
  · intro h
    exact ⟨h.ordered, ⟨h.inside, h.pos_on, h.stop_on⟩, h.utf8⟩
  · intro h
    obtain ⟨hordered, ⟨hinside, hpos, hstop⟩, hutf8⟩ := h
    exact ⟨hordered, hinside, hpos, hstop, hutf8⟩

theorem Edit.Fits.check {t : Text} {e : Edit} (h : e.Fits t) : e.check t = .ok () :=
  (Edit.fits_iff.mp h).2.1

/-! ## §2. The untouched part. -/

namespace Pass

/-- Up to here the working text is the original one. -/
def limit (t : Text) (p : Pass) : Nat :=
  p.lastPos.getD t.length

/-- An edit that is not dropped starts at or before the limit. -/
theorem pos_le_limit {t : Text} {p : Pass} {e : Edit} (he : e.Fits t)
    (hd : p.drops e = false) : e.pos ≤ p.limit t := by
  have hinside := Nat.le_trans he.ordered he.inside
  unfold drops at hd
  unfold limit
  cases hlast : p.lastPos with
  | none => exact hinside
  | some last =>
      rw [hlast] at hd
      have hlt : ¬ last ≤ e.pos := by simpa using hd
      show e.pos ≤ last
      omega

/-- An edit that reaches into nothing rewritten ends at or before the limit. -/
theorem stop_le_limit {t : Text} {p : Pass} {e : Edit} (he : e.Fits t)
    (ho : p.overlaps e = false) : e.stop ≤ p.limit t := by
  have hinside := he.inside
  unfold overlaps at ho
  unfold limit
  cases hlast : p.lastPos with
  | none => exact hinside
  | some last =>
      rw [hlast] at ho
      have hle : ¬ last < e.stop := by simpa using ho
      show e.stop ≤ last
      omega

/-- The working text is the original up to the limit, followed by text. -/
structure Sound (t : Text) (p : Pass) : Prop where
  limit_on : t.isBoundary (p.limit t) = true
  rewritten : ∃ rest : Text, rest.IsUtf8 ∧ p.result.text = t.take (p.limit t) ++ rest

theorem sound_start (t : Text) : Sound t (start t) := by
  refine ⟨Text.isBoundary_length t, [], Text.isUtf8_nil, ?_⟩
  show t = t.take t.length ++ []
  rw [List.take_length, List.append_nil]

namespace Sound

variable {t : Text} {p : Pass}

theorem limit_le (h : Sound t p) : p.limit t ≤ t.length :=
  Text.le_length_of_isBoundary h.limit_on

theorem length_take_limit (h : Sound t p) : (t.take (p.limit t)).length = p.limit t := by
  rw [List.length_take]
  exact Nat.min_eq_left h.limit_le

theorem limit_le_length (h : Sound t p) : p.limit t ≤ p.result.text.length := by
  obtain ⟨rest, -, htext⟩ := h.rewritten
  rw [htext, List.length_append, h.length_take_limit]
  omega

theorem utf8 (h : Sound t p) (ht : t.IsUtf8) : p.result.text.IsUtf8 := by
  obtain ⟨rest, hrest, htext⟩ := h.rewritten
  rw [htext]
  exact (ht.take h.limit_on).append hrest

/-- Up to the limit the working text reads as the original. -/
theorem take_eq (h : Sound t p) {i : Nat} (hi : i ≤ p.limit t) :
    p.result.text.take i = t.take i := by
  obtain ⟨rest, -, htext⟩ := h.rewritten
  rw [htext, List.take_append_of_le_length (by rw [h.length_take_limit]; exact hi),
      List.take_take, Nat.min_eq_left hi]

/-- Up to the limit, and at it, the boundaries of the original are boundaries. -/
theorem isBoundary (h : Sound t p) {i : Nat} (hi : i ≤ p.limit t)
    (hon : t.isBoundary i = true) : p.result.text.isBoundary i = true := by
  obtain ⟨rest, hrest, htext⟩ := h.rewritten
  have hlength := h.length_take_limit
  rw [htext]
  by_cases hlt : i < p.limit t
  · rw [Text.isBoundary_append_left (by omega)]
    have hsplit := Text.isBoundary_append_left (a := t.take (p.limit t)) (i := i)
      (by omega) (t.drop (p.limit t))
    rwa [List.take_append_drop, hon, eq_comm] at hsplit
  · -- at the limit itself the rewritten part begins
    have heq : i = (t.take (p.limit t)).length := by omega
    rw [heq]
    exact hrest.isBoundary_append _

/-- An edit that reaches into nothing rewritten keeps its end. -/
theorem cutEnd_eq (h : Sound t p) {e : Edit} (he : e.Fits t) (ho : p.overlaps e = false) :
    cutEnd p.result.text e = e.stop := by
  have hstop := stop_le_limit he ho
  have hlimit := h.limit_le_length
  unfold cutEnd
  rw [Nat.min_eq_left (by omega)]
  exact Text.floorBoundary_eq_self (h.isBoundary hstop he.stop_on)

end Sound

end Pass

/-! ## §3. Safe application. -/

/-- Applying `e` to the working text `w` is safe: both ends of the replaced range
are boundaries of `w`, in order and inside `w`; going back from the end passes
over nothing but the inside of a character that begins after the start; and the
result is text. -/
structure SafeToApply (w : Text) (e : Edit) : Prop where
  pos_on : w.isBoundary e.pos = true
  pos_le_end : e.pos ≤ Pass.cutEnd w e
  end_le_length : Pass.cutEnd w e ≤ w.length
  end_on : w.isBoundary (Pass.cutEnd w e) = true
  passed_over : ∀ k, Pass.cutEnd w e < k → k ≤ min e.stop w.length →
    e.pos < k ∧ w.isBoundary k = false
  utf8 : (w.replaceRange e.pos (Pass.cutEnd w e) e.newText).IsUtf8

theorem Pass.cutEnd_le (w : Text) (e : Edit) : Pass.cutEnd w e ≤ min e.stop w.length :=
  Text.floorBoundary_le w _

theorem Pass.Sound.safeToApply {t : Text} {p : Pass} {e : Edit} (h : Pass.Sound t p)
    (ht : t.IsUtf8) (he : e.Fits t) (hd : p.drops e = false) :
    SafeToApply p.result.text e := by
  -- not dropped, the edit starts in the untouched part, where its check still holds
  have hpos := Pass.pos_le_limit he hd
  have hlimit := h.limit_le_length
  have hle := Pass.cutEnd_le p.result.text e
  have hpos_on := h.isBoundary hpos he.pos_on
  have hpos_end : e.pos ≤ Pass.cutEnd p.result.text e := by
    apply Text.le_floorBoundary hpos_on
    have := he.ordered
    omega
  have hend_on : p.result.text.isBoundary (Pass.cutEnd p.result.text e) = true :=
    Text.isBoundary_floorBoundary _ _
  refine ⟨hpos_on, hpos_end, by omega, hend_on, ?_, ?_⟩
  · intro k hk hkle
    refine ⟨by omega, ?_⟩
    rw [← Bool.not_eq_true]
    intro hon
    have : k ≤ Pass.cutEnd p.result.text e := Text.le_floorBoundary hon hkle
    omega
  · -- both cuts are on boundaries, so the three pieces are texts
    have hw := h.utf8 ht
    exact ((hw.take hpos_on).append he.utf8).append (hw.drop hend_on)

/-! ## §4. The invariant along a run. -/

theorem Pass.Sound.step {t : Text} {p : Pass} {e : Edit} (h : Pass.Sound t p)
    (ht : t.IsUtf8) (he : e.Fits t) : Pass.Sound t (p.step e) := by
  cases hd : p.drops e with
  | true =>
      rw [Pass.step_of_drops hd]
      exact ⟨h.limit_on, h.rewritten⟩
  | false =>
      have hsafe := h.safeToApply ht he hd
      have hrest := he.utf8.append ((h.utf8 ht).drop hsafe.end_on)
      rw [Pass.step_of_applies hd]
      -- the new limit is the start of `e`; from there on stands its new text
      refine ⟨he.pos_on, _, hrest, ?_⟩
      show p.result.text.take e.pos ++ e.newText ++ _ = t.take e.pos ++ _
      rw [h.take_eq (Pass.pos_le_limit he hd), List.append_assoc]

theorem Pass.sound_foldl {t : Text} (ht : t.IsUtf8) {es : List Edit}
    (hes : ∀ e ∈ es, e.Fits t) {p : Pass} (hp : Pass.Sound t p) :
    Pass.Sound t (es.foldl Pass.step p) := by
  induction es generalizing p with
  | nil => exact hp
  | cons e es ih =>
      exact ih (fun k hk => hes k (List.mem_cons_of_mem e hk))
        (hp.step ht (hes e List.mem_cons_self))

theorem fits_of_mem_inOrder {t : Text} {edits : List Edit} (hfit : ∀ e ∈ edits, e.Fits t) :
    ∀ e ∈ inOrder edits, e.Fits t :=
  fun e he => hfit e (mem_sortBy.mp he)

/-- **A BATCH THAT FITS IS SPLICED SAFELY.**  At every point of the pass the
working text is UTF-8, and every edit that is applied there is applied safely;
the batch is spliced, and the outcome is UTF-8. -/
theorem splice_safe (t : Text) (edits : List Edit) (ht : t.IsUtf8)
    (hfit : ∀ e ∈ edits, e.Fits t) :
    (∀ done e rest, inOrder edits = done ++ e :: rest →
        (done.foldl Pass.step (Pass.start t)).result.text.IsUtf8
        ∧ ((done.foldl Pass.step (Pass.start t)).drops e = false →
            SafeToApply (done.foldl Pass.step (Pass.start t)).result.text e))
    ∧ ∃ r, splice t edits = .ok r ∧ r.text.IsUtf8 := by
  have hall := fits_of_mem_inOrder hfit
  refine ⟨?_, spliceValid t edits, splice_eq_ok fun e he => (hfit e he).check, ?_⟩
  · intro done e rest horder
    rw [horder] at hall
    have hdone : ∀ k ∈ done, k.Fits t := fun k hk => hall k (List.mem_append_left _ hk)
    have hsound := Pass.sound_foldl ht hdone (Pass.sound_start t)
    have he : e.Fits t := hall e (List.mem_append_right _ List.mem_cons_self)
    exact ⟨hsound.utf8 ht, hsound.safeToApply ht he⟩
  · exact (Pass.sound_foldl ht hall (Pass.sound_start t)).utf8 ht

/-- The first edit leaves `abcé`, so that the end of the second, byte 4, lies
inside a character it was not checked against. -/
theorem splice_safe_inside_new_character :
    SafeToApply (Text.ofString "abcé") ⟨1, 4, []⟩
      ∧ ∃ r, splice (Text.ofString "abcdef") [⟨1, 4, []⟩, ⟨3, 6, Text.ofString "é"⟩] = .ok r
          ∧ r.text.IsUtf8 := by
  have hfit : ∀ e ∈ ([⟨1, 4, []⟩, ⟨3, 6, Text.ofString "é"⟩] : List Edit),
      e.Fits (Text.ofString "abcdef") := by
    intro e he
    rcases List.mem_cons.mp he with rfl | he
    · exact ⟨by decide, by decide, by decide, by decide, Text.isUtf8_nil⟩
    · rw [List.mem_singleton.mp he]
      exact ⟨by decide, by decide, by decide, by decide, "é", rfl⟩
  obtain ⟨hpoints, hdone⟩ := splice_safe _ _ ⟨"abcdef", rfl⟩ hfit
  have hpoint := hpoints [⟨3, 6, Text.ofString "é"⟩] ⟨1, 4, []⟩ [] (by decide)
  have htext : ([⟨3, 6, Text.ofString "é"⟩].foldl Pass.step
      (Pass.start (Text.ofString "abcdef"))).result.text = Text.ofString "abcé" := by decide
  rw [htext] at hpoint
  exact ⟨hpoint.2 (by decide), hdone⟩

end StructuralEdit
