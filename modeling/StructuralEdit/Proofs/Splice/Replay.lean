/-
  StructuralEdit.Proofs.Splice.Replay
  ───────────────────────────────────
  **THE CHANGES OF A SPLICE REPLAY IT.**

  A parser that reads a spliced text again is told of each applied edit by a
  `Change`: three offsets and three points, taken from the text before the edit
  and from the text after it.  `Replays t es cs w` says that the changes `cs`
  lead, one after the other, from the original `t` to `w`:

      t  ──c₁──▸  w₁  ──c₂──▸  …  ──cₖ──▸  w

  every change telling the truth about its own step (`Change.Tells`), and the
  starts falling from step to step.  As long as an edit ends before what has been
  rewritten, its change also tells where it ends in the ORIGINAL text
  (`Change.KeepsEnd`); an edit that reaches into rewritten text has no such end.
-/
import StructuralEdit.Proofs.PointAdvance
import StructuralEdit.Proofs.Splice.Substitution

namespace StructuralEdit

/-! ## §1. What a change tells. -/

/-- The change tells what applying `e` to the working text `w` does, where `t` is
the original text. -/
structure Change.Tells (t w : Text) (e : Edit) (c : Change) : Prop where
  start_eq : c.start = e.pos
  start_le : c.start ≤ c.oldEnd
  oldEnd_le : c.oldEnd ≤ w.length
  newEnd_eq : c.newEnd = c.start + e.newText.length
  startPoint_eq : c.startPoint = w.pointAt c.start
  startPoint_original : c.startPoint = t.pointAt c.start
  oldEndPoint_eq : c.oldEndPoint = w.pointAt c.oldEnd
  newEndPoint_eq : c.newEndPoint = (w.replaceRange c.start c.oldEnd e.newText).pointAt c.newEnd
  newEndPoint_advance : c.newEndPoint = c.startPoint.advance e.newText

/-- The change has the end that the edit has in the original text `t`. -/
structure Change.KeepsEnd (t : Text) (e : Edit) (c : Change) : Prop where
  oldEnd_eq : c.oldEnd = e.stop
  oldEndPoint_eq : c.oldEndPoint = t.pointAt e.stop

/-- From `t` the edits, applied in order as the changes tell, lead to the text at
the end.  Each start lies before the one of the change before, and an edit that
ends at or before that one keeps its end. -/
inductive Replays (t : Text) : List Edit → List Change → Text → Prop where
  | start : Replays t [] [] t
  | apply {es : List Edit} {cs : List Change} {w : Text} {e : Edit} {c : Change}
      (before : Replays t es cs w) (tells : c.Tells t w e)
      (falls : ∀ k ∈ cs.getLast?, c.start < k.start)
      (keepsEnd : (∀ k ∈ cs.getLast?, e.stop ≤ k.start) → c.KeepsEnd t e) :
      Replays t (es ++ [e]) (cs ++ [c]) (w.replaceRange c.start c.oldEnd e.newText)

/-! ## §2. The change of one step. -/

namespace Pass

variable {t : Text} {p : Pass} {e : Edit}

theorem Sound.pointAt_eq (h : Sound t p) {i : Nat} (hi : i ≤ p.limit t) :
    p.result.text.pointAt i = t.pointAt i :=
  Text.pointAt_eq_of_take_eq (h.take_eq hi)

/-- **The change of an applied edit tells the truth.** -/
theorem Sound.changeOf_tells (h : Sound t p) (ht : t.IsUtf8) (he : e.Fits t)
    (hd : p.drops e = false) : (changeOf p.result.text e).Tells t p.result.text e := by
  have hsafe := h.safeToApply ht he hd
  have hpos : e.pos ≤ p.result.text.length :=
    Nat.le_trans hsafe.pos_le_end hsafe.end_le_length
  refine ⟨rfl, hsafe.pos_le_end, hsafe.end_le_length, rfl, rfl, ?_, rfl, rfl, ?_⟩
  · exact h.pointAt_eq (pos_le_limit he hd)
  · exact Text.pointAt_replaceRange hpos _ _

theorem Sound.changeOf_keepsEnd (h : Sound t p) (he : e.Fits t) (ho : p.overlaps e = false) :
    (changeOf p.result.text e).KeepsEnd t e := by
  have hend : cutEnd p.result.text e = e.stop := h.cutEnd_eq he ho
  refine ⟨hend, ?_⟩
  show p.result.text.pointAt (cutEnd p.result.text e) = _
  rw [hend]
  exact h.pointAt_eq (stop_le_limit he ho)

/-! ## §3. The changes of a run. -/

/-- The last change of a pass starts where the last applied edit does. -/
def Recorded (p : Pass) : Prop :=
  p.result.changes.getLast?.map Change.start = p.lastPos

theorem recorded_step (hp : p.Recorded) (e : Edit) : (p.step e).Recorded := by
  unfold Recorded at hp ⊢
  cases hd : p.drops e with
  | true =>
      rw [step_of_drops hd]
      exact hp
  | false =>
      rw [step_of_applies hd]
      show ((p.result.changes ++ [changeOf p.result.text e]).getLast?).map Change.start = _
      rw [List.getLast?_concat]
      rfl

theorem recorded_foldl (t : Text) (es : List Edit) : (es.foldl step (start t)).Recorded := by
  induction es using List.reverseRecOn with
  | nil => rfl
  | append_singleton es e ih =>
      rw [List.foldl_append]
      exact recorded_step ih e

/-- What is not dropped starts before the last change. -/
theorem Recorded.falls (hp : p.Recorded) (hd : p.drops e = false) :
    ∀ k ∈ p.result.changes.getLast?, e.pos < k.start := by
  intro k hk
  have hlast : p.lastPos = some k.start := by
    rw [← hp, Option.mem_def.mp hk]
    rfl
  have hnot : ¬ k.start ≤ e.pos := by
    unfold drops at hd
    rw [hlast] at hd
    simpa using hd
  omega

/-- What ends at or before the start of the last change overlaps nothing. -/
theorem Recorded.not_overlaps (hp : p.Recorded)
    (hclear : ∀ k ∈ p.result.changes.getLast?, e.stop ≤ k.start) : p.overlaps e = false := by
  unfold overlaps
  cases hlast : p.lastPos with
  | none => rfl
  | some last =>
      rw [← hp] at hlast
      obtain ⟨k, hk, rfl⟩ := Option.map_eq_some_iff.mp hlast
      have hle := hclear k hk
      show decide (k.start < e.stop) = false
      rw [decide_eq_false_iff_not]
      omega

/-- **The changes of a run over applied edits replay it.** -/
theorem replays_foldl {es : List Edit} (ht : t.IsUtf8) (hfit : ∀ e ∈ es, e.Fits t)
    (hfall : es.Pairwise fun a b => b.pos < a.pos) :
    Replays t es (es.foldl step (start t)).result.changes
      (es.foldl step (start t)).result.text := by
  -- one more applied edit is one more change at the end of the list
  induction es using List.reverseRecOn with
  | nil => exact Replays.start
  | append_singleton es e ih =>
      have hfit' : ∀ k ∈ es, k.Fits t := fun k hk => hfit k (List.mem_append_left _ hk)
      have he : e.Fits t := hfit e (List.mem_append_right _ List.mem_cons_self)
      have hd := not_drops_of_falling (t := t) hfall
      have hsound := sound_foldl ht hfit' (sound_start t)
      have hrecorded := recorded_foldl t es
      rw [List.foldl_append, List.foldl_cons, List.foldl_nil, step_of_applies hd]
      exact Replays.apply (ih hfit' (List.pairwise_append.mp hfall).1)
        (hsound.changeOf_tells ht he hd) (hrecorded.falls hd)
        fun hclear => hsound.changeOf_keepsEnd he (hrecorded.not_overlaps hclear)

end Pass

/-! ## §4. Reading a replay. -/

namespace Replays

variable {t w : Text} {es : List Edit} {cs : List Change}

theorem map_start (h : Replays t es cs w) : cs.map Change.start = es.map Edit.pos := by
  induction h with
  | start => rfl
  | apply _ tells _ _ ih =>
      rw [List.map_append, List.map_append, ih, List.map_singleton, List.map_singleton,
          tells.start_eq]

end Replays

/-! ## §5. The changes of a splice. -/

/-- **THE CHANGES OF A SPLICE REPLAY IT.**  A batch that fits is spliced, and its
changes, which are one for each applied edit and in the order of application,
lead step by step from the original text to the outcome.  Their starts are those
of the applied edits and fall strictly. -/
theorem splice_changes_replay (t : Text) (edits : List Edit) (ht : t.IsUtf8)
    (hfit : ∀ e ∈ edits, e.Fits t) :
    ∃ r, splice t edits = .ok r
      ∧ Replays t (appliedEdits t edits) r.changes r.text
      ∧ r.changes.map Change.start = (appliedEdits t edits).map Edit.pos
      ∧ r.changes.Pairwise (fun a b => b.start < a.start) := by
  have hfall := pairwise_appliedEdits t edits
  have hreplays : Replays t (appliedEdits t edits) (spliceValid t edits).changes
      (spliceValid t edits).text := by
    have hrun := Pass.replays_foldl ht (fits_of_mem_appliedEdits hfit) hfall
    rwa [← withoutDrops_spliceValid] at hrun
  have hstarts := hreplays.map_start
  refine ⟨spliceValid t edits, splice_eq_ok fun e he => (hfit e he).check, hreplays, hstarts, ?_⟩
  rw [← List.pairwise_map (f := Change.start) (R := fun a b => b < a), hstarts, List.pairwise_map]
  exact hfall

/-- The second edit to be applied reaches into the two lines that the first one has
written, and writes a line feed and a character of two bytes itself. -/
theorem splice_changes_replay_overlapping :
    ∃ r, splice (Text.ofString "ab\ncd\nef")
        [⟨1, 5, Text.ofString "é\n"⟩, ⟨4, 8, Text.ofString "x\ny"⟩] = .ok r
      ∧ Replays (Text.ofString "ab\ncd\nef")
          [⟨4, 8, Text.ofString "x\ny"⟩, ⟨1, 5, Text.ofString "é\n"⟩] r.changes r.text
      ∧ r.changes.map Change.start = [4, 1] := by
  have hfit : ∀ e ∈ ([⟨1, 5, Text.ofString "é\n"⟩, ⟨4, 8, Text.ofString "x\ny"⟩] : List Edit),
      e.Fits (Text.ofString "ab\ncd\nef") := by
    intro e he
    rcases List.mem_cons.mp he with rfl | he
    · exact ⟨by decide, by decide, by decide, by decide, "é\n", rfl⟩
    · rw [List.mem_singleton.mp he]
      exact ⟨by decide, by decide, by decide, by decide, "x\ny", rfl⟩
  obtain ⟨r, hr, hreplays, hstarts, -⟩ := splice_changes_replay _ _ ⟨"ab\ncd\nef", rfl⟩ hfit
  have happlied : appliedEdits (Text.ofString "ab\ncd\nef")
      [⟨1, 5, Text.ofString "é\n"⟩, ⟨4, 8, Text.ofString "x\ny"⟩]
        = [⟨4, 8, Text.ofString "x\ny"⟩, ⟨1, 5, Text.ofString "é\n"⟩] := by decide
  rw [happlied] at hreplays hstarts
  exact ⟨r, hr, hreplays, hstarts⟩

end StructuralEdit
