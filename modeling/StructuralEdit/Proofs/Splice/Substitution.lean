/-
  StructuralEdit.Proofs.Splice.Substitution
  ─────────────────────────────────────────
  **EDITS THAT ARE APART ARE SUBSTITUTED ALL AT ONCE.**

  A pass rewrites one working text step by step, from right to left.  As long as
  the applied edits are apart, the outcome is what replacing all their ranges in
  the ORIGINAL text at one stroke would give:

      t[0 .. p₁] ++ n₁ ++ t[e₁ .. p₂] ++ n₂ ++ … ++ nₖ ++ t[eₖ ..]

  (`substitute`, the edits in order of rising start).  The induction goes along
  the applied edits: one more edit in front of a substitution, ending at or
  before its first range, is one more replaced range (`replaceRange_substitute`).
  Touching edits, insertions and edits dropped in between need no case of their
  own.
-/
import Mathlib.Data.List.Induction
import StructuralEdit.Proofs.Splice.Boundaries
import StructuralEdit.Proofs.Splice.Fate

namespace StructuralEdit

/-! ## §1. Simultaneous substitution. -/

/-- The text from offset `i` on, with the ranges of the edits replaced. -/
def substituteFrom (t : Text) : Nat → List Edit → Text
  | i, [] => t.drop i
  | i, e :: es => t.slice i e.pos ++ e.newText ++ substituteFrom t e.stop es

/-- The text with the ranges of the edits replaced all at once, the edits being
in order of rising start. -/
def substitute (t : Text) (es : List Edit) : Text :=
  substituteFrom t 0 es

theorem Text.drop_drop_sub (t : Text) {i j : Nat} (hij : i ≤ j) :
    (t.drop i).drop (j - i) = t.drop j := by
  rw [List.drop_drop, Nat.add_sub_of_le hij]

theorem Text.slice_append_slice (t : Text) {i j k : Nat} (hij : i ≤ j) (hjk : j ≤ k) :
    t.slice i j ++ t.slice j k = t.slice i k := by
  unfold Text.slice
  rw [← t.drop_drop_sub hij, show k - i = (j - i) + (k - j) by omega, List.take_add]

theorem Text.slice_append_drop (t : Text) {i j : Nat} (hij : i ≤ j) :
    t.slice i j ++ t.drop j = t.drop i := by
  unfold Text.slice
  rw [← t.drop_drop_sub hij, List.take_append_drop]

theorem Text.length_slice_zero (t : Text) {j : Nat} (hj : j ≤ t.length) :
    (t.slice 0 j).length = j := by
  unfold Text.slice
  rw [List.drop_zero, List.length_take]
  omega

/-- Before the first replaced range a substitution reads as the text. -/
theorem substituteFrom_split (t : Text) {i j : Nat} {es : List Edit} (hij : i ≤ j)
    (hes : ∀ d ∈ es, j ≤ d.pos) :
    substituteFrom t i es = t.slice i j ++ substituteFrom t j es := by
  cases es with
  | nil => exact (t.slice_append_drop hij).symm
  | cons d es =>
      show t.slice i d.pos ++ d.newText ++ _ = _ ++ (t.slice j d.pos ++ d.newText ++ _)
      rw [← t.slice_append_slice hij (hes d List.mem_cons_self)]
      simp only [List.append_assoc]

/-- **One more edit in front is one more replaced range.** -/
theorem replaceRange_substitute {t : Text} {e : Edit} {es : List Edit} (he : e.Fits t)
    (hes : ∀ d ∈ es, e.stop ≤ d.pos) :
    (substitute t es).replaceRange e.pos e.stop e.newText = substitute t (e :: es) := by
  have hordered := he.ordered
  have hinside := he.inside
  unfold substitute Text.replaceRange
  -- nothing is replaced before `e.stop`, so both cuts fall into original text
  have hpos : substituteFrom t 0 es = t.slice 0 e.pos ++ substituteFrom t e.pos es :=
    substituteFrom_split t (Nat.zero_le _) fun d hd => Nat.le_trans hordered (hes d hd)
  have hstop : substituteFrom t 0 es = t.slice 0 e.stop ++ substituteFrom t e.stop es :=
    substituteFrom_split t (Nat.zero_le _) hes
  have htake : (substituteFrom t 0 es).take e.pos = t.slice 0 e.pos := by
    rw [hpos, List.take_left' (t.length_slice_zero (by omega))]
  have hdrop : (substituteFrom t 0 es).drop e.stop = substituteFrom t e.stop es := by
    rw [hstop, List.drop_left' (t.length_slice_zero hinside)]
  rw [htake, hdrop]
  rfl

/-! ## §2. Edits that are apart. -/

/-- One of the edits ends at or before the start of the other. -/
def Edit.Apart (a b : Edit) : Prop :=
  a.stop ≤ b.pos ∨ b.stop ≤ a.pos

instance (a b : Edit) : Decidable (a.Apart b) :=
  inferInstanceAs (Decidable (_ ∨ _))

theorem Edit.Apart.symm {a b : Edit} (h : a.Apart b) : b.Apart a :=
  Or.symm h

/-- Each edit of the list ends at or before the start of every earlier one. -/
def Receding (es : List Edit) : Prop :=
  es.Pairwise fun a b => b.stop ≤ a.pos

/-- Where the starts fall, apart is receding. -/
theorem pairwise_apart_iff_receding {es : List Edit} (hordered : ∀ e ∈ es, e.pos ≤ e.stop)
    (hfall : es.Pairwise fun a b => b.pos < a.pos) :
    es.Pairwise Edit.Apart ↔ Receding es := by
  unfold Receding
  constructor
  · intro h
    refine (h.and hfall).imp_of_mem fun {a b} ha _ hab => ?_
    obtain ⟨hapart, hlt⟩ := hab
    have := hordered a ha
    rcases hapart with h1 | h2
    · -- ending at or before the start of `b`, `a` would start there too
      omega
    · exact h2
  · intro h
    exact h.imp fun hab => Or.inr hab

/-! ## §3. A run over applied edits. -/

namespace Pass

variable {t : Text} {es : List Edit}

theorem not_drops_of_falling {e : Edit}
    (hfall : (es ++ [e]).Pairwise fun a b => b.pos < a.pos) :
    (es.foldl step (start t)).drops e = false := by
  rw [← Bool.not_eq_true, drops_foldl_start]
  intro h
  obtain ⟨k, hk, hle⟩ := h
  have hlt := (List.pairwise_append.mp hfall).2.2 k hk e List.mem_cons_self
  omega

/-- **A run over receding edits substitutes them.** -/
theorem text_foldl_of_receding (ht : t.IsUtf8) (hfit : ∀ e ∈ es, e.Fits t)
    (hfall : es.Pairwise fun a b => b.pos < a.pos) (hrec : Receding es) :
    (es.foldl step (start t)).result.text = substitute t es.reverse := by
  -- from the right: the last applied edit is the first of the substitution
  induction es using List.reverseRecOn with
  | nil => rfl
  | append_singleton es e ih =>
      have hfit' : ∀ k ∈ es, k.Fits t := fun k hk => hfit k (List.mem_append_left _ hk)
      have he : e.Fits t := hfit e (List.mem_append_right _ List.mem_cons_self)
      obtain ⟨hrec', -, hlast⟩ := List.pairwise_append.mp hrec
      have hstop : ∀ k ∈ es, e.stop ≤ k.pos := fun k hk => hlast k hk e List.mem_cons_self
      have ih' := ih hfit' (List.pairwise_append.mp hfall).1 hrec'
      -- clear of what is rewritten, the edit keeps its end
      have hsound := sound_foldl ht hfit' (sound_start t)
      have hclear : (es.foldl step (start t)).overlaps e = false := by
        rw [← Bool.not_eq_true, overlaps_foldl_start]
        intro h
        obtain ⟨k, hk, hlt⟩ := h
        have := hstop k hk
        omega
      rw [List.foldl_append, List.foldl_cons, List.foldl_nil,
          step_of_applies (not_drops_of_falling hfall)]
      show (es.foldl step (start t)).result.text.replaceRange e.pos _ e.newText = _
      rw [hsound.cutEnd_eq he hclear, ih', List.reverse_append, List.reverse_singleton,
          List.singleton_append]
      exact replaceRange_substitute he fun d hd => hstop d (List.mem_reverse.mp hd)

/-- **The notices tell whether the applied edits recede.** -/
theorem overlapped_mem_foldl_iff (hfall : es.Pairwise fun a b => b.pos < a.pos) :
    Notice.overlapped ∈ (es.foldl step (start t)).result.notices ↔ ¬ Receding es := by
  induction es using List.reverseRecOn with
  | nil => simp [start, Receding]
  | append_singleton es e ih =>
      have hsplit : Receding (es ++ [e]) ↔ Receding es ∧ ∀ k ∈ es, e.stop ≤ k.pos := by
        unfold Receding
        rw [List.pairwise_append]
        simp
      have hover : (es.foldl step (start t)).overlaps e = true ↔ ¬ ∀ k ∈ es, e.stop ≤ k.pos := by
        rw [overlaps_foldl_start]
        simp only [not_forall, Nat.not_le, exists_prop]
      rw [List.foldl_append, List.foldl_cons, List.foldl_nil,
          step_of_applies (not_drops_of_falling hfall), hsplit, not_and_or,
          ← ih (List.pairwise_append.mp hfall).1, ← hover]
      cases (es.foldl step (start t)).overlaps e <;> simp

end Pass

/-! ## §4. The order of reading. -/

/-- `a` starts at or before the start of `b`. -/
def Edit.startsBy (a b : Edit) : Bool :=
  a.pos ≤ b.pos

/-- The edits in order of rising start. -/
def inReadingOrder (es : List Edit) : List Edit :=
  sortBy Edit.startsBy es

theorem inReadingOrder_of_falling {es : List Edit}
    (hfall : es.Pairwise fun a b => b.pos < a.pos) : inReadingOrder es = es.reverse := by
  apply sortBy_eq_reverse
  refine hfall.imp fun {a b} hlt => ?_
  unfold Edit.startsBy
  rw [decide_eq_false_iff_not]
  omega

theorem inReadingOrder_eq_of_perm {xs ys : List Edit} (hperm : xs.Perm ys)
    (hstarts : xs.Pairwise fun a b => a.pos ≠ b.pos) :
    inReadingOrder xs = inReadingOrder ys := by
  refine sortBy_eq_of_perm ?_ ?_ hperm ?_
  · intro a b c
    simp only [Edit.startsBy, decide_eq_true_eq]
    omega
  · intro a b
    simp only [Edit.startsBy, Bool.or_eq_true, decide_eq_true_eq]
    omega
  · intro a ha b hb hab hba
    simp only [Edit.startsBy, decide_eq_true_eq] at hab hba
    -- in both directions, since the list says it of earlier and later members only
    have hinj : ∀ a ∈ xs, ∀ b ∈ xs, a.pos = b.pos → a = b :=
      List.Pairwise.forall_of_forall_of_flip (fun _ _ _ => rfl)
        (hstarts.imp fun hne heq => absurd heq hne)
        (hstarts.imp fun hne heq => absurd heq.symm hne)
    exact hinj a ha b hb (Nat.le_antisymm hab hba)

/-! ## §5. A queue without conflicts. -/

/-- Edits that are apart and start at different offsets do not displace each other. -/
theorem not_displaced_of_apart {edits : List Edit} (hordered : ∀ e ∈ edits, e.pos ≤ e.stop)
    (hapart : edits.Pairwise Edit.Apart) (hstarts : edits.Pairwise fun a b => a.pos ≠ b.pos)
    {i : Nat} (hi : i < edits.length) : ¬ Displaced edits (edits[i], i) := by
  rw [displaced_getElem_iff hi]
  intro h
  obtain ⟨j, hj, hne, hle, hcase⟩ := h
  have hpairs := List.pairwise_iff_getElem.mp (hapart.and hstarts)
  have hij : edits[i].Apart edits[j] ∧ edits[i].pos ≠ edits[j].pos := by
    rcases Nat.lt_or_gt_of_ne hne with hlt | hgt
    · obtain ⟨h1, h2⟩ := hpairs j i hj hi hlt
      exact ⟨h1.symm, h2.symm⟩
    · exact hpairs i j hi hj hgt
  have hi_ordered := hordered edits[i] (List.getElem_mem hi)
  have hj_ordered := hordered edits[j] (List.getElem_mem hj)
  rcases hij.1 with h | h <;> omega

theorem appliedEdits_eq_inOrder {t : Text} {edits : List Edit}
    (hkeep : ∀ q ∈ edits.zipIdx, ¬ Displaced edits q) :
    appliedEdits t edits = inOrder edits := by
  unfold appliedEdits appliedQueue
  rw [sift_placed, List.filter_eq_self.mpr, map_fst_placed]
  intro q hq
  simpa using hkeep q (mem_sortBy.mp hq)

theorem droppedQueue_eq_nil {t : Text} {edits : List Edit}
    (hkeep : ∀ q ∈ edits.zipIdx, ¬ Displaced edits q) : droppedQueue t edits = [] := by
  rw [List.eq_nil_iff_forall_not_mem]
  intro q hq
  obtain ⟨hmem, hdisplaced⟩ := mem_droppedQueue_iff.mp hq
  exact hkeep q hmem hdisplaced

/-! ## §6. The splice is the substitution. -/

theorem fits_of_mem_appliedEdits {t : Text} {edits : List Edit}
    (hfit : ∀ e ∈ edits, e.Fits t) : ∀ e ∈ appliedEdits t edits, e.Fits t := by
  intro e he
  obtain ⟨q, hq, rfl⟩ := List.mem_map.mp he
  exact hfit q.1 (List.fst_mem_of_mem_zipIdx (mem_appliedQueue_iff.mp hq).1)

theorem overlapped_mem_spliceValid_iff {t : Text} {edits : List Edit} :
    Notice.overlapped ∈ (spliceValid t edits).notices ↔ ¬ Receding (appliedEdits t edits) := by
  rw [← Pass.overlapped_mem_foldl_iff (t := t) (pairwise_appliedEdits t edits),
      ← withoutDrops_spliceValid]
  simp [Splice.withoutDrops]

theorem text_spliceValid_of_apart {t : Text} {edits : List Edit} (ht : t.IsUtf8)
    (hfit : ∀ e ∈ edits, e.Fits t) (hapart : (appliedEdits t edits).Pairwise Edit.Apart) :
    (spliceValid t edits).text = substitute t (inReadingOrder (appliedEdits t edits)) := by
  have hfit' := fits_of_mem_appliedEdits hfit
  have hfall := pairwise_appliedEdits t edits
  have hrec := (pairwise_apart_iff_receding (fun e he => (hfit' e he).ordered) hfall).mp hapart
  rw [inReadingOrder_of_falling hfall, ← Pass.text_foldl_of_receding ht hfit' hfall hrec,
      ← withoutDrops_spliceValid]
  rfl

/-- **EDITS THAT ARE APART ARE SUBSTITUTED ALL AT ONCE.**  A batch that fits is
spliced; its applied edits are pairwise apart exactly if no overlap is noticed,
and then the outcome is their simultaneous substitution into the original text.
If the queued edits are themselves apart and start at different offsets, every
one of them is applied and the outcome is the substitution of them all. -/
theorem splice_substitutes (t : Text) (edits : List Edit) (ht : t.IsUtf8)
    (hfit : ∀ e ∈ edits, e.Fits t) :
    ∃ r, splice t edits = .ok r
      ∧ ((appliedEdits t edits).Pairwise Edit.Apart ↔ Notice.overlapped ∉ r.notices)
      ∧ ((appliedEdits t edits).Pairwise Edit.Apart →
          r.text = substitute t (inReadingOrder (appliedEdits t edits)))
      ∧ (edits.Pairwise Edit.Apart → (edits.Pairwise fun a b => a.pos ≠ b.pos) →
          (appliedEdits t edits).Perm edits ∧ droppedQueue t edits = []
          ∧ r.tally = { applied := edits.length, dropped := 0 }
          ∧ r.text = substitute t (inReadingOrder edits)) := by
  have hfit' := fits_of_mem_appliedEdits hfit
  have hfall := pairwise_appliedEdits t edits
  refine ⟨spliceValid t edits, splice_eq_ok fun e he => (hfit e he).check, ?_,
    text_spliceValid_of_apart ht hfit, ?_⟩
  · rw [pairwise_apart_iff_receding (fun e he => (hfit' e he).ordered) hfall,
        overlapped_mem_spliceValid_iff, not_not]
  · -- without conflicts nothing is displaced, and the applied edits are the queue
    intro hapart hstarts
    have hkeep : ∀ q ∈ edits.zipIdx, ¬ Displaced edits q := by
      intro q hq
      obtain ⟨e, i⟩ := q
      obtain ⟨hi, rfl⟩ := exists_getElem_of_mem_zipIdx hq
      exact not_displaced_of_apart (fun e he => (hfit e he).ordered) hapart hstarts hi
    have hperm : (appliedEdits t edits).Perm edits := by
      rw [appliedEdits_eq_inOrder hkeep]
      exact sortBy_perm _ edits
    have hdropped := droppedQueue_eq_nil (t := t) hkeep
    refine ⟨hperm, hdropped, ?_, ?_⟩
    · have htotal := length_appliedQueue_add t edits
      rw [hdropped, List.length_nil, Nat.add_zero] at htotal
      rw [tally_spliceValid, hdropped, htotal, List.length_nil]
    · rw [text_spliceValid_of_apart ht hfit
            (hperm.symm.pairwise hapart fun {_ _} h => h.symm),
          inReadingOrder_eq_of_perm hperm.symm hstarts]

/-- A removal, a replacement and an insertion that touch each other around a
character of two bytes, queued out of order. -/
theorem splice_substitutes_touching :
    ∃ r, splice (Text.ofString "aéb")
        [⟨1, 3, Text.ofString "xyz"⟩, ⟨3, 3, Text.ofString "ü"⟩, ⟨0, 1, []⟩] = .ok r
      ∧ r.text = Text.ofString "xyzüb" ∧ r.tally = { applied := 3, dropped := 0 }
      ∧ Notice.overlapped ∉ r.notices := by
  have hfit : ∀ e ∈ ([⟨1, 3, Text.ofString "xyz"⟩, ⟨3, 3, Text.ofString "ü"⟩, ⟨0, 1, []⟩] :
      List Edit), e.Fits (Text.ofString "aéb") := by
    intro e he
    simp only [List.mem_cons, List.not_mem_nil, or_false] at he
    rcases he with rfl | rfl | rfl
    · exact ⟨by decide, by decide, by decide, by decide, "xyz", rfl⟩
    · exact ⟨by decide, by decide, by decide, by decide, "ü", rfl⟩
    · exact ⟨by decide, by decide, by decide, by decide, Text.isUtf8_nil⟩
  obtain ⟨r, hr, hnotice, htext, hall⟩ := splice_substitutes _ _ ⟨"aéb", rfl⟩ hfit
  obtain ⟨-, -, htally, -⟩ := hall (by decide) (by decide)
  exact ⟨r, hr, (htext (by decide)).trans (by decide), htally, hnotice.mp (by decide)⟩

end StructuralEdit
