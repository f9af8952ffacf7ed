/-
  StructuralEdit.Proofs.Splice.Fate
  ─────────────────────────────────
  **WHICH EDITS OF A BATCH SURVIVE.**

  Whether a pass drops an edit seems to hang on the whole history of the pass.
  It does not.  The edit at place `i` is dropped exactly if the queue holds an
  edit at some place `j` that DISPLACES it:

      it starts no later, and it ends later
                          or has the same range and `j < i`.

  The reason is in two parts: the last applied start is the least start met so
  far (`Pass.reached_foldl`), and the edits met before a given one are those
  that end later, those that end with it and start later, and the earlier ones
  of its own range (`pairwise_placed`).  So the applied edits are a plain
  `filter` of the sorted queue (`sift_placed`), and everything else — counts,
  starts that fall strictly, what happens when the dropped edits are removed —
  is read off that filter.
-/
import StructuralEdit.Proofs.Splice.Pass
import StructuralEdit.Proofs.StableSort

namespace StructuralEdit

/-! ## §1. The queue in order of application, with places. -/

theorem Edit.before_iff {a b : Edit} :
    a.before b = true ↔ b.stop < a.stop ∨ (a.stop = b.stop ∧ b.pos ≤ a.pos) := by
  unfold Edit.before
  simp

theorem Edit.before_trans (a b c : Edit) (hab : a.before b = true) (hbc : b.before c = true) :
    a.before c = true := by
  rw [Edit.before_iff] at hab hbc ⊢
  omega

theorem Edit.before_total (a b : Edit) : (a.before b || b.before a) = true := by
  rw [Bool.or_eq_true, Edit.before_iff, Edit.before_iff]
  omega

/-- The edits of a queue with their places, in the order of application. -/
def placed (edits : List Edit) : List (Edit × Nat) :=
  sortBy (fun a b => a.1.before b.1) edits.zipIdx

theorem map_fst_placed (edits : List Edit) : (placed edits).map Prod.fst = inOrder edits := by
  unfold placed inOrder
  rw [map_sortBy Prod.fst fun _ _ => rfl, List.zipIdx_map_fst]

theorem spliceValid_eq_run (t : Text) (edits : List Edit) :
    spliceValid t edits = ((Pass.start t).run (placed edits)).result := by
  unfold spliceValid Pass.run
  rw [map_fst_placed]

theorem pairwise_zipIdx (edits : List Edit) :
    edits.zipIdx.Pairwise fun a b => a.2 < b.2 := by
  rw [← List.pairwise_map, List.zipIdx_map_snd]
  exact List.pairwise_lt_range'

theorem mk_getElem_mem_zipIdx {edits : List Edit} {i : Nat} (hi : i < edits.length) :
    (edits[i], i) ∈ edits.zipIdx := by
  rw [List.mk_mem_zipIdx_iff_getElem?]
  exact List.getElem?_eq_getElem hi

theorem exists_getElem_of_mem_zipIdx {edits : List Edit} {e : Edit} {i : Nat}
    (h : (e, i) ∈ edits.zipIdx) : ∃ hi : i < edits.length, edits[i] = e :=
  List.getElem?_eq_some_iff.mp (List.mk_mem_zipIdx_iff_getElem?.mp h)

/-- `a` is met before `b`: by falling end, then falling start, then rising place. -/
def Ahead (a b : Edit × Nat) : Prop :=
  a.1.before b.1 = true ∧ (b.1.before a.1 = true → a.2 < b.2)

theorem Ahead.asymm {a b : Edit × Nat} (hab : Ahead a b) : ¬ Ahead b a := by
  intro h
  obtain ⟨hba, htie⟩ := h
  have h1 := hab.2 hba
  have h2 := htie hab.1
  omega

/-- **The sorted queue is strictly in order of application.** -/
theorem pairwise_placed (edits : List Edit) : (placed edits).Pairwise Ahead := by
  have hsorted : (placed edits).Pairwise fun a b => a.1.before b.1 = true :=
    pairwise_sortBy (fun a b c => Edit.before_trans a.1 b.1 c.1)
      (fun a b => Edit.before_total a.1 b.1) edits.zipIdx
  exact hsorted.and (stable_sortBy _ (pairwise_zipIdx edits))

/-- What is ahead of an element stands before it. -/
theorem mem_left_of_ahead {left right : List (Edit × Nat)} {k q : Edit × Nat}
    (h : (left ++ q :: right).Pairwise Ahead) (hk : k ∈ left ++ q :: right)
    (hkq : Ahead k q) : k ∈ left := by
  obtain ⟨-, hright, -⟩ := List.pairwise_append.mp h
  obtain ⟨hq, -⟩ := List.pairwise_cons.mp hright
  rcases List.mem_append.mp hk with hk | hk
  · exact hk
  · rcases List.mem_cons.mp hk with rfl | hk
    · exact absurd hkq hkq.asymm
    · exact absurd (hq k hk) hkq.asymm

/-! ## §2. Displacement. -/

/-- The edit `k` takes the place of the edit `q`. -/
def Displaces (k q : Edit × Nat) : Prop :=
  k.1.pos ≤ q.1.pos
    ∧ (q.1.stop < k.1.stop
        ∨ (k.1.pos = q.1.pos ∧ k.1.stop = q.1.stop ∧ k.2 < q.2))

instance (k q : Edit × Nat) : Decidable (Displaces k q) :=
  inferInstanceAs (Decidable (_ ∧ (_ ∨ _)))

theorem displaces_iff_ahead {k q : Edit × Nat} :
    Displaces k q ↔ Ahead k q ∧ k.1.pos ≤ q.1.pos := by
  unfold Displaces Ahead
  simp only [Edit.before_iff]
  omega

/-- Some edit of the queue takes the place of `q`. -/
def Displaced (edits : List Edit) (q : Edit × Nat) : Prop :=
  ∃ k ∈ edits.zipIdx, Displaces k q

instance (edits : List Edit) (q : Edit × Nat) : Decidable (Displaced edits q) :=
  inferInstanceAs (Decidable (∃ k ∈ edits.zipIdx, Displaces k q))

/-- A pass that has met exactly what stands before `q` drops it if and only if it
is displaced. -/
theorem drops_run_iff_displaced {t : Text} {edits : List Edit} {left right : List (Edit × Nat)}
    {q : Edit × Nat} (h : placed edits = left ++ q :: right) :
    ((Pass.start t).run left).drops q.1 = true ↔ Displaced edits q := by
  have hpair : (left ++ q :: right).Pairwise Ahead := h ▸ pairwise_placed edits
  have hmem : ∀ k, k ∈ edits.zipIdx ↔ k ∈ left ++ q :: right := by
    intro k
    rw [← h]
    exact mem_sortBy.symm
  unfold Pass.run
  rw [Pass.drops_foldl_start]
  -- the left side now speaks of the starts in `left`, and `left` is what is ahead of `q`
  constructor
  · intro h
    obtain ⟨e, he, hle⟩ := h
    obtain ⟨k, hk, rfl⟩ := List.mem_map.mp he
    have hahead : Ahead k q :=
      (List.pairwise_append.mp hpair).2.2 k hk q List.mem_cons_self
    exact ⟨k, (hmem k).mpr (List.mem_append_left _ hk), displaces_iff_ahead.mpr ⟨hahead, hle⟩⟩
  · intro h
    obtain ⟨k, hk, hkq⟩ := h
    obtain ⟨hahead, hle⟩ := displaces_iff_ahead.mp hkq
    exact ⟨k.1, List.mem_map_of_mem (mem_left_of_ahead hpair ((hmem k).mp hk) hahead), hle⟩

/-- **The run sifts the queue by displacement.** -/
theorem sift_placed_from (t : Text) (edits : List Edit) (dropped : Bool) :
    ∀ right left, placed edits = left ++ right →
      ((Pass.start t).run left).sift dropped right
        = right.filter fun q => decide (Displaced edits q) == dropped := by
  -- on what is still to be met; `left` is what the pass has met, in order
  intro right
  induction right with
  | nil => intro left _; rfl
  | cons q right ih =>
      intro left h
      have hnext : ((Pass.start t).run left).step q.1 = (Pass.start t).run (left ++ [q]) := by
        simp [Pass.run]
      have hih := ih (left ++ [q]) (by simpa using h)
      have hdrops : ((Pass.start t).run left).drops q.1 = decide (Displaced edits q) := by
        rw [Bool.eq_iff_iff, drops_run_iff_displaced h, decide_eq_true_eq]
      by_cases hq : decide (Displaced edits q) = dropped
      · rw [Pass.sift_cons_of_eq (hdrops.trans hq), hnext, hih,
            List.filter_cons_of_pos (by simpa using hq)]
      · rw [Pass.sift_cons_of_ne (fun hd => hq (hdrops.symm.trans hd)), hnext, hih,
            List.filter_cons_of_neg (by simpa using hq)]

theorem sift_placed (t : Text) (edits : List Edit) (dropped : Bool) :
    (Pass.start t).sift dropped (placed edits)
      = (placed edits).filter fun q => decide (Displaced edits q) == dropped :=
  sift_placed_from t edits dropped (placed edits) [] rfl

/-! ## §3. The applied and the dropped part of a queue. -/

/-- The edits that `splice` applies, with their places, in the order in which it
applies them. -/
def appliedQueue (t : Text) (edits : List Edit) : List (Edit × Nat) :=
  (Pass.start t).sift false (placed edits)

/-- The edits that `splice` drops, with their places. -/
def droppedQueue (t : Text) (edits : List Edit) : List (Edit × Nat) :=
  (Pass.start t).sift true (placed edits)

/-- The edits that `splice` applies, in the order in which it applies them. -/
def appliedEdits (t : Text) (edits : List Edit) : List Edit :=
  (appliedQueue t edits).map Prod.fst

/-- The queue with the dropped edits removed. -/
def keptQueue (t : Text) (edits : List Edit) : List Edit :=
  (edits.zipIdx.filter fun q => q ∉ droppedQueue t edits).map Prod.fst

theorem mem_sift_placed_iff {t : Text} {edits : List Edit} {dropped : Bool} {q : Edit × Nat} :
    q ∈ (Pass.start t).sift dropped (placed edits)
      ↔ q ∈ edits.zipIdx ∧ decide (Displaced edits q) = dropped := by
  rw [sift_placed, List.mem_filter, beq_iff_eq]
  unfold placed
  rw [mem_sortBy]

theorem mem_droppedQueue_iff {t : Text} {edits : List Edit} {q : Edit × Nat} :
    q ∈ droppedQueue t edits ↔ q ∈ edits.zipIdx ∧ Displaced edits q := by
  unfold droppedQueue
  rw [mem_sift_placed_iff, decide_eq_true_eq]

theorem mem_appliedQueue_iff {t : Text} {edits : List Edit} {q : Edit × Nat} :
    q ∈ appliedQueue t edits ↔ q ∈ edits.zipIdx ∧ ¬ Displaced edits q := by
  unfold appliedQueue
  rw [mem_sift_placed_iff, decide_eq_false_iff_not]

theorem length_placed (edits : List Edit) : (placed edits).length = edits.length := by
  unfold placed
  rw [(sortBy_perm _ _).length_eq, List.length_zipIdx]

theorem length_appliedQueue_add (t : Text) (edits : List Edit) :
    (appliedQueue t edits).length + (droppedQueue t edits).length = edits.length := by
  unfold appliedQueue droppedQueue
  rw [sift_placed, sift_placed, ← length_placed edits, ← List.countP_eq_length_filter,
      ← List.countP_eq_length_filter,
      List.length_eq_countP_add_countP fun q => decide (Displaced edits q)]
  simp only [beq_true, beq_false, Bool.not_eq_true, decide_eq_false_iff_not, decide_not]
  omega

/-- Every step counts its edit under the edit's fate. -/
theorem tally_spliceValid (t : Text) (edits : List Edit) :
    (spliceValid t edits).tally
      = { applied := (appliedQueue t edits).length
          dropped := (droppedQueue t edits).length } := by
  have happlied := Pass.measure_run (fun r => r.tally.applied)
    Pass.applied_step (Pass.start t) (placed edits)
  have hdropped := Pass.measure_run (fun r => r.tally.dropped)
    Pass.dropped_step (Pass.start t) (placed edits)
  rw [← spliceValid_eq_run] at happlied hdropped
  show (⟨(spliceValid t edits).tally.applied, (spliceValid t edits).tally.dropped⟩ : Tally) = _
  rw [happlied, hdropped]
  show (⟨0 + _, 0 + _⟩ : Tally) = _
  rw [Nat.zero_add, Nat.zero_add]
  rfl

theorem length_changes_spliceValid (t : Text) (edits : List Edit) :
    (spliceValid t edits).changes.length = (appliedQueue t edits).length := by
  rw [spliceValid_eq_run, Pass.measure_run (fun r => r.changes.length)
    Pass.length_changes_step]
  exact Nat.zero_add _

theorem count_dropped_spliceValid (t : Text) (edits : List Edit) :
    (spliceValid t edits).notices.count .dropped = (droppedQueue t edits).length := by
  rw [spliceValid_eq_run, Pass.measure_run (fun r => r.notices.count .dropped)
    Pass.count_dropped_step]
  exact Nat.zero_add _

/-- The starts of the applied edits fall strictly. -/
theorem pairwise_appliedEdits (t : Text) (edits : List Edit) :
    (appliedEdits t edits).Pairwise fun a b => b.pos < a.pos := by
  unfold appliedEdits
  rw [List.pairwise_map]
  have hahead : (appliedQueue t edits).Pairwise Ahead := by
    unfold appliedQueue
    rw [sift_placed]
    exact (pairwise_placed edits).filter _
  refine hahead.imp_of_mem fun {a b} ha hb hab => ?_
  apply Nat.lt_of_not_le
  intro hle
  -- otherwise `a` would displace `b`, which is applied
  exact (mem_appliedQueue_iff.mp hb).2
    ⟨a, (mem_appliedQueue_iff.mp ha).1, displaces_iff_ahead.mpr ⟨hab, hle⟩⟩

/-! ## §4. Removing the dropped edits. -/

theorem inOrder_keptQueue (t : Text) (edits : List Edit) :
    inOrder (keptQueue t edits) = appliedEdits t edits := by
  have hkept : (edits.zipIdx.filter fun q => q ∉ droppedQueue t edits)
      = edits.zipIdx.filter fun q => decide (Displaced edits q) == false := by
    apply List.filter_congr
    intro q hq
    simp [mem_droppedQueue_iff, hq]
  -- a part of the queue, sorted, is that part of the sorted queue
  unfold keptQueue appliedEdits appliedQueue inOrder
  rw [hkept, sift_placed, ← map_sortBy Prod.fst fun _ _ => rfl]
  unfold placed
  rw [filter_sortBy (fun a b c => Edit.before_trans a.1 b.1 c.1)
        (fun a b => Edit.before_total a.1 b.1)]

/-- **The applied edits decide the splice**, the account of dropped edits aside. -/
theorem withoutDrops_spliceValid (t : Text) (edits : List Edit) :
    (spliceValid t edits).withoutDrops
      = ((appliedEdits t edits).foldl Pass.step (Pass.start t)).result := by
  have hrun := Pass.withoutDrops_run (Pass.start t) (placed edits)
  rw [Pass.withoutDrops_start] at hrun
  rw [spliceValid_eq_run t edits]
  show ((Pass.start t).run (placed edits)).withoutDrops.result = _
  rw [hrun]
  rfl

/-- Removing the dropped edits removes the account of them and nothing else. -/
theorem spliceValid_keptQueue (t : Text) (edits : List Edit) :
    spliceValid t (keptQueue t edits) = (spliceValid t edits).withoutDrops := by
  rw [withoutDrops_spliceValid, ← inOrder_keptQueue]
  rfl

theorem mem_of_mem_keptQueue {t : Text} {edits : List Edit} {e : Edit}
    (h : e ∈ keptQueue t edits) : e ∈ edits := by
  obtain ⟨q, hq, rfl⟩ := List.mem_map.mp h
  exact List.fst_mem_of_mem_zipIdx (List.mem_filter.mp hq).1

/-! ## §5. Conflicts are settled by displacement. -/

/-- An edit is displaced exactly if another place of the queue displaces it. -/
theorem displaced_getElem_iff {edits : List Edit} {i : Nat} (hi : i < edits.length) :
    Displaced edits (edits[i], i) ↔
      ∃ j, ∃ hj : j < edits.length, j ≠ i ∧ edits[j].pos ≤ edits[i].pos
        ∧ (edits[i].stop < edits[j].stop
            ∨ (edits[j].pos = edits[i].pos ∧ edits[j].stop = edits[i].stop ∧ j < i)) := by
  constructor
  · intro h
    obtain ⟨⟨k, j⟩, hk, hle, hcase⟩ := h
    obtain ⟨hj, rfl⟩ := exists_getElem_of_mem_zipIdx hk
    refine ⟨j, hj, ?_, hle, hcase⟩
    -- no place displaces itself
    intro heq
    subst heq
    have hcase' : edits[j].stop < edits[j].stop
        ∨ (edits[j].pos = edits[j].pos ∧ edits[j].stop = edits[j].stop ∧ j < j) := hcase
    omega
  · intro h
    obtain ⟨j, hj, -, hle, hcase⟩ := h
    exact ⟨(edits[j], j), mk_getElem_mem_zipIdx hj, hle, hcase⟩

/-- **CONFLICTS, EXACTLY.**  A checked batch is spliced; the edit at place `i` is
dropped if and only if the queue holds another edit that starts no later and
either ends later or has the same range and an earlier place; every other edit
is applied.  Every edit is counted once, every applied edit leaves one change,
every dropped edit one notice, and removing the dropped edits from the queue
changes neither the text nor the changes. -/
theorem splice_drops_iff_displaced (t : Text) (edits : List Edit)
    (hcheck : ∀ e ∈ edits, e.check t = .ok ()) :
    ∃ r, splice t edits = .ok r
      ∧ (∀ i (hi : i < edits.length),
          ((edits[i], i) ∈ droppedQueue t edits ↔
            ∃ j, ∃ hj : j < edits.length, j ≠ i ∧ edits[j].pos ≤ edits[i].pos
              ∧ (edits[i].stop < edits[j].stop
                  ∨ (edits[j].pos = edits[i].pos ∧ edits[j].stop = edits[i].stop ∧ j < i)))
          ∧ ((edits[i], i) ∈ appliedQueue t edits ↔ (edits[i], i) ∉ droppedQueue t edits))
      ∧ r.tally.applied = (appliedQueue t edits).length
      ∧ r.tally.dropped = (droppedQueue t edits).length
      ∧ r.tally.applied + r.tally.dropped = edits.length
      ∧ r.changes.length = r.tally.applied
      ∧ r.notices.count .dropped = r.tally.dropped
      ∧ ∃ r', splice t (keptQueue t edits) = .ok r'
          ∧ r'.text = r.text ∧ r'.changes = r.changes ∧ r'.tally.dropped = 0 := by
  refine ⟨spliceValid t edits, splice_eq_ok hcheck, ?_⟩
  rw [tally_spliceValid, length_changes_spliceValid, count_dropped_spliceValid]
  refine ⟨?_, rfl, rfl, length_appliedQueue_add t edits, rfl, rfl, ?_⟩
  · intro i hi
    rw [mem_appliedQueue_iff, mem_droppedQueue_iff, displaced_getElem_iff hi]
    simp only [mk_getElem_mem_zipIdx hi, true_and, iff_self, and_self]
  · refine ⟨_, splice_eq_ok fun e he => hcheck e (mem_of_mem_keptQueue he), ?_⟩
    rw [spliceValid_keptQueue]
    exact ⟨rfl, rfl, rfl⟩

/-- A partial overlap, a duplicate range and a nested edit in one batch: the
overlap is applied, the duplicate and the nested edit are dropped. -/
theorem splice_drops_iff_displaced_clashing :
    ∃ r, splice (Text.ofString "héllo!")
        [⟨1, 5, [88]⟩, ⟨3, 7, []⟩, ⟨1, 5, [89]⟩, ⟨3, 4, [90]⟩] = .ok r
      ∧ r.tally.applied = 2 ∧ r.tally.dropped = 2 ∧ r.changes.length = 2
      ∧ (⟨1, 5, [89]⟩, 2) ∈ droppedQueue (Text.ofString "héllo!")
          [⟨1, 5, [88]⟩, ⟨3, 7, []⟩, ⟨1, 5, [89]⟩, ⟨3, 4, [90]⟩] := by
  obtain ⟨r, hr, hplace, happlied, hdropped, -, hchanges, -⟩ :=
    splice_drops_iff_displaced (Text.ofString "héllo!")
      [⟨1, 5, [88]⟩, ⟨3, 7, []⟩, ⟨1, 5, [89]⟩, ⟨3, 4, [90]⟩]
      (fun e he => Edit.check_eq_ok_iff.mpr (by revert e; decide))
  have htwo : r.tally.applied = 2 := happlied.trans (by decide)
  refine ⟨r, hr, htwo, hdropped.trans (by decide), hchanges.trans htwo, ?_⟩
  exact (hplace 2 (by decide)).1.mpr
    ⟨0, by decide, by decide, by decide, Or.inr ⟨by decide, by decide, by decide⟩⟩

end StructuralEdit
