/-
  StructuralEdit.Proofs.Splice.Pass
  ─────────────────────────────────
  **WHAT ONE STEP OF A PASS DOES, AND WHAT A RUN OF STEPS DOES.**

  A step either drops its edit or applies it (`step_of_drops`,
  `step_of_applies`).  Later arguments read a pass through two lenses only:

    • `Reached p n` — an edit that starts at or before `n` has been met.  A step
      adds exactly its own start (`reached_step`), so the start of the last
      APPLIED edit is the least start of all edits met so far, the dropped ones
      included (`reached_foldl`);
    • `withoutDrops` — the pass with the account of dropped edits left out.  A
      run depends on its applied edits alone (`withoutDrops_run`).
-/
import StructuralEdit.Splice

namespace StructuralEdit

/-! ## §1. The two outcomes of a step. -/

namespace Pass

theorem step_of_drops {p : Pass} {e : Edit} (h : p.drops e = true) :
    p.step e =
      { p with result :=
          { p.result with
            tally := { p.result.tally with dropped := p.result.tally.dropped + 1 }
            notices := p.result.notices ++ [.dropped] } } := by
  unfold step
  rw [if_pos h]

theorem step_of_applies {p : Pass} {e : Edit} (h : p.drops e = false) :
    p.step e =
      { result :=
          { text := p.result.text.replaceRange e.pos (cutEnd p.result.text e) e.newText
            changes := p.result.changes ++ [changeOf p.result.text e]
            tally := { p.result.tally with applied := p.result.tally.applied + 1 }
            notices :=
              if p.overlaps e then p.result.notices ++ [.overlapped] else p.result.notices }
        lastPos := some e.pos } := by
  unfold step
  rw [if_neg (by simp [h])]

/-! ## §2. The least start met so far. -/

/-- An edit that starts at or before offset `n` has been met. -/
def Reached (p : Pass) (n : Nat) : Prop :=
  ∃ last, p.lastPos = some last ∧ last ≤ n

theorem not_reached_start (t : Text) (n : Nat) : ¬ (start t).Reached n := by
  intro h
  obtain ⟨last, hlast, _⟩ := h
  exact absurd hlast (by simp [start])

theorem drops_iff {p : Pass} {e : Edit} : p.drops e = true ↔ p.Reached e.pos := by
  unfold drops Reached
  cases p.lastPos with
  | none => simp
  | some last => simp

theorem overlaps_iff {p : Pass} {e : Edit} :
    p.overlaps e = true ↔ ∃ n < e.stop, p.Reached n := by
  unfold overlaps Reached
  cases p.lastPos with
  | none => simp
  | some last =>
      simp only [decide_eq_true_eq, Option.some.injEq, exists_eq_left']
      constructor
      · intro h
        exact ⟨last, h, Nat.le_refl last⟩
      · intro h
        obtain ⟨n, hn, hle⟩ := h
        omega

/-- A step adds the start of its edit, whether it applies the edit or drops it. -/
theorem reached_step (p : Pass) (e : Edit) (n : Nat) :
    (p.step e).Reached n ↔ p.Reached n ∨ e.pos ≤ n := by
  cases hd : p.drops e with
  | true =>
      -- the state keeps its start, which lies at or before that of `e` already
      obtain ⟨last, hlast, hle⟩ := drops_iff.mp hd
      rw [step_of_drops hd]
      show p.Reached n ↔ _
      constructor
      · exact Or.inl
      · intro h
        rcases h with h | h
        · exact h
        · exact ⟨last, hlast, by omega⟩
  | false =>
      -- the state moves its start down to that of `e`
      have hnot : ¬ p.Reached e.pos := by
        rw [← drops_iff, hd]
        decide
      rw [step_of_applies hd]
      constructor
      · intro h
        obtain ⟨last, hlast, hle⟩ := h
        have hpos : e.pos = last := by simpa using hlast
        exact Or.inr (by omega)
      · intro h
        rcases h with ⟨last, hlast, hle⟩ | h
        · have hlt : e.pos < last := by
            apply Nat.lt_of_not_le
            intro hle'
            exact hnot ⟨last, hlast, hle'⟩
          exact ⟨e.pos, rfl, by omega⟩
        · exact ⟨e.pos, rfl, h⟩

/-- **The last applied start is the least start met.** -/
theorem reached_foldl (es : List Edit) (p : Pass) (n : Nat) :
    (es.foldl step p).Reached n ↔ p.Reached n ∨ ∃ e ∈ es, e.pos ≤ n := by
  induction es generalizing p with
  | nil => simp
  | cons e es ih =>
      rw [List.foldl_cons, ih, reached_step]
      simp only [List.mem_cons, exists_eq_or_imp, or_assoc]

theorem drops_foldl_start (t : Text) (es : List Edit) (e : Edit) :
    (es.foldl step (start t)).drops e = true ↔ ∃ k ∈ es, k.pos ≤ e.pos := by
  rw [drops_iff, reached_foldl]
  simp [not_reached_start]

theorem overlaps_foldl_start (t : Text) (es : List Edit) (e : Edit) :
    (es.foldl step (start t)).overlaps e = true ↔ ∃ k ∈ es, k.pos < e.stop := by
  rw [overlaps_iff]
  simp only [reached_foldl, not_reached_start, false_or]
  constructor
  · intro h
    obtain ⟨n, hn, k, hk, hle⟩ := h
    exact ⟨k, hk, by omega⟩
  · intro h
    obtain ⟨k, hk, hlt⟩ := h
    exact ⟨k.pos, hlt, k, hk, Nat.le_refl _⟩

end Pass

/-! ## §3. The account of dropped edits left out. -/

/-- The splice as if the dropped edits had never been queued. -/
def Splice.withoutDrops (r : Splice) : Splice :=
  { r with
    tally := { r.tally with dropped := 0 }
    notices := r.notices.filter (· != .dropped) }

namespace Pass

/-- The pass as if the dropped edits had never been queued. -/
def withoutDrops (p : Pass) : Pass :=
  { p with result := p.result.withoutDrops }

@[simp]
theorem drops_withoutDrops (p : Pass) (e : Edit) : p.withoutDrops.drops e = p.drops e := rfl

@[simp]
theorem overlaps_withoutDrops (p : Pass) (e : Edit) :
    p.withoutDrops.overlaps e = p.overlaps e := rfl

@[simp]
theorem withoutDrops_start (t : Text) : (start t).withoutDrops = start t := rfl

theorem withoutDrops_step_of_drops {p : Pass} {e : Edit} (h : p.drops e = true) :
    (p.step e).withoutDrops = p.withoutDrops := by
  rw [step_of_drops h]
  simp [withoutDrops, Splice.withoutDrops]

theorem withoutDrops_step_of_applies {p : Pass} {e : Edit} (h : p.drops e = false) :
    (p.step e).withoutDrops = p.withoutDrops.step e := by
  have h' : p.withoutDrops.drops e = false := (drops_withoutDrops p e).trans h
  rw [step_of_applies h, step_of_applies h', overlaps_withoutDrops]
  cases p.overlaps e <;> simp [withoutDrops, Splice.withoutDrops]

/-! ## §4. The edits a run applies and the edits it drops. -/

/-- Of a list of edits, each with its place in the queue, those that the run from
`p` drops (`dropped = true`) or applies (`dropped = false`), in the order in
which the run meets them. -/
def sift (dropped : Bool) : Pass → List (Edit × Nat) → List (Edit × Nat)
  | _, [] => []
  | p, q :: qs =>
      if p.drops q.1 = dropped then q :: sift dropped (p.step q.1) qs
      else sift dropped (p.step q.1) qs

/-- The run over a list of edits with their places. -/
def run (p : Pass) (qs : List (Edit × Nat)) : Pass :=
  (qs.map Prod.fst).foldl step p

theorem run_cons (p : Pass) (q : Edit × Nat) (qs : List (Edit × Nat)) :
    p.run (q :: qs) = (p.step q.1).run qs := rfl

theorem sift_cons_of_eq {dropped : Bool} {p : Pass} {q : Edit × Nat}
    (h : p.drops q.1 = dropped) (qs : List (Edit × Nat)) :
    p.sift dropped (q :: qs) = q :: (p.step q.1).sift dropped qs := by
  rw [sift, if_pos h]

theorem sift_cons_of_ne {dropped : Bool} {p : Pass} {q : Edit × Nat}
    (h : p.drops q.1 ≠ dropped) (qs : List (Edit × Nat)) :
    p.sift dropped (q :: qs) = (p.step q.1).sift dropped qs := by
  rw [sift, if_neg h]

/-- **A run depends on its applied edits alone**: leaving the dropped edits out
of the list changes nothing but the account of them. -/
theorem withoutDrops_run (p : Pass) (qs : List (Edit × Nat)) :
    (p.run qs).withoutDrops = p.withoutDrops.run (p.sift false qs) := by
  induction qs generalizing p with
  | nil => rfl
  | cons q qs ih =>
      rw [run_cons, ih]
      cases hd : p.drops q.1 with
      | true =>
          rw [sift_cons_of_ne (by simp [hd]), withoutDrops_step_of_drops hd]
      | false =>
          rw [sift_cons_of_eq hd, run_cons, withoutDrops_step_of_applies hd]

/-- **What every step of one fate adds, a run adds once for each edit of that
fate.** -/
theorem measure_run (measure : Splice → Nat) {dropped : Bool}
    (hstep : ∀ (p : Pass) (e : Edit),
      measure (p.step e).result = measure p.result + if p.drops e = dropped then 1 else 0)
    (p : Pass) (qs : List (Edit × Nat)) :
    measure (p.run qs).result = measure p.result + (p.sift dropped qs).length := by
  induction qs generalizing p with
  | nil => rfl
  | cons q qs ih =>
      rw [run_cons, ih, hstep]
      by_cases hd : p.drops q.1 = dropped
      · rw [sift_cons_of_eq hd, if_pos hd, List.length_cons]
        omega
      · rw [sift_cons_of_ne hd, if_neg hd, Nat.add_zero]

theorem applied_step (p : Pass) (e : Edit) :
    (p.step e).result.tally.applied
      = p.result.tally.applied + if p.drops e = false then 1 else 0 := by
  cases hd : p.drops e with
  | true => rw [step_of_drops hd]; rfl
  | false => rw [step_of_applies hd]; rfl

theorem length_changes_step (p : Pass) (e : Edit) :
    (p.step e).result.changes.length
      = p.result.changes.length + if p.drops e = false then 1 else 0 := by
  cases hd : p.drops e with
  | true => rw [step_of_drops hd]; rfl
  | false => rw [step_of_applies hd]; exact List.length_append

theorem dropped_step (p : Pass) (e : Edit) :
    (p.step e).result.tally.dropped
      = p.result.tally.dropped + if p.drops e = true then 1 else 0 := by
  cases hd : p.drops e with
  | true => rw [step_of_drops hd]; rfl
  | false => rw [step_of_applies hd]; rfl

theorem count_dropped_step (p : Pass) (e : Edit) :
    (p.step e).result.notices.count .dropped
      = p.result.notices.count .dropped + if p.drops e = true then 1 else 0 := by
  cases hd : p.drops e with
  | true => rw [step_of_drops hd]; exact List.count_append
  | false =>
      -- the one notice an applied edit may leave is of the other kind
      rw [step_of_applies hd]
      cases p.overlaps e <;> simp [List.count_append]

end Pass

/-! ## §5. A checked batch is spliced. -/

theorem Edit.check_eq_ok_iff {t : Text} {e : Edit} :
    e.check t = .ok () ↔
      e.stop ≤ t.length ∧ t.isBoundary e.pos = true ∧ t.isBoundary e.stop = true := by
  unfold Edit.check
  by_cases hstop : t.length < e.stop
  · simp only [hstop, if_true, reduceCtorEq, false_iff]
    omega
  · have hinside : e.stop ≤ t.length := Nat.le_of_not_lt hstop
    rw [if_neg hstop]
    cases t.isBoundary e.pos <;> cases t.isBoundary e.stop <;> simp [hinside]

theorem forM_check_eq_ok {t : Text} {edits : List Edit}
    (h : ∀ e ∈ edits, e.check t = .ok ()) : edits.forM (Edit.check t) = .ok () := by
  induction edits with
  | nil => rfl
  | cons e edits ih =>
      show (do Edit.check t e; edits.forM (Edit.check t)) = _
      rw [h e List.mem_cons_self]
      exact ih fun k hk => h k (List.mem_cons_of_mem e hk)

theorem splice_eq_ok {t : Text} {edits : List Edit} (h : ∀ e ∈ edits, e.check t = .ok ()) :
    splice t edits = .ok (spliceValid t edits) := by
  unfold splice
  rw [forM_check_eq_ok h]
  rfl

end StructuralEdit
