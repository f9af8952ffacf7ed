/-
  StructuralEdit.Proofs.Splice.QueueOrder
  ───────────────────────────────────────
  **THE ORDER OF THE QUEUE DOES NOT MATTER.**

  Edits that have no range in common may be queued in any order, overlapping or
  not: what is applied depends on two things only,

    • WHICH ranges occur in the queue, and
    • which edit is the FIRST of each range

  (`mem_appliedEdits_iff`).  The applied edits have strictly falling starts, so
  their members fix their order, and the applied edits fix the splice
  (`withoutDrops_spliceValid`).  Two queues that agree on both points therefore
  commit to the same text, through the same changes.
-/
import StructuralEdit.Proofs.Splice.Fate

namespace StructuralEdit

/-! ## §1. The edits of one range. -/

/-- The edit replaces `[pos, stop)`. -/
def Edit.covers (pos stop : Nat) (e : Edit) : Bool :=
  e.pos == pos && e.stop == stop

theorem Edit.covers_iff {pos stop : Nat} {e : Edit} :
    e.covers pos stop = true ↔ e.pos = pos ∧ e.stop = stop := by
  simp [Edit.covers]

/-- The first edit of the queue that replaces `[pos, stop)`, if there is one. -/
def firstAt (edits : List Edit) (pos stop : Nat) : Option Edit :=
  edits.find? (Edit.covers pos stop)

/-- The queues have the same ranges, and at each range the same first text. -/
def SameFirstTexts (xs ys : List Edit) : Prop :=
  ∀ pos stop, (firstAt xs pos stop).map Edit.newText = (firstAt ys pos stop).map Edit.newText

theorem covers_of_firstAt {edits : List Edit} {pos stop : Nat} {e : Edit}
    (h : firstAt edits pos stop = some e) : e.pos = pos ∧ e.stop = stop :=
  Edit.covers_iff.mp (List.find?_some h)

theorem exists_firstAt {edits : List Edit} {e : Edit} (h : e ∈ edits) :
    ∃ k, firstAt edits e.pos e.stop = some k := by
  apply Option.isSome_iff_exists.mp
  unfold firstAt
  rw [List.find?_isSome]
  exact ⟨e, h, Edit.covers_iff.mpr ⟨rfl, rfl⟩⟩

/-- A range and a text make an edit, so queues with the same first texts have the
same first edits. -/
theorem SameFirstTexts.firstAt_eq {xs ys : List Edit} (h : SameFirstTexts xs ys)
    (pos stop : Nat) : firstAt xs pos stop = firstAt ys pos stop := by
  have htext := h pos stop
  cases hx : firstAt xs pos stop with
  | none =>
      rw [hx] at htext
      exact (Option.map_eq_none_iff.mp htext.symm).symm
  | some a =>
      rw [hx] at htext
      obtain ⟨b, hy, hab⟩ := Option.map_eq_some_iff.mp htext.symm
      obtain ⟨hapos, hastop⟩ := covers_of_firstAt hx
      obtain ⟨hbpos, hbstop⟩ := covers_of_firstAt hy
      have heq : a = b := by
        cases a
        cases b
        simp_all
      rw [hy, heq]

/-! ## §2. The applied edits, by ranges and first edits. -/

/-- **An edit is applied exactly if it is the first of its range and no edit that
starts no later ends later.** -/
theorem mem_appliedEdits_iff {t : Text} {edits : List Edit} {e : Edit} :
    e ∈ appliedEdits t edits ↔
      firstAt edits e.pos e.stop = some e
        ∧ ∀ k ∈ edits, k.pos ≤ e.pos → k.stop ≤ e.stop := by
  unfold appliedEdits firstAt
  rw [List.find?_eq_some_iff_getElem]
  constructor
  · intro h
    obtain ⟨⟨_, i⟩, hq, rfl⟩ := List.mem_map.mp h
    obtain ⟨hmem, hkeep⟩ := mem_appliedQueue_iff.mp hq
    obtain ⟨hi, rfl⟩ := exists_getElem_of_mem_zipIdx hmem
    rw [displaced_getElem_iff hi] at hkeep
    refine ⟨⟨Edit.covers_iff.mpr ⟨rfl, rfl⟩, i, hi, rfl, ?_⟩, ?_⟩
    · -- an earlier edit of the same range would displace this one
      intro j hji
      rw [Bool.not_eq_true', ← Bool.not_eq_true, Edit.covers_iff]
      intro h
      obtain ⟨hpos, hstop⟩ := h
      exact hkeep ⟨j, by omega, by omega, Nat.le_of_eq hpos, Or.inr ⟨hpos, hstop, hji⟩⟩
    · -- and so would an edit that ends later
      intro k hk hle
      apply Nat.le_of_not_lt
      intro hlt
      obtain ⟨j, hj, rfl⟩ := List.getElem_of_mem hk
      refine hkeep ⟨j, hj, ?_, hle, Or.inl hlt⟩
      intro heq
      subst heq
      exact Nat.lt_irrefl _ hlt
  · intro h
    obtain ⟨⟨-, i, hi, rfl, hfirst⟩, hlast⟩ := h
    refine List.mem_map.mpr ⟨(edits[i], i),
      mem_appliedQueue_iff.mpr ⟨mk_getElem_mem_zipIdx hi, ?_⟩, rfl⟩
    rw [displaced_getElem_iff hi]
    -- the two ways to be displaced are what the two conditions exclude
    intro h
    obtain ⟨j, hj, -, hle, hlt | ⟨hpos, hstop, hji⟩⟩ := h
    · exact absurd (hlast _ (List.getElem_mem hj) hle) (by omega)
    · have hno := hfirst j hji
      rw [Edit.covers_iff.mpr ⟨hpos, hstop⟩] at hno
      exact absurd hno (by decide)

theorem mem_appliedEdits_of_sameFirstTexts {t : Text} {xs ys : List Edit}
    (h : SameFirstTexts xs ys) {e : Edit} (he : e ∈ appliedEdits t xs) :
    e ∈ appliedEdits t ys := by
  obtain ⟨hfirst, hlast⟩ := mem_appliedEdits_iff.mp he
  refine mem_appliedEdits_iff.mpr ⟨(h.firstAt_eq _ _).symm.trans hfirst, ?_⟩
  intro k hk hle
  -- the first edit of the range of `k` is in both queues
  obtain ⟨k', hk'⟩ := exists_firstAt hk
  obtain ⟨hpos, hstop⟩ := covers_of_firstAt hk'
  have hmem : k' ∈ xs := List.mem_of_find?_eq_some ((h.firstAt_eq _ _).trans hk')
  have := hlast k' hmem (by omega)
  omega

theorem SameFirstTexts.symm {xs ys : List Edit} (h : SameFirstTexts xs ys) :
    SameFirstTexts ys xs :=
  fun pos stop => (h pos stop).symm

/-- **Queues with the same first texts apply the same edits, in the same order.** -/
theorem appliedEdits_eq_of_sameFirstTexts (t : Text) {xs ys : List Edit}
    (h : SameFirstTexts xs ys) : appliedEdits t xs = appliedEdits t ys := by
  have hx := pairwise_appliedEdits t xs
  have hy := pairwise_appliedEdits t ys
  -- falling starts do twice the work: no edit occurs twice, and the order is forced
  have hnodup : ∀ {es : List Edit}, es.Pairwise (fun a b => b.pos < a.pos) → es.Nodup := by
    intro es hes
    refine hes.imp fun {a b} hab heq => ?_
    rw [heq] at hab
    exact Nat.lt_irrefl _ hab
  have hperm : (appliedEdits t xs).Perm (appliedEdits t ys) := by
    rw [List.perm_ext_iff_of_nodup (hnodup hx) (hnodup hy)]
    intro e
    exact ⟨mem_appliedEdits_of_sameFirstTexts h, mem_appliedEdits_of_sameFirstTexts h.symm⟩
  refine List.Perm.eq_of_pairwise (fun a b _ _ hab hba => ?_) hx hy hperm
  omega

/-! ## §3. Ways to keep the first texts. -/

theorem sameFirstTexts_of_filter_eq {xs ys : List Edit}
    (h : ∀ pos stop, xs.filter (Edit.covers pos stop) = ys.filter (Edit.covers pos stop)) :
    SameFirstTexts xs ys := by
  intro pos stop
  unfold firstAt
  rw [← List.head?_filter, ← List.head?_filter, h]

theorem sameFirstTexts_insert {xs zs : List Edit} {d : Edit}
    (h : ∃ k ∈ xs, k.pos = d.pos ∧ k.stop = d.stop) :
    SameFirstTexts (xs ++ zs) (xs ++ d :: zs) := by
  obtain ⟨k, hk, hpos, hstop⟩ := h
  intro pos stop
  unfold firstAt
  rw [List.find?_append, List.find?_append]
  by_cases hd : d.covers pos stop
  · -- an edit of this range stands in `xs`, so neither search goes past `xs`
    obtain ⟨hdpos, hdstop⟩ := Edit.covers_iff.mp hd
    have hsome : (xs.find? (Edit.covers pos stop)).isSome := by
      rw [List.find?_isSome]
      exact ⟨k, hk, Edit.covers_iff.mpr ⟨hpos.trans hdpos, hstop.trans hdstop⟩⟩
    obtain ⟨a, ha⟩ := Option.isSome_iff_exists.mp hsome
    rw [ha]
    rfl
  · rw [List.find?_cons_of_neg hd]

/-! ## §4. Equal commits. -/

/-- Both queues can be spliced into `t`, with the same text, the same changes and
as many applied edits. -/
def SameCommit (t : Text) (xs ys : List Edit) : Prop :=
  ∃ r s, splice t xs = .ok r ∧ splice t ys = .ok s
    ∧ r.text = s.text ∧ r.changes = s.changes ∧ r.tally.applied = s.tally.applied

theorem sameCommit_of_sameFirstTexts {t : Text} {xs ys : List Edit}
    (hx : ∀ e ∈ xs, e.check t = .ok ()) (hy : ∀ e ∈ ys, e.check t = .ok ())
    (h : SameFirstTexts xs ys) : SameCommit t xs ys := by
  have heq : (spliceValid t xs).withoutDrops = (spliceValid t ys).withoutDrops := by
    rw [withoutDrops_spliceValid, withoutDrops_spliceValid, appliedEdits_eq_of_sameFirstTexts t h]
  refine ⟨_, _, splice_eq_ok hx, splice_eq_ok hy, ?_, ?_, ?_⟩
  · exact congrArg (fun r => r.text) heq
  · exact congrArg (fun r => r.changes) heq
  · exact congrArg (fun r => r.tally.applied) heq

theorem Edit.check_of_same_range {t : Text} {d k : Edit} (hpos : k.pos = d.pos)
    (hstop : k.stop = d.stop) (hk : k.check t = .ok ()) : d.check t = .ok () := by
  rw [Edit.check_eq_ok_iff] at hk ⊢
  rwa [← hpos, ← hstop]

/-- **THE QUEUE'S ORDER DOES NOT MATTER.**  Two checked queues with the same
ranges, and at each range the same first text, commit alike.  So any permutation
that keeps the order among edits of one range commits alike, and so does any
queue to which a later edit of a range it already holds is added, or from which
such an edit is removed. -/
theorem splice_queue_order (t : Text) :
    (∀ xs ys : List Edit, (∀ e ∈ xs, e.check t = .ok ()) → (∀ e ∈ ys, e.check t = .ok ()) →
        SameFirstTexts xs ys → SameCommit t xs ys)
    ∧ (∀ xs ys : List Edit, (∀ e ∈ xs, e.check t = .ok ()) → xs.Perm ys →
        (∀ pos stop, xs.filter (Edit.covers pos stop) = ys.filter (Edit.covers pos stop)) →
        SameCommit t xs ys)
    ∧ (∀ (xs zs : List Edit) (d : Edit), (∀ e ∈ xs ++ zs, e.check t = .ok ()) →
        (∃ k ∈ xs, k.pos = d.pos ∧ k.stop = d.stop) →
        SameCommit t (xs ++ zs) (xs ++ d :: zs)) := by
  refine ⟨fun xs ys hx hy h => sameCommit_of_sameFirstTexts hx hy h, ?_, ?_⟩
  · intro xs ys hx hperm hfilter
    exact sameCommit_of_sameFirstTexts hx (fun e he => hx e (hperm.mem_iff.mpr he))
      (sameFirstTexts_of_filter_eq hfilter)
  · intro xs zs d hcheck hdup
    refine sameCommit_of_sameFirstTexts hcheck ?_ (sameFirstTexts_insert hdup)
    intro e he
    rcases List.mem_append.mp he with he | he
    · exact hcheck e (List.mem_append_left zs he)
    · rcases List.mem_cons.mp he with rfl | he
      · obtain ⟨k, hk, hpos, hstop⟩ := hdup
        exact Edit.check_of_same_range hpos hstop (hcheck k (List.mem_append_left zs hk))
      · exact hcheck e (List.mem_append_right xs he)

/-- Two overlapping ranges, queued both ways round, with a late duplicate of a
different range in each queue. -/
theorem splice_queue_order_overlapping :
    SameCommit (Text.ofString "abcdef")
      [⟨3, 6, Text.ofString "é"⟩, ⟨1, 4, []⟩, ⟨1, 4, [88]⟩]
      [⟨1, 4, []⟩, ⟨3, 6, Text.ofString "é"⟩, ⟨3, 6, [89]⟩] := by
  refine (splice_queue_order (Text.ofString "abcdef")).1 _ _
    (fun e he => Edit.check_eq_ok_iff.mpr (by revert e; decide))
    (fun e he => Edit.check_eq_ok_iff.mpr (by revert e; decide)) ?_
  intro pos stop
  unfold firstAt
  by_cases hlow : pos = 1 ∧ stop = 4
  · obtain ⟨rfl, rfl⟩ := hlow
    decide
  · by_cases hhigh : pos = 3 ∧ stop = 6
    · obtain ⟨rfl, rfl⟩ := hhigh
      decide
    · have hnone : ∀ es : List Edit, (∀ e ∈ es, e.covers 1 4 || e.covers 3 6) →
          es.find? (Edit.covers pos stop) = none := by
        intro es hes
        rw [List.find?_eq_none]
        intro e he hcovers
        have hrange := hes e he
        simp only [Edit.covers, Bool.or_eq_true, Bool.and_eq_true, beq_iff_eq] at hrange hcovers
        omega
      rw [hnone _ (by decide), hnone _ (by decide)]

end StructuralEdit
