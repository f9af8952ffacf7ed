/-
  StructuralEdit.Proofs.Splice.Insertions
  ───────────────────────────────────────
  **A QUEUE OF INSERTIONS IS WOVEN INTO THE TEXT.**

  An insertion takes nothing away, and two of them are in each other's way only if they
  are for the same offset.  There the one that was queued first is applied and the others
  are dropped.  So what a queue of insertions makes of a text can be read off offset by
  offset,

      f 0 ++ t₀ :: f 1 ++ t₁ :: … ++ tₙ₋₁ :: f n

  where `f i` is the text that was queued first for offset `i`, or nothing (`weave`).  All
  bytes of the text are there, in their order.
-/
import Mathlib.Data.List.Dedup
import StructuralEdit.Proofs.Splice.QueueOrder
import StructuralEdit.Proofs.Splice.Substitution

namespace StructuralEdit

/-! ## §1. Weaving. -/

/-- The text, whose first byte is at offset `i`, with something put in at every offset. -/
def weaveFrom (inserted : Nat → Text) : Nat → Text → Text
  | i, [] => inserted i
  | i, b :: t => inserted i ++ b :: weaveFrom inserted (i + 1) t

/-- The text with something put in at every offset, the one behind it included. -/
def weave (inserted : Nat → Text) (t : Text) : Text :=
  weaveFrom inserted 0 t

theorem sublist_weaveFrom (inserted : Nat → Text) (i : Nat) (t : Text) :
    t.Sublist (weaveFrom inserted i t) := by
  induction t generalizing i with
  | nil => exact List.nil_sublist _
  | cons b t ih => exact ((ih (i + 1)).cons_cons b).trans (List.sublist_append_right _ _)

/-- Only what is put in from `i` on matters. -/
theorem weaveFrom_congr {f g : Nat → Text} {i : Nat} (h : ∀ j, i ≤ j → f j = g j) (t : Text) :
    weaveFrom f i t = weaveFrom g i t := by
  induction t generalizing i with
  | nil => exact h i (Nat.le_refl i)
  | cons b t ih =>
      show f i ++ b :: weaveFrom f (i + 1) t = g i ++ b :: weaveFrom g (i + 1) t
      rw [h i (Nat.le_refl i), ih fun j hj => h j (by omega)]

theorem weaveFrom_nothing {f : Nat → Text} (h : ∀ j, f j = []) (i : Nat) (t : Text) :
    weaveFrom f i t = t := by
  induction t generalizing i with
  | nil => exact h i
  | cons b t ih =>
      show f i ++ b :: weaveFrom f (i + 1) t = b :: t
      rw [h i, ih, List.nil_append]

/-- What is put in at the first offset stands in front of all the rest. -/
theorem weaveFrom_front {f g : Nat → Text} {i : Nat} (hfirst : g i = [])
    (hrest : ∀ j, i < j → f j = g j) (t : Text) : weaveFrom f i t = f i ++ weaveFrom g i t := by
  cases t with
  | nil =>
      show f i = f i ++ g i
      rw [hfirst, List.append_nil]
  | cons b t =>
      show f i ++ b :: weaveFrom f (i + 1) t = f i ++ (g i ++ b :: weaveFrom g (i + 1) t)
      rw [hfirst, List.nil_append, weaveFrom_congr fun j hj => hrest j (by omega)]

/-- Where nothing is put in, the bytes stand as they are. -/
theorem weaveFrom_append {f : Nat → Text} {i : Nat} {front : Text} (t : Text)
    (h : ∀ j, i ≤ j → j < i + front.length → f j = []) :
    weaveFrom f i (front ++ t) = front ++ weaveFrom f (i + front.length) t := by
  induction front generalizing i with
  | nil => rfl
  | cons b front ih =>
      rw [List.length_cons] at h ⊢
      show f i ++ b :: weaveFrom f (i + 1) (front ++ t) = b :: (front ++ _)
      rw [h i (Nat.le_refl i) (by omega), ih fun j hj hlt => h j (by omega) (by omega),
          List.nil_append, show i + 1 + front.length = i + (front.length + 1) by omega]

/-! ## §2. Substituting insertions. -/

/-- The text that is queued first for an offset, if there is one. -/
def firstInserted (edits : List Edit) (offset : Nat) : Text :=
  ((firstAt edits offset offset).map Edit.newText).getD []

/-- The edits put something in and take nothing away. -/
def OnlyInserts (edits : List Edit) : Prop :=
  ∀ e ∈ edits, e.pos = e.stop

theorem firstInserted_of_notMem {edits : List Edit} {offset : Nat}
    (h : ∀ e ∈ edits, e.pos ≠ offset) : firstInserted edits offset = [] := by
  have hnone : firstAt edits offset offset = none := by
    unfold firstAt
    rw [List.find?_eq_none]
    intro e he hcovers
    exact h e he (Edit.covers_iff.mp hcovers).1
  unfold firstInserted
  rw [hnone]
  rfl

theorem firstInserted_cons_self {e : Edit} (he : e.pos = e.stop) (es : List Edit) :
    firstInserted (e :: es) e.pos = e.newText := by
  have hcovers : e.covers e.pos e.pos = true := Edit.covers_iff.mpr ⟨rfl, he.symm⟩
  unfold firstInserted firstAt
  rw [List.find?_cons_of_pos hcovers]
  rfl

theorem firstInserted_cons_of_ne {e : Edit} {offset : Nat} (h : e.pos ≠ offset) (es : List Edit) :
    firstInserted (e :: es) offset = firstInserted es offset := by
  have hcovers : ¬ e.covers offset offset = true := fun hc => h (Edit.covers_iff.mp hc).1
  unfold firstInserted firstAt
  rw [List.find?_cons_of_neg hcovers]

/-- **Insertions that follow one another are woven into the text.** -/
theorem substituteFrom_insertions {t : Text} {es : List Edit} {i : Nat} (hins : OnlyInserts es)
    (hrise : es.Pairwise fun a b => a.pos < b.pos) (hfrom : ∀ e ∈ es, i ≤ e.pos)
    (hinside : ∀ e ∈ es, e.pos ≤ t.length) :
    substituteFrom t i es = weaveFrom (firstInserted es) i (t.drop i) := by
  induction es generalizing i with
  | nil => exact (weaveFrom_nothing (fun j => rfl) i (t.drop i)).symm
  | cons e es ih =>
      obtain ⟨he, hins⟩ := List.forall_mem_cons.mp hins
      obtain ⟨hlater, hrise⟩ := List.pairwise_cons.mp hrise
      obtain ⟨hi, -⟩ := List.forall_mem_cons.mp hfrom
      obtain ⟨hlen, hinside⟩ := List.forall_mem_cons.mp hinside
      -- up to the first insertion there is nothing but the text
      have hslice : (t.slice i e.pos).length = e.pos - i := by
        unfold Text.slice
        rw [List.length_take, List.length_drop]
        omega
      have hfront : weaveFrom (firstInserted (e :: es)) i (t.drop i)
          = t.slice i e.pos ++ weaveFrom (firstInserted (e :: es)) e.pos (t.drop e.pos) := by
        rw [← t.slice_append_drop hi, weaveFrom_append, hslice, Nat.add_sub_of_le hi]
        intro j hj hlt
        refine firstInserted_of_notMem (List.forall_mem_cons.mpr ⟨by omega, fun k hk => ?_⟩)
        have := hlater k hk
        omega
      have hnone : firstInserted es e.pos = [] :=
        firstInserted_of_notMem fun k hk => (Nat.ne_of_lt (hlater k hk)).symm
      have hrest : ∀ j, e.pos < j → firstInserted (e :: es) j = firstInserted es j :=
        fun j hj => firstInserted_cons_of_ne (Nat.ne_of_lt hj) es
      show t.slice i e.pos ++ e.newText ++ substituteFrom t e.stop es = _
      rw [← he, ih hins hrise (fun k hk => Nat.le_of_lt (hlater k hk)) hinside, hfront,
          weaveFrom_front hnone hrest, firstInserted_cons_self he, List.append_assoc]

/-! ## §3. What is applied of a queue. -/

section

variable {t : Text} {queue : List Edit}

/-- Of insertions the first for each offset is applied. -/
theorem mem_appliedEdits_of_onlyInserts (hins : OnlyInserts queue) {e : Edit} :
    e ∈ appliedEdits t queue ↔ firstAt queue e.pos e.stop = some e := by
  rw [mem_appliedEdits_iff]
  constructor
  · intro h
    exact h.1
  · intro hfirst
    refine ⟨hfirst, fun k hk hle => ?_⟩
    have he := hins e (List.mem_of_find?_eq_some hfirst)
    have hk := hins k hk
    omega

theorem onlyInserts_appliedEdits (hins : OnlyInserts queue) :
    OnlyInserts (appliedEdits t queue) := by
  intro e he
  exact hins e (List.mem_of_find?_eq_some ((mem_appliedEdits_of_onlyInserts hins).mp he))

theorem apart_of_onlyInserts {es : List Edit} (hins : OnlyInserts es) :
    es.Pairwise Edit.Apart := by
  rw [List.pairwise_iff_forall_sublist]
  intro a b hab
  have ha := hins a (hab.subset (by simp))
  have hb := hins b (hab.subset (by simp))
  unfold Edit.Apart
  omega

/-- The applied insertions have the same first texts as the queue. -/
theorem firstInserted_appliedEdits (hins : OnlyInserts queue) (offset : Nat) :
    firstInserted (appliedEdits t queue).reverse offset = firstInserted queue offset := by
  have hmem : ∀ e, e ∈ (appliedEdits t queue).reverse ↔ firstAt queue e.pos e.stop = some e := by
    intro e
    rw [List.mem_reverse]
    exact mem_appliedEdits_of_onlyInserts hins
  cases hqueue : firstAt queue offset offset with
  | none =>
      have hnone : firstInserted queue offset = [] := by
        unfold firstInserted
        rw [hqueue]
        rfl
      rw [hnone]
      refine firstInserted_of_notMem fun e he hpos => ?_
      -- an applied edit for the offset would be in the queue
      have hfirst := (hmem e).mp he
      have hstop := hins e (List.mem_of_find?_eq_some hfirst)
      rw [← hstop, hpos, hqueue] at hfirst
      cases hfirst
  | some e =>
      obtain ⟨hpos, hstop⟩ := covers_of_firstAt hqueue
      have hself : firstAt queue e.pos e.stop = some e := by
        rw [hpos, hstop]
        exact hqueue
      obtain ⟨k, hk⟩ := exists_firstAt ((hmem e).mpr hself)
      obtain ⟨hkpos, hkstop⟩ := covers_of_firstAt hk
      -- the applied edit for the offset is the first of the queue
      have hk' := (hmem k).mp (List.mem_of_find?_eq_some hk)
      rw [hkpos, hkstop, hself] at hk'
      cases hk'
      rw [hpos, hstop] at hk
      unfold firstInserted
      rw [hqueue, hk]

/-- **A queue of insertions is woven into the text.** -/
theorem text_spliceValid_of_onlyInserts (ht : t.IsUtf8) (hfit : ∀ e ∈ queue, e.Fits t)
    (hins : OnlyInserts queue) :
    (spliceValid t queue).text = weave (firstInserted queue) t := by
  have hfall := pairwise_appliedEdits t queue
  have hins' := onlyInserts_appliedEdits (t := t) hins
  rw [text_spliceValid_of_apart ht hfit (apart_of_onlyInserts hins'),
      inReadingOrder_of_falling hfall]
  have hwoven : substitute t (appliedEdits t queue).reverse
      = weave (firstInserted (appliedEdits t queue).reverse) t := by
    refine substituteFrom_insertions (i := 0) ?_ (List.pairwise_reverse.mpr hfall)
      (fun e _ => Nat.zero_le e.pos) ?_
    · intro e he
      exact hins' e (List.mem_reverse.mp he)
    · intro e he
      have hfits := fits_of_mem_appliedEdits hfit e (List.mem_reverse.mp he)
      exact Nat.le_trans hfits.ordered hfits.inside
  rw [hwoven]
  exact weaveFrom_congr (fun offset _ => firstInserted_appliedEdits hins offset) t

/-- As many insertions are applied as there are offsets. -/
theorem length_appliedEdits_of_onlyInserts (hins : OnlyInserts queue) :
    (appliedEdits t queue).length = (queue.map Edit.pos).dedup.length := by
  have hfall := pairwise_appliedEdits t queue
  have hperm : ((appliedEdits t queue).map Edit.pos).Perm (queue.map Edit.pos).dedup := by
    refine (List.perm_ext_iff_of_nodup ?_ (List.nodup_dedup _)).mpr fun offset => ?_
    · exact (List.pairwise_map.mpr (hfall.imp fun {a b} hlt => (Nat.ne_of_lt hlt).symm))
    · rw [List.mem_dedup, List.mem_map, List.mem_map]
      constructor
      · rintro ⟨e, he, rfl⟩
        exact ⟨e, List.mem_of_find?_eq_some ((mem_appliedEdits_of_onlyInserts hins).mp he), rfl⟩
      · rintro ⟨e, he, rfl⟩
        obtain ⟨k, hk⟩ := exists_firstAt he
        obtain ⟨hpos, hstop⟩ := covers_of_firstAt hk
        refine ⟨k, (mem_appliedEdits_of_onlyInserts hins).mpr ?_, hpos⟩
        rw [hpos, hstop]
        exact hk
  rw [← hperm.length_eq, List.length_map]

theorem tally_spliceValid_of_onlyInserts (hins : OnlyInserts queue) :
    (spliceValid t queue).tally
      = { applied := (queue.map Edit.pos).dedup.length
          dropped := queue.length - (queue.map Edit.pos).dedup.length } := by
  have happlied : (appliedQueue t queue).length = (queue.map Edit.pos).dedup.length := by
    have hlength := length_appliedEdits_of_onlyInserts (t := t) hins
    unfold appliedEdits at hlength
    rwa [List.length_map] at hlength
  have htotal := length_appliedQueue_add t queue
  rw [tally_spliceValid, happlied,
      show (droppedQueue t queue).length = queue.length - (queue.map Edit.pos).dedup.length by omega]

end

end StructuralEdit
