/-
  StructuralEdit.Proofs.StableSort
  ────────────────────────────────
  **WHAT A STABLE SORT KEEPS.**

  `sortBy` moves an element only past elements that must come after it.  Four
  facts follow, and every argument about the order of a queue rests on them:

    • `map_sortBy`        — sorting tagged elements and forgetting the tags is
                            sorting the elements;
    • `stable_sortBy`     — elements that are level keep their order;
    • `filter_sortBy`     — sorting a part is taking that part of the sorted
                            whole;
    • `sortBy_eq_of_perm` — where no two elements are level, the result does
                            not depend on the order of the input.
-/
import StructuralEdit.Sorting

namespace StructuralEdit

variable {α β : Type}

/-! ## §1. Sorting commutes with forgetting. -/

theorem map_insertSorted (f : α → β) {le : α → α → Bool} {le' : β → β → Bool}
    (hle : ∀ a b, le' (f a) (f b) = le a b) (x : α) (ys : List α) :
    (insertSorted le x ys).map f = insertSorted le' (f x) (ys.map f) := by
  induction ys with
  | nil => rfl
  | cons y ys ih =>
      simp only [insertSorted, List.map_cons, hle]
      split
      · rfl
      · rw [List.map_cons, ih]

theorem map_sortBy (f : α → β) {le : α → α → Bool} {le' : β → β → Bool}
    (hle : ∀ a b, le' (f a) (f b) = le a b) (xs : List α) :
    (sortBy le xs).map f = sortBy le' (xs.map f) := by
  induction xs with
  | nil => rfl
  | cons x xs ih =>
      show (insertSorted le x (sortBy le xs)).map f
          = insertSorted le' (f x) (sortBy le' (xs.map f))
      rw [map_insertSorted f hle, ih]

/-! ## §2. Level elements keep their order. -/

/-- `R` holds from every earlier to every later element that is level with it. -/
def LevelPairs (le : α → α → Bool) (R : α → α → Prop) (xs : List α) : Prop :=
  xs.Pairwise fun a b => le b a → R a b

theorem levelPairs_insertSorted {le : α → α → Bool} {R : α → α → Prop} (x : α)
    {ys : List α} (hys : LevelPairs le R ys) (hx : ∀ y ∈ ys, R x y) :
    LevelPairs le R (insertSorted le x ys) := by
  induction ys with
  | nil => exact List.pairwise_singleton _ x
  | cons y ys ih =>
      obtain ⟨hyR, hys'⟩ := List.pairwise_cons.mp hys
      unfold insertSorted
      split
      next hxy =>
        exact List.pairwise_cons.mpr ⟨fun b hb _ => hx b hb, hys⟩
      next hxy =>
        refine List.pairwise_cons.mpr
          ⟨fun b hb hby => ?_, ih hys' fun b hb => hx b (List.mem_cons_of_mem y hb)⟩
        rcases List.mem_cons.mp ((insertSorted_perm le x ys).mem_iff.mp hb) with rfl | hb
        · -- `b` is the inserted element, which stands behind `y` because it is after it
          exact absurd hby hxy
        · exact hyR b hb hby

/-- **The sort is stable**: what holds from earlier to later in the input holds
from earlier to later in the output, between elements that are level. -/
theorem stable_sortBy {R : α → α → Prop} (le : α → α → Bool) {xs : List α}
    (h : xs.Pairwise R) : LevelPairs le R (sortBy le xs) := by
  induction xs with
  | nil => exact List.Pairwise.nil
  | cons x xs ih =>
      obtain ⟨hx, hxs⟩ := List.pairwise_cons.mp h
      exact levelPairs_insertSorted x (ih hxs) fun y hy => hx y (mem_sortBy.mp hy)

/-! ## §3. Sorting a part of a list. -/

theorem insertSorted_cons_of_forall {le : α → α → Bool} {x : α} {ys : List α}
    (h : ∀ y ∈ ys, le x y) : insertSorted le x ys = x :: ys := by
  cases ys with
  | nil => rfl
  | cons y ys =>
      unfold insertSorted
      rw [if_pos (h y List.mem_cons_self)]

theorem filter_insertSorted_of_neg (le : α → α → Bool) {keep : α → Bool} {x : α}
    (hx : ¬ keep x) (ys : List α) : (insertSorted le x ys).filter keep = ys.filter keep := by
  induction ys with
  | nil => simp [insertSorted, hx]
  | cons y ys ih =>
      unfold insertSorted
      split
      · rw [List.filter_cons_of_neg hx]
      · rw [List.filter_cons, List.filter_cons, ih]

theorem filter_insertSorted_of_pos {le : α → α → Bool}
    (trans : ∀ a b c, le a b → le b c → le a c) (keep : α → Bool) {x : α}
    (hx : keep x = true) {ys : List α} (hsorted : ys.Pairwise fun a b => le a b) :
    (insertSorted le x ys).filter keep = insertSorted le x (ys.filter keep) := by
  induction ys with
  | nil => simp [insertSorted, hx]
  | cons y ys ih =>
      obtain ⟨hy, hsorted'⟩ := List.pairwise_cons.mp hsorted
      by_cases hxy : le x y
      · -- all of `y :: ys` comes after `x`, so all that is kept of it does
        have hafter : ∀ z ∈ (y :: ys).filter keep, le x z := by
          intro z hz
          rcases List.mem_cons.mp (List.mem_filter.mp hz).1 with rfl | hz
          · exact hxy
          · exact trans x y z hxy (hy z hz)
        rw [insertSorted_cons_of_forall hafter]
        simp [insertSorted, hxy, List.filter_cons, hx]
      · by_cases hk : keep y <;> simp [insertSorted, hxy, hk, ih hsorted']

theorem filter_sortBy {le : α → α → Bool}
    (trans : ∀ a b c, le a b → le b c → le a c) (total : ∀ a b, le a b || le b a)
    (keep : α → Bool) (xs : List α) :
    (sortBy le xs).filter keep = sortBy le (xs.filter keep) := by
  induction xs with
  | nil => rfl
  | cons x xs ih =>
      show (insertSorted le x (sortBy le xs)).filter keep = _
      by_cases hx : keep x
      · rw [filter_insertSorted_of_pos trans keep hx (pairwise_sortBy trans total xs), ih,
            List.filter_cons_of_pos hx]
        rfl
      · rw [filter_insertSorted_of_neg le hx, ih, List.filter_cons_of_neg hx]

/-! ## §4. Lists whose order is forced. -/

theorem insertSorted_append_of_forall {le : α → α → Bool} {x : α} {ys : List α}
    (h : ∀ y ∈ ys, le x y = false) : insertSorted le x ys = ys ++ [x] := by
  induction ys with
  | nil => rfl
  | cons y ys ih =>
      unfold insertSorted
      rw [if_neg (by simp [h y List.mem_cons_self]),
          ih fun z hz => h z (List.mem_cons_of_mem y hz)]
      rfl

/-- A list in the opposite order comes out reversed. -/
theorem sortBy_eq_reverse {le : α → α → Bool} {xs : List α}
    (h : xs.Pairwise fun a b => le a b = false) : sortBy le xs = xs.reverse := by
  induction xs with
  | nil => rfl
  | cons x xs ih =>
      obtain ⟨hx, hxs⟩ := List.pairwise_cons.mp h
      show insertSorted le x (sortBy le xs) = _
      rw [ih hxs, List.reverse_cons,
          insertSorted_append_of_forall fun y hy => hx y (List.mem_reverse.mp hy)]

/-- Where no two elements are level, only the members count. -/
theorem sortBy_eq_of_perm {le : α → α → Bool}
    (trans : ∀ a b c, le a b → le b c → le a c) (total : ∀ a b, le a b || le b a)
    {xs ys : List α} (hperm : xs.Perm ys)
    (hlevel : ∀ a ∈ xs, ∀ b ∈ xs, le a b → le b a → a = b) :
    sortBy le xs = sortBy le ys := by
  have hsorted : (sortBy le xs).Perm (sortBy le ys) :=
    ((sortBy_perm le xs).trans hperm).trans (sortBy_perm le ys).symm
  refine List.Perm.eq_of_pairwise (fun a b ha hb hab hba => ?_)
    (pairwise_sortBy trans total xs) (pairwise_sortBy trans total ys) hsorted
  exact hlevel a (mem_sortBy.mp ha) b (hperm.mem_iff.mpr (mem_sortBy.mp hb)) hab hba

end StructuralEdit
