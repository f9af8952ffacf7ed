/-
  StructuralEdit.Sorting
  ──────────────────────
  **A STABLE SORT.**

  `sortBy le` puts each element before those that it is not after; elements that
  are level keep their order.  The lemmas say that nothing is lost or added, and
  that the result is in order.
-/

namespace StructuralEdit

variable {α : Type}

/-- Insert an element before the first one that it is not after. -/
def insertSorted (le : α → α → Bool) (x : α) : List α → List α
  | [] => [x]
  | y :: ys => if le x y then x :: y :: ys else y :: insertSorted le x ys

/-- The list in order. -/
def sortBy (le : α → α → Bool) : List α → List α
  | [] => []
  | x :: xs => insertSorted le x (sortBy le xs)

/-! ## §1. Nothing is lost or added. -/

theorem insertSorted_perm (le : α → α → Bool) (x : α) (ys : List α) :
    (insertSorted le x ys).Perm (x :: ys) := by
  induction ys with
  | nil => exact List.Perm.refl _
  | cons y ys ih =>
      unfold insertSorted
      split
      · exact List.Perm.refl _
      · exact (ih.cons y).trans (List.Perm.swap x y ys)

theorem sortBy_perm (le : α → α → Bool) (xs : List α) : (sortBy le xs).Perm xs := by
  induction xs with
  | nil => exact List.Perm.refl _
  | cons x xs ih => exact (insertSorted_perm le x _).trans (ih.cons x)

theorem mem_sortBy {le : α → α → Bool} {a : α} {xs : List α} : a ∈ sortBy le xs ↔ a ∈ xs :=
  (sortBy_perm le xs).mem_iff

/-! ## §2. The result is in order. -/

theorem pairwise_insertSorted {le : α → α → Bool}
    (trans : ∀ a b c, le a b → le b c → le a c) (total : ∀ a b, le a b || le b a)
    (x : α) {ys : List α} (h : ys.Pairwise fun a b => le a b) :
    (insertSorted le x ys).Pairwise fun a b => le a b := by
  induction ys with
  | nil => exact List.pairwise_singleton _ x
  | cons y ys ih =>
      obtain ⟨hy, hys⟩ := List.pairwise_cons.mp h
      unfold insertSorted
      split
      · rename_i hxy
        refine List.pairwise_cons.mpr ⟨fun b hb => ?_, h⟩
        rcases List.mem_cons.mp hb with rfl | hb
        · exact hxy
        · exact trans x y b hxy (hy b hb)
      · rename_i hxy
        refine List.pairwise_cons.mpr ⟨fun b hb => ?_, ih hys⟩
        have hyx : le y x := by
          have := total x y
          simp_all
        rcases List.mem_cons.mp ((insertSorted_perm le x ys).mem_iff.mp hb) with rfl | hb
        · exact hyx
        · exact hy b hb

theorem pairwise_sortBy {le : α → α → Bool}
    (trans : ∀ a b c, le a b → le b c → le a c) (total : ∀ a b, le a b || le b a)
    (xs : List α) : (sortBy le xs).Pairwise fun a b => le a b := by
  induction xs with
  | nil => exact List.Pairwise.nil
  | cons x xs ih => exact pairwise_insertSorted trans total x ih

end StructuralEdit
