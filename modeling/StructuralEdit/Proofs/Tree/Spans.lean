/-
  StructuralEdit.Proofs.Tree.Spans
  ────────────────────────────────
  **THE SPANS OF A WELL-FORMED TREE.**

  In a well-formed tree the children of a node lie inside it, one after the other.
  All that is known about the spans of its places follows from one fact about the
  listing (`WellFormed.pairwise_subtree`):

      of two nodes of a listing, the later one stands BELOW the earlier one
      or lies to the RIGHT of it.

  So any two nodes are nested or apart (`WellFormed.nested_or_apart`), and where every
  node has a byte the listing is in document order (`WellFormed.pairwise_precedes`).
-/
import StructuralEdit.Proofs.Tree.Places

namespace StructuralEdit

/-! ## §1. Well-formed trees. -/

/-- The bytes that the node covers, as a half-open range. -/
def Node.span (n : Node) : Nat × Nat :=
  (n.start, n.stop)

theorem Node.hasSpan_iff {n : Node} {start stop : Nat} :
    n.hasSpan start stop = true ↔ n.start = start ∧ n.stop = stop := by
  simp [hasSpan]

/-- At every node the ends are in order, and the children lie inside it, one after the
other. -/
def Tree.WellFormed (t : Tree) : Prop :=
  ∀ n ∈ (Node.root t).subtree,
    n.start ≤ n.stop
      ∧ (∀ c ∈ n.children, n.start ≤ c.start ∧ c.stop ≤ n.stop)
      ∧ n.children.Pairwise fun a b => a.stop ≤ b.start

instance (t : Tree) : Decidable t.WellFormed :=
  inferInstanceAs (Decidable (∀ n ∈ (Node.root t).subtree, _ ∧ _ ∧ _))

namespace Tree.WellFormed

variable {t : Tree} {n m : Node}

theorem ordered (h : t.WellFormed) (hn : n.IsIn t) : n.start ≤ n.stop :=
  (h n (Node.mem_subtree_root_iff.mpr hn)).1

theorem child_inside (h : t.WellFormed) (hn : n.IsIn t) {c : Node} (hc : c ∈ n.children) :
    n.start ≤ c.start ∧ c.stop ≤ n.stop :=
  (h n (Node.mem_subtree_root_iff.mpr hn)).2.1 c hc

theorem children_apart (h : t.WellFormed) (hn : n.IsIn t) :
    n.children.Pairwise fun a b => a.stop ≤ b.start :=
  (h n (Node.mem_subtree_root_iff.mpr hn)).2.2

/-- What stands below a node lies inside it. -/
theorem inside (h : t.WellFormed) (hn : n.IsIn t) (hnm : n.AtOrAbove m) :
    n.start ≤ m.start ∧ m.stop ≤ n.stop := by
  induction hnm with
  | refl => exact ⟨Nat.le_refl _, Nat.le_refl _⟩
  | @tail mid m hmid hchild ih =>
      obtain ⟨hstart, hstop⟩ := h.child_inside (hn.of_atOrAbove hmid) hchild
      omega

/-! ## §2. Nested or apart. -/

/-- **Of two nodes of a listing the later one stands below the earlier one or lies to
the right of it.** -/
theorem pairwise_subtree (h : t.WellFormed) (hn : n.IsIn t) :
    n.subtree.Pairwise fun a b => a.AtOrAbove b ∨ a.stop ≤ b.start := by
  induction n using Node.childInduction with
  | h n ih =>
      rw [Node.subtree_eq, List.pairwise_cons, List.pairwise_flatMap]
      refine ⟨?_, ?_, ?_⟩
      · intro m hm
        have hlisted : m ∈ n.subtree := by
          rw [Node.subtree_eq]
          exact List.mem_cons_of_mem n hm
        exact Or.inl (Node.mem_subtree_iff.mp hlisted)
      · intro c hc
        exact ih c hc (hn.of_mem_children hc)
      · -- what is below two children is as far apart as the children are
        refine (h.children_apart hn).imp_of_mem fun {a b} ha hb hab x hx y hy => Or.inr ?_
        have hxa := h.inside (hn.of_mem_children ha) (Node.mem_subtree_iff.mp hx)
        have hyb := h.inside (hn.of_mem_children hb) (Node.mem_subtree_iff.mp hy)
        omega

/-- **Two places of a well-formed tree are nested or apart.** -/
theorem nested_or_apart (h : t.WellFormed) (hn : n.IsIn t) (hm : m.IsIn t) :
    n.AtOrAbove m ∨ m.AtOrAbove n ∨ n.stop ≤ m.start ∨ m.stop ≤ n.start := by
  have hpairs := h.pairwise_subtree (n := Node.root t) .root
  have hall : ∀ a ∈ (Node.root t).subtree, ∀ b ∈ (Node.root t).subtree,
      a.AtOrAbove b ∨ b.AtOrAbove a ∨ a.stop ≤ b.start ∨ b.stop ≤ a.start := by
    refine List.Pairwise.forall_of_forall_of_flip (fun a _ => Or.inl .refl) ?_ ?_
    · exact hpairs.imp fun {a b} hab => hab.elim Or.inl fun hright => Or.inr (Or.inr (Or.inl hright))
    · exact hpairs.imp fun {a b} hab =>
        hab.elim (fun hbelow => Or.inr (Or.inl hbelow)) fun hright => Or.inr (Or.inr (Or.inr hright))
  exact hall n (Node.mem_subtree_root_iff.mpr hn) m (Node.mem_subtree_root_iff.mpr hm)

/-! ## §3. The listing and document order. -/

/-- **Nodes that have a byte are listed in document order.**  An empty node may stand
before a longer one that starts at the same offset. -/
theorem pairwise_precedes (h : t.WellFormed) (hn : n.IsIn t) {keep : Node → Bool}
    (hkeep : ∀ m ∈ n.subtree, keep m = true → m.start < m.stop) :
    (n.subtree.filter keep).Pairwise fun a b => a.precedes b := by
  have hpairs := (h.pairwise_subtree hn).filter keep
  refine hpairs.imp_of_mem fun {a b} ha hb hab => ?_
  obtain ⟨ha_mem, ha_keep⟩ := List.mem_filter.mp ha
  have hbyte := hkeep a ha_mem ha_keep
  unfold Node.precedes
  simp only [Bool.or_eq_true, Bool.and_eq_true, decide_eq_true_eq, beq_iff_eq]
  rcases hab with hbelow | hright
  · have hspan := h.inside (hn.of_atOrAbove (Node.mem_subtree_iff.mp ha_mem)) hbelow
    omega
  · omega

end Tree.WellFormed

end StructuralEdit
