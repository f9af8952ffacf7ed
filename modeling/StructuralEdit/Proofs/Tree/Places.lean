/-
  StructuralEdit.Proofs.Tree.Places
  ─────────────────────────────────
  **THE PLACES OF A TREE.**

  A node carries everything above it, so nothing in its type says that it belongs
  to a tree.  `Node.IsIn t` says so: the root of `t` is in `t`, and so is the child
  number `i` of a node in `t`, if it has one.  Three things follow.

    • The listing of a tree has exactly its places (`mem_subtree_root_iff`).
    • The path of child numbers tells the places apart (`IsIn.eq_of_id_eq`), and it
      tells what stands below what (`IsIn.contains_iff`).
    • Whatever goes up from a place or down from it stays among the places: the
      parent, and the smallest node that spans a range (`covering_below`).  So does
      what is sorted into document order.
-/
import StructuralEdit.Proofs.StableSort
import StructuralEdit.Proofs.Tree.Levels

namespace StructuralEdit

/-! ## §1. Places. -/

/-- The node is a place in the tree `t`. -/
inductive Node.IsIn (t : Tree) : Node → Prop where
  | root : IsIn t (Node.root t)
  | child {n : Node} (hn : IsIn t n) {i : Nat} {c : Tree} (hc : n.tree.children[i]? = some c) :
      IsIn t (n.child i c)

namespace Node

variable {t : Tree}

theorem IsIn.parent {n up : Node} (hn : n.IsIn t) (hup : n.parent? = some up) : up.IsIn t := by
  cases hn with
  | root => cases hup
  | child hn hc =>
      cases hup
      exact hn

/-- Whoever has a node among its children is its parent. -/
theorem parent?_of_mem_children {n up : Node} (h : n ∈ up.children) : n.parent? = some up := by
  obtain ⟨i, c, -, rfl⟩ := mem_children_iff.mp h
  rfl

/-- The first child that is left. -/
theorem IsIn.nextChild {parent : Node} (hp : parent.IsIn t) {before cs : List Tree} {c : Tree}
    (hcs : parent.tree.children = before ++ c :: cs) : (parent.child before.length c).IsIn t := by
  apply IsIn.child hp
  rw [hcs]
  simp

theorem IsIn.of_mem_children {n m : Node} (hn : n.IsIn t) (hm : m ∈ n.children) : m.IsIn t := by
  obtain ⟨i, c, hc, rfl⟩ := mem_children_iff.mp hm
  exact hn.child hc

/-- The places of a tree are what stands at its root or below it. -/
theorem isIn_iff_atOrAbove {n : Node} : n.IsIn t ↔ (root t).AtOrAbove n := by
  constructor
  · intro h
    induction h with
    | root => exact .refl
    | child _ hc ih => exact ih.tail (mem_children_iff.mpr ⟨_, _, hc, rfl⟩)
  · intro h
    induction h with
    | refl => exact .root
    | tail _ hchild ih => exact ih.of_mem_children hchild

/-- **The listing of a tree has exactly its places.** -/
theorem mem_subtree_root_iff {n : Node} : n ∈ (root t).subtree ↔ n.IsIn t := by
  rw [mem_subtree_iff, isIn_iff_atOrAbove]

theorem IsIn.of_atOrAbove {n m : Node} (hn : n.IsIn t) (h : n.AtOrAbove m) : m.IsIn t :=
  isIn_iff_atOrAbove.mpr ((isIn_iff_atOrAbove.mp hn).trans h)

/-! ## §2. Paths. -/

theorem id_of_mem_children {n c : Node} (h : c ∈ n.children) : ∃ i, c.id = i :: n.id := by
  obtain ⟨i, t, -, rfl⟩ := mem_children_iff.mp h
  exact ⟨i, rfl⟩

theorem pairwise_id_children (n : Node) : n.children.Pairwise fun a b => a.id ≠ b.id := by
  unfold children
  rw [List.pairwise_iff_getElem]
  intro i j hi hj hij
  rw [List.getElem_mapIdx, List.getElem_mapIdx]
  show i :: n.id ≠ j :: n.id
  intro h
  have := (List.cons.inj h).1
  omega

/-- The path of a node ends with the path of every node above it. -/
theorem AtOrAbove.id_suffix {n m : Node} (h : n.AtOrAbove m) : n.id <:+ m.id := by
  induction h with
  | refl => exact List.suffix_refl _
  | tail _ hchild ih =>
      obtain ⟨i, hi⟩ := id_of_mem_children hchild
      rw [hi]
      exact ih.trans (List.suffix_cons i _)

theorem AtOrAbove.length_id_le {n m : Node} (h : n.AtOrAbove m) : n.id.length ≤ m.id.length :=
  h.id_suffix.length_le

/-- **A listing has no path twice.** -/
theorem pairwise_id_subtree (n : Node) : n.subtree.Pairwise fun a b => a.id ≠ b.id := by
  induction n using childInduction with
  | h n ih =>
      rw [subtree_eq, List.pairwise_cons, List.pairwise_flatMap]
      refine ⟨?_, ih, ?_⟩
      · -- a path below the node is longer than that of the node
        intro m hm heq
        obtain ⟨c, hc, hm⟩ := List.mem_flatMap.mp hm
        obtain ⟨i, hi⟩ := id_of_mem_children hc
        have hle := (mem_subtree_iff.mp hm).length_id_le
        rw [hi, ← heq, List.length_cons] at hle
        omega
      · -- paths below two children go through two child numbers
        refine (pairwise_id_children n).imp_of_mem fun {a b} ha hb hab x hx y hy heq => hab ?_
        obtain ⟨i, hi⟩ := id_of_mem_children ha
        obtain ⟨j, hj⟩ := id_of_mem_children hb
        have hxs := (mem_subtree_iff.mp hx).id_suffix
        have hys := (mem_subtree_iff.mp hy).id_suffix
        rw [← heq] at hys
        exact (List.suffix_of_suffix_length_le hxs hys (by rw [hi, hj]; simp)).eq_of_length
          (by rw [hi, hj]; simp)

/-- **The path tells the places of a tree apart.** -/
theorem IsIn.eq_of_id_eq {n m : Node} (hn : n.IsIn t) (hm : m.IsIn t) (h : n.id = m.id) :
    n = m := by
  have hpaths := pairwise_id_subtree (Node.root t)
  have hinj : ∀ a ∈ (Node.root t).subtree, ∀ b ∈ (Node.root t).subtree, a.id = b.id → a = b :=
    List.Pairwise.forall_of_forall_of_flip (fun _ _ _ => rfl)
      (hpaths.imp fun hne heq => absurd heq hne)
      (hpaths.imp fun hne heq => absurd heq.symm hne)
  exact hinj n (mem_subtree_root_iff.mpr hn) m (mem_subtree_root_iff.mpr hm) h

theorem IsIn.atOrAbove_of_id_suffix {n m : Node} (hn : n.IsIn t) (hm : m.IsIn t)
    (h : n.id <:+ m.id) : n.AtOrAbove m := by
  induction hm with
  | root => exact hn.eq_of_id_eq .root (List.suffix_nil.mp h) ▸ .refl
  | @child m hm i c hc ih =>
      rcases List.suffix_cons_iff.mp h with heq | hshort
      · exact hn.eq_of_id_eq (hm.child hc) heq ▸ .refl
      · exact (ih hshort).tail (mem_children_iff.mpr ⟨i, c, hc, rfl⟩)

/-- `m` stands at `n` or below it, going by their paths. -/
def contains (n m : Node) : Bool :=
  n.id.isSuffixOf m.id

/-- **The paths tell what stands below what.** -/
theorem IsIn.contains_iff {n m : Node} (hn : n.IsIn t) (hm : m.IsIn t) :
    n.contains m = true ↔ n.AtOrAbove m := by
  unfold contains
  rw [List.isSuffixOf_iff_suffix]
  exact ⟨hn.atOrAbove_of_id_suffix hm, AtOrAbove.id_suffix⟩

/-! ## §3. Down to a span. -/

/-- The smallest node that spans a range stands at or below the node it is looked for at, and
it spans the range if that node does. -/
theorem covering_below (n : Node) (start stop : Nat) :
    n.AtOrAbove (n.covering start stop)
      ∧ (n.start ≤ start ∧ stop ≤ n.stop →
          (n.covering start stop).start ≤ start ∧ stop ≤ (n.covering start stop).stop) := by
  induction n using childInduction with
  | h n ih =>
      rw [covering_eq]
      cases hfind : n.children.find? fun c => c.label.reaches start stop with
      | none => exact ⟨.refl, fun h => h⟩
      | some c =>
          have hmem : c ∈ n.children := List.mem_of_find?_eq_some hfind
          have hreaches : c.label.reaches start stop = true := by
            simpa using List.find?_some hfind
          by_cases hlate : start < c.start
          · rw [Option.bind_some, if_pos hlate]
            exact ⟨.refl, fun h => h⟩
          · rw [Option.bind_some, if_neg hlate]
            have hstop : stop ≤ c.stop := by
              unfold Label.reaches at hreaches
              rw [Bool.and_eq_true, decide_eq_true_eq] at hreaches
              exact hreaches.1
            obtain ⟨hbelow, hspan⟩ := ih c hmem
            exact ⟨.head hmem hbelow, fun _ => hspan ⟨Nat.le_of_not_lt hlate, hstop⟩⟩

end Node

/-! ## §4. Document order. -/

theorem dropRepeats_sublist (ns : List Node) : (dropRepeats ns).Sublist ns := by
  fun_induction dropRepeats ns with
  | case1 => exact List.Sublist.refl []
  | case2 n ns hrest ih => exact (List.nil_sublist ns).cons_cons n
  | case3 n ns m ms hrest hsame ih =>
      rw [hrest] at ih
      exact ((List.sublist_cons_self m ms).trans ih).cons_cons n
  | case4 n ns m ms hrest hsame ih =>
      rw [hrest] at ih
      exact ih.cons_cons n

theorem mem_of_mem_inDocumentOrder {n : Node} {ns : List Node} (h : n ∈ inDocumentOrder ns) :
    n ∈ ns :=
  mem_sortBy.mp ((dropRepeats_sublist _).mem h)

end StructuralEdit
