/-
  StructuralEdit.Proofs.Tree.Levels
  ─────────────────────────────────
  **THE WAYS THROUGH A TREE, ONE LEVEL AT A TIME.**

  The three ways through a tree are defined by mutual recursion on a tree and the
  list of trees below it.  Each of them is the same as a step from a node to its
  CHILDREN:

      subtree      the node, then the listings of its children      `subtree_eq`
      covering     on to the first child that reaches the range     `covering_eq`
      enclosing    on to the first child that encloses the span     `enclosing_eq`

  With these equations and induction on the children (`childInduction`) no later
  proof has to go through lists of trees again.  What stands at or below a node is
  the closure of "is a child of" (`AtOrAbove`), and the listing of a node has exactly
  that (`mem_subtree_iff`).
-/
import Mathlib.Logic.Relation
import StructuralEdit.Tree

namespace StructuralEdit

/-! ## §1. Children. -/

/-- The children of `parent` from number `i` on, as nodes. -/
def Tree.childrenFrom (parent : Tree) (above : List (Nat × Tree)) (i : Nat) :
    List Tree → List Node
  | [] => []
  | c :: cs => ⟨c, (i, parent) :: above⟩ :: Tree.childrenFrom parent above (i + 1) cs

theorem Tree.childrenFrom_eq_mapIdx (parent : Tree) (above : List (Nat × Tree)) (cs : List Tree)
    (i : Nat) :
    Tree.childrenFrom parent above i cs
      = cs.mapIdx fun k c => (⟨c, (i + k, parent) :: above⟩ : Node) := by
  induction cs generalizing i with
  | nil => rfl
  | cons c cs ih =>
      rw [Tree.childrenFrom, ih, List.mapIdx_cons]
      simp only [Nat.add_zero, Nat.add_assoc, Nat.add_comm 1]

namespace Node

theorem children_eq (n : Node) :
    n.children = Tree.childrenFrom n.tree n.above 0 n.tree.children := by
  rw [Tree.childrenFrom_eq_mapIdx]
  simp only [Nat.zero_add]
  rfl

theorem mem_children_iff {n m : Node} :
    m ∈ n.children ↔ ∃ i c, n.tree.children[i]? = some c ∧ m = n.child i c := by
  unfold children
  rw [List.mem_mapIdx]
  constructor
  · intro h
    obtain ⟨i, hi, rfl⟩ := h
    exact ⟨i, n.tree.children[i], List.getElem?_eq_getElem hi, rfl⟩
  · intro h
    obtain ⟨i, c, hc, rfl⟩ := h
    obtain ⟨hi, rfl⟩ := List.getElem?_eq_some_iff.mp hc
    exact ⟨i, hi, rfl⟩

/-- **Induction on the children.** -/
theorem childInduction {P : Node → Prop} (h : ∀ n : Node, (∀ m ∈ n.children, P m) → P n)
    (n : Node) : P n := by
  -- on the size of the subtree, which is larger than that of a child
  induction hsize : sizeOf n.tree using Nat.strongRecOn generalizing n with
  | ind size ih =>
      apply h
      intro m hm
      obtain ⟨i, c, hc, rfl⟩ := mem_children_iff.mp hm
      have hsmall : sizeOf c < sizeOf n.tree := by
        have hmem : c ∈ n.tree.children := List.mem_of_getElem? hc
        cases htree : n.tree with
        | node l cs =>
            rw [htree] at hmem
            have hcs : sizeOf c < sizeOf cs := List.sizeOf_lt_of_mem hmem
            simp only [Tree.node.sizeOf_spec]
            omega
      exact ih (sizeOf c) (hsize ▸ hsmall) (n.child i c) rfl

end Node

/-! ## §2. The listing. -/

theorem Tree.nodesAmong_eq (parent : Tree) (above : List (Nat × Tree)) (cs : List Tree) (i : Nat) :
    Tree.nodesAmong parent above i cs
      = (Tree.childrenFrom parent above i cs).flatMap Node.subtree := by
  induction cs generalizing i with
  | nil => rfl
  | cons c cs ih =>
      rw [Tree.nodesAmong, ih, Tree.childrenFrom, List.flatMap_cons]
      rfl

namespace Node

/-- **The listing of a node is the node, then the listings of its children.** -/
theorem subtree_eq (n : Node) : n.subtree = n :: n.children.flatMap subtree := by
  rw [children_eq]
  obtain ⟨⟨l, cs⟩, above⟩ := n
  show Tree.nodesBelow above (.node l cs) = _
  rw [Tree.nodesBelow, Tree.nodesAmong_eq]
  rfl

/-- `m` is the node `n`, or stands below it. -/
abbrev AtOrAbove (n m : Node) : Prop :=
  Relation.ReflTransGen (fun up down : Node => down ∈ up.children) n m

/-- **The listing of a node has exactly what stands at it or below it.** -/
theorem mem_subtree_iff {n m : Node} : m ∈ n.subtree ↔ n.AtOrAbove m := by
  constructor
  · intro h
    induction n using childInduction with
    | h n ih =>
        rw [subtree_eq, List.mem_cons, List.mem_flatMap] at h
        rcases h with rfl | ⟨c, hc, hm⟩
        · exact .refl
        · exact .head hc (ih c hc hm)
  · intro h
    induction h using Relation.ReflTransGen.head_induction_on with
    | refl =>
        rw [subtree_eq]
        exact List.mem_cons_self
    | head hchild _ ih =>
        rw [subtree_eq, List.mem_cons, List.mem_flatMap]
        exact Or.inr ⟨_, hchild, ih⟩

end Node

/-! ## §3. Going down. -/

theorem Tree.coveringAmong_eq (start stop : Nat) (parent : Tree) (above : List (Nat × Tree))
    (cs : List Tree) (i : Nat) :
    Tree.coveringAmong start stop parent above i cs
      = ((Tree.childrenFrom parent above i cs).find? fun c => c.label.reaches start stop).bind
          fun c => if start < c.start then none else some (c.covering start stop) := by
  induction cs generalizing i with
  | nil => rfl
  | cons c cs ih =>
      rw [Tree.coveringAmong, ih, Tree.childrenFrom, List.find?_cons]
      show _ = (match c.label.reaches start stop with
        | true => some (⟨c, (i, parent) :: above⟩ : Node)
        | false => _).bind _
      cases c.label.reaches start stop <;> rfl

/-- The span of the node encloses that of `target`. -/
def Node.surrounds (target : Label) (n : Node) : Bool :=
  n.start ≤ target.start && target.stop ≤ n.stop

/-- The node has the span and the kind of `target`. -/
def Node.resembles (target : Label) (n : Node) : Bool :=
  n.start == target.start && n.stop == target.stop && n.kind == target.kind

theorem Tree.enclosingAmong_eq (target : Label) (parent : Tree) (above : List (Nat × Tree))
    (cs : List Tree) (i : Nat) :
    Tree.enclosingAmong target parent above i cs
      = ((Tree.childrenFrom parent above i cs).find? (Node.surrounds target)).map
          fun c => c.enclosing target := by
  induction cs generalizing i with
  | nil => rfl
  | cons c cs ih =>
      rw [Tree.enclosingAmong, ih, Tree.childrenFrom, List.find?_cons]
      show (if Node.surrounds target ⟨c, (i, parent) :: above⟩ then _ else _) = _
      cases Node.surrounds target ⟨c, (i, parent) :: above⟩ <;> rfl

namespace Node

/-- **On to the first child that reaches the range, unless it starts too late.** -/
theorem covering_eq (n : Node) (start stop : Nat) :
    n.covering start stop
      = ((n.children.find? fun c => c.label.reaches start stop).bind
          fun c => if start < c.start then none else some (c.covering start stop)).getD n := by
  rw [children_eq, ← Tree.coveringAmong_eq]
  obtain ⟨⟨l, cs⟩, above⟩ := n
  show Tree.coveringBelow start stop above (.node l cs) = _
  rw [Tree.coveringBelow]
  rfl

/-- **On to the first child that encloses the span, until span and kind agree.** -/
theorem enclosing_eq (n : Node) (target : Label) :
    n.enclosing target
      = if n.resembles target then n
        else ((n.children.find? (surrounds target)).map fun c => c.enclosing target).getD n := by
  rw [children_eq, ← Tree.enclosingAmong_eq]
  obtain ⟨⟨l, cs⟩, above⟩ := n
  show Tree.enclosingBelow target above (.node l cs) = _
  rw [Tree.enclosingBelow]
  rfl

end Node

end StructuralEdit
