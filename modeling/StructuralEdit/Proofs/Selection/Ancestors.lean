/-
  StructuralEdit.Proofs.Selection.Ancestors
  ─────────────────────────────────────────
  **CLIMBING LEADS FROM EACH NODE TO ITS ANCESTOR.**

  A selection climbs level by level, all of its nodes at once; a node by itself climbs by
  going to its parent again and again (`Node.ancestor?`).  The two come to the same: where
  a selection can climb, what it comes to is the ancestor of each of its nodes, in their
  order, and as often as nodes have it (`map_ancestor?_of_climb`).
-/
import StructuralEdit.Proofs.Selection.Nodes

namespace StructuralEdit

/-- The node that many levels up, if there are so many. -/
def Node.ancestor? : Nat → Node → Option Node
  | 0, n => some n
  | levels + 1, n => n.parent?.bind (ancestor? levels)

namespace Selection

variable {tier : Tier}

theorem map_parent?_of_mapM {ns ups : List Node} (h : ns.mapM parentOf = .ok ups) :
    ns.map Node.parent? = ups.map some := by
  induction ns generalizing ups with
  | nil =>
      cases h
      rfl
  | cons n ns ih =>
      rw [List.mapM_cons] at h
      obtain ⟨up, hup, h⟩ := exists_of_bind_eq_ok h
      obtain ⟨rest, hrest, h⟩ := exists_of_bind_eq_ok h
      cases h
      rw [List.map_cons, List.map_cons, parent?_of_parentOf hup, ih hrest]

theorem map_parent?_of_parent {sel sel' : Selection tier} (h : sel.parent = .ok sel') :
    sel.nodes.map Node.parent? = sel'.nodes.map some := by
  cases sel with
  | many ns =>
      obtain ⟨ups, hups, rfl⟩ := exists_of_map_eq_ok h
      exact map_parent?_of_mapM hups
  | single n =>
      obtain ⟨up, hup, rfl⟩ := exists_of_map_eq_ok h
      show [n.parent?] = [some up]
      rw [parent?_of_parentOf hup]

/-- **What a selection climbs to are the ancestors of its nodes**, one for each node. -/
theorem map_ancestor?_of_climb {levels : Nat} {sel sel' : Selection tier}
    (h : sel.climb levels = .ok sel') :
    sel.nodes.map (Node.ancestor? levels) = sel'.nodes.map some := by
  induction levels generalizing sel with
  | zero =>
      cases h
      rfl
  | succ levels ih =>
      obtain ⟨up, hup, h⟩ := exists_of_bind_eq_ok h
      have hparents := map_parent?_of_parent hup
      calc sel.nodes.map (Node.ancestor? (levels + 1))
          = (sel.nodes.map Node.parent?).map (·.bind (Node.ancestor? levels)) := by
            rw [List.map_map]
            rfl
        _ = up.nodes.map (Node.ancestor? levels) := by
            rw [hparents, List.map_map]
            rfl
        _ = sel'.nodes.map some := ih h

end Selection

end StructuralEdit
