/-
  StructuralEdit.Proofs.Selection.Nodes
  ─────────────────────────────────────
  **A SELECTION HOLDS NODES OF ITS TREE.**

  A selection begins with what a query finds, and both kinds of query find places of
  the tree they look at.  What is made from a selection has nodes of it or, after
  going up, their parents (`Refines`).  So however long the chain, the nodes at its
  end are places of the tree that the chain began with, and an edit for one of them
  has the ends of a node of that tree.
-/
import StructuralEdit.Document
import StructuralEdit.Proofs.Pattern.Locate
import StructuralEdit.Proofs.Query.Captures

namespace StructuralEdit

/-! ## §1. Selections made from selections. -/

theorem exists_of_bind_eq_ok {ε α β : Type} {x : Except ε α} {f : α → Except ε β} {b : β}
    (h : x >>= f = .ok b) : ∃ a, x = .ok a ∧ f a = .ok b := by
  cases x with
  | error e => cases h
  | ok a => exact ⟨a, rfl, h⟩

theorem exists_of_map_eq_ok {ε α β : Type} {x : Except ε α} {f : α → β} {b : β}
    (h : f <$> x = .ok b) : ∃ a, x = .ok a ∧ f a = b := by
  cases x with
  | error e => cases h
  | ok a => exact ⟨a, rfl, Except.ok.inj h⟩

theorem mem_toList_toOption {ε α : Type} {x : Except ε α} {a : α} :
    a ∈ x.toOption.toList ↔ x = .ok a := by
  cases x with
  | error e => simp [Except.toOption]
  | ok b => simp [Except.toOption, eq_comm]

/-- A root selection is made from another one. -/
inductive Selection.Refines (sel : Selection .root) : Selection .root → Prop where
  | first {sel' : Selection .root} (h : sel.first = .ok sel') : Refines sel sel'
  | last {sel' : Selection .root} (h : sel.last = .ok sel') : Refines sel sel'
  | unique {sel' : Selection .root} (h : sel.unique = .ok sel') : Refines sel sel'
  | filter {σ : Type} (p : Predicate σ) (state : σ) {sel' : Selection .root}
      (h : (sel.filterWith p state).1 = .ok sel') : Refines sel sel'
  | parent {sel' : Selection .root} (h : sel.parent = .ok sel') : Refines sel sel'

namespace Selection

theorem mem_of_mem_keepNodes {σ : Type} {p : Predicate σ} {ns : List Node} {state : σ} {n : Node}
    (h : n ∈ (keepNodes p ns state).1) : n ∈ ns := by
  induction ns generalizing state with
  | nil => exact h
  | cons m ns ih =>
      rw [keepNodes] at h
      dsimp only at h
      split at h
      next =>
        rcases List.mem_cons.mp h with rfl | h
        · exact List.mem_cons_self
        · exact List.mem_cons_of_mem m (ih h)
      next => exact List.mem_cons_of_mem m (ih h)

theorem parent?_of_parentOf {n up : Node} (h : parentOf n = .ok up) : n.parent? = some up := by
  unfold parentOf at h
  split at h
  next up' hup => exact Except.ok.inj h ▸ hup
  next => cases h

theorem exists_mem_of_mapM_parentOf {ns ups : List Node} (h : ns.mapM parentOf = .ok ups)
    {up : Node} (hup : up ∈ ups) : ∃ n ∈ ns, n.parent? = some up := by
  induction ns generalizing ups with
  | nil =>
      cases h
      cases hup
  | cons n ns ih =>
      rw [List.mapM_cons] at h
      obtain ⟨first, hfirst, h⟩ := exists_of_bind_eq_ok h
      obtain ⟨rest, hrest, h⟩ := exists_of_bind_eq_ok h
      cases h
      rcases List.mem_cons.mp hup with rfl | hup
      · exact ⟨n, List.mem_cons_self, parent?_of_parentOf hfirst⟩
      · obtain ⟨m, hm, hparent⟩ := ih hrest hup
        exact ⟨m, List.mem_cons_of_mem n hm, hparent⟩

variable {tier : Tier} {sel sel' : Selection tier}

theorem mem_of_mem_first (h : sel.first = .ok sel') : ∀ n ∈ sel'.nodes, n ∈ sel.nodes := by
  unfold first at h
  split at h
  next m ns => cases h; simp [nodes]
  next => cases h
  next m => cases h; simp [nodes]

theorem mem_of_mem_last (h : sel.last = .ok sel') : ∀ n ∈ sel'.nodes, n ∈ sel.nodes := by
  unfold last at h
  split at h
  next ns =>
    split at h
    next m hm =>
      cases h
      exact List.forall_mem_singleton.mpr (List.mem_of_getLast? hm)
    next => cases h
  next m => cases h; simp [nodes]

theorem mem_of_mem_unique (h : sel.unique = .ok sel') : ∀ n ∈ sel'.nodes, n ∈ sel.nodes := by
  unfold unique at h
  split at h
  next m => cases h; simp [nodes]
  next => cases h
  next m => cases h; simp [nodes]

theorem mem_of_mem_filterWith {σ : Type} {p : Predicate σ} {state : σ}
    (h : (sel.filterWith p state).1 = .ok sel') : ∀ n ∈ sel'.nodes, n ∈ sel.nodes := by
  unfold filterWith at h
  split at h
  next ns =>
    cases h
    intro n hn
    exact mem_of_mem_keepNodes hn
  next m =>
    dsimp only at h
    split at h
    next => cases h; simp [nodes]
    next => cases h

theorem exists_mem_of_mem_parent (h : sel.parent = .ok sel') :
    ∀ up ∈ sel'.nodes, ∃ n ∈ sel.nodes, n.parent? = some up := by
  unfold parent at h
  split at h
  next ns =>
    obtain ⟨ups, hups, rfl⟩ := exists_of_map_eq_ok h
    intro up hup
    exact exists_mem_of_mapM_parentOf hups hup
  next m =>
    obtain ⟨up, hup, rfl⟩ := exists_of_map_eq_ok h
    exact List.forall_mem_singleton.mpr
      ⟨m, List.mem_singleton.mpr rfl, parent?_of_parentOf hup⟩

/-- **A selection made from nodes of a tree has nodes of that tree.** -/
theorem Refines.isIn {t : Tree} {sel sel' : Selection .root} (h : sel.Refines sel')
    (hsel : ∀ n ∈ sel.nodes, n.IsIn t) : ∀ n ∈ sel'.nodes, n.IsIn t := by
  intro n hn
  cases h with
  | first h => exact hsel n (mem_of_mem_first h n hn)
  | last h => exact hsel n (mem_of_mem_last h n hn)
  | unique h => exact hsel n (mem_of_mem_unique h n hn)
  | filter p state h => exact hsel n (mem_of_mem_filterWith h n hn)
  | parent h =>
      obtain ⟨m, hm, hup⟩ := exists_mem_of_mem_parent h n hn
      exact (hsel m hm).parent hup

end Selection

/-! ## §2. What queries find. -/

namespace Document

theorem search_isIn {t : Tree} {d : Document} {scope : Node} {q : QueryText} {ns : List Node}
    (hscope : scope.IsIn t) (h : d.search scope q = .ok ns) : ∀ n ∈ ns, n.IsIn t := by
  cases q with
  | pattern source =>
      obtain ⟨p, -, h⟩ := exists_of_bind_eq_ok h
      cases h
      intro n hn
      exact Pattern.search_isIn hscope hn
  | tree source =>
      obtain ⟨q, -, h⟩ := exists_of_bind_eq_ok h
      cases hs : q.search d.text scope with
      | error e =>
          rw [hs] at h
          cases h
      | ok found =>
          rw [hs] at h
          cases h
          exact TreeQuery.search_isIn hscope hs

theorem query_isIn {d : Document} {q : QueryText} {sel : Selection .root}
    (h : (d.query q).1 = .ok sel) : ∀ n ∈ sel.nodes, n.IsIn d.tree := by
  obtain ⟨ns, hns, rfl⟩ := exists_of_map_eq_ok h
  exact search_isIn .root hns

end Document

/-! ## §3. Edits for nodes. -/

/-- The edit for a node covers the node, or stands at one of its ends. -/
theorem Intent.range_of_mem_edit? {intent : Intent} {n : Node} {payload : Payload} {e : Edit}
    (h : e ∈ intent.edit? n payload) :
    (e.pos, e.stop) = (n.start, n.stop) ∨ (e.pos, e.stop) = (n.start, n.start)
      ∨ (e.pos, e.stop) = (n.stop, n.stop) := by
  cases intent with
  | remove =>
      cases h
      exact Or.inl rfl
  | prepend =>
      obtain ⟨t, -, rfl⟩ := Option.map_eq_some_iff.mp h
      exact Or.inr (Or.inl rfl)
  | append =>
      obtain ⟨t, -, rfl⟩ := Option.map_eq_some_iff.mp h
      exact Or.inr (Or.inr rfl)
  | replace =>
      obtain ⟨t, -, rfl⟩ := Option.map_eq_some_iff.mp h
      exact Or.inl rfl

end StructuralEdit
