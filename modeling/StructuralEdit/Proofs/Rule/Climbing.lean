/-
  StructuralEdit.Proofs.Rule.Climbing
  ───────────────────────────────────
  **A SELECTION CLIMBS AS A WHOLE, AND IT FAILS AT THE ROOT.**

  The nodes of a selection may stand at different depths.  They go up together, one level at a
  time, until the first of them has no parent.  Which one that is and at what level depends on
  the depths; what becomes of the climb does not:

      every node has that many ancestors   →   one ancestor for each node, in their order
      some node has not                    →   the error names the ROOT of the tree

  for the root is the one node of a tree without a parent, and whoever runs out of parents has
  come to it (`parent_eq_error`).  A rule climbs before it queues anything, so a climb that fails
  leaves its queue as it was (`Rule.queue_of_climb_error`).
-/
import Mathlib.Data.List.Perm.Subperm
import StructuralEdit.Proofs.Rule.SharedAncestors

namespace StructuralEdit

/-! ## §1. The ancestors of a node. -/

namespace Node

/-- The nodes that a node with this above it stands below, nearest first. -/
def lineOf : List (Nat × Tree) → List Node
  | [] => []
  | (_, t) :: rest => ⟨t, rest⟩ :: lineOf rest

/-- The node has at least so many proper ancestors. -/
def HasAncestors (n : Node) (count : Nat) : Prop :=
  ∃ ups : List Node, ups.length = count ∧ ups.Nodup ∧ ∀ up ∈ ups, up.AtOrAbove n ∧ up ≠ n

theorem length_lineOf (above : List (Nat × Tree)) : (lineOf above).length = above.length := by
  induction above with
  | nil => rfl
  | cons step rest ih => rw [lineOf, List.length_cons, List.length_cons, ih]

theorem length_above_lt_of_mem_lineOf {above : List (Nat × Tree)} {up : Node}
    (h : up ∈ lineOf above) : up.above.length < above.length := by
  induction above with
  | nil => cases h
  | cons step rest ih =>
      rw [List.length_cons]
      rcases List.mem_cons.mp h with rfl | h
      · exact Nat.lt_succ_self _
      · exact Nat.lt_succ_of_lt (ih h)

theorem nodup_lineOf (above : List (Nat × Tree)) : (lineOf above).Nodup := by
  induction above with
  | nil => exact List.nodup_nil
  | cons step rest ih =>
      refine List.nodup_cons.mpr ⟨fun hmem => ?_, ih⟩
      exact Nat.lt_irrefl _ (length_above_lt_of_mem_lineOf hmem)

variable {t : Tree} {n up : Node}

/-- **The line of a place has exactly its proper ancestors.** -/
theorem mem_lineOf_iff (hn : n.IsIn t) : up ∈ lineOf n.above ↔ up.AtOrAbove n ∧ up ≠ n := by
  induction hn with
  | root =>
      constructor
      · intro h
        cases h
      · rintro ⟨habove, hne⟩
        rcases Relation.ReflTransGen.cases_tail habove with heq | ⟨mid, -, hchild⟩
        · exact absurd heq.symm hne
        · cases parent?_of_mem_children hchild
  | @child n hn i c hc ih =>
      have hchild : n.child i c ∈ n.children := mem_children_iff.mpr ⟨i, c, hc, rfl⟩
      show up ∈ n :: lineOf n.above ↔ _
      rw [List.mem_cons, ih]
      constructor
      · intro h
        have habove : up.AtOrAbove n := by
          rcases h with rfl | ⟨habove, -⟩
          · exact .refl
          · exact habove
        refine ⟨habove.tail hchild, ?_⟩
        rintro rfl
        -- a node does not stand above its parent
        have hlength := habove.length_id_le
        rw [show (n.child i c).id = i :: n.id from rfl, List.length_cons] at hlength
        omega
      · rintro ⟨habove, hne⟩
        rcases Relation.ReflTransGen.cases_tail habove with heq | ⟨mid, hmid, hmem⟩
        · exact absurd heq.symm hne
        · obtain rfl : n = mid := Option.some.inj (parent?_of_mem_children hmem)
          by_cases heq : up = n
          · exact Or.inl heq
          · exact Or.inr ⟨hmid, heq⟩

/-- A place has as many proper ancestors as it is deep. -/
theorem hasAncestors_iff (hn : n.IsIn t) {count : Nat} :
    n.HasAncestors count ↔ count ≤ n.above.length := by
  rw [← length_lineOf]
  constructor
  · rintro ⟨ups, rfl, hnodup, hups⟩
    have hsub : ups ⊆ lineOf n.above := fun up hup => (mem_lineOf_iff hn).mpr (hups up hup)
    exact (List.subperm_of_subset hnodup hsub).length_le
  · intro hle
    refine ⟨(lineOf n.above).take count, List.length_take_of_le hle,
      (nodup_lineOf n.above).sublist (List.take_sublist count _), fun up hup => ?_⟩
    exact (mem_lineOf_iff hn).mp (List.mem_of_mem_take hup)

theorem length_above_of_parent? (h : n.parent? = some up) :
    n.above.length = up.above.length + 1 := by
  unfold parent? at h
  split at h
  next => cases h
  next i t rest habove =>
      cases h
      rw [habove, List.length_cons]

end Node

/-! ## §2. One level. -/

namespace Selection

variable {tier : Tier} {t : Tree} {sel up : Selection tier}

theorem exists_parentOf_iff {n : Node} : (∃ up, parentOf n = .ok up) ↔ n.above ≠ [] := by
  unfold parentOf Node.parent?
  cases n.above with
  | nil => simp
  | cons step rest => simp

/-- The one place of a tree without a parent is its root. -/
theorem parentOf_eq_error {n : Node} (hn : n.IsIn t) (h : n.above = []) :
    parentOf n = .error (.noParent t.label.kind t.label.start) := by
  cases hn with
  | root => rfl
  | child => cases h

theorem mapM_parentOf_eq_error {ns : List Node} (hns : ∀ n ∈ ns, n.IsIn t)
    (h : ∃ n ∈ ns, n.above = []) :
    ns.mapM parentOf = .error (.noParent t.label.kind t.label.start) := by
  induction ns with
  | nil =>
      obtain ⟨n, hn, -⟩ := h
      cases hn
  | cons n ns ih =>
      obtain ⟨hn, hns⟩ := List.forall_mem_cons.mp hns
      rw [List.mapM_cons]
      by_cases hroot : n.above = []
      · rw [parentOf_eq_error hn hroot]
        rfl
      · obtain ⟨up, hup⟩ := exists_parentOf_iff.mpr hroot
        have hlater : ∃ n ∈ ns, n.above = [] := by
          obtain ⟨m, hm, habove⟩ := h
          rcases List.mem_cons.mp hm with rfl | hm
          · exact absurd habove hroot
          · exact ⟨m, hm, habove⟩
        rw [hup, ih hns hlater]
        rfl

/-- **A selection that has the root in it has no parents, and the error names the root.** -/
theorem parent_eq_error (hsel : ∀ n ∈ sel.nodes, n.IsIn t) (h : ∃ n ∈ sel.nodes, n.above = []) :
    sel.parent = .error (.noParent t.label.kind t.label.start) := by
  cases sel with
  | many ns =>
      have herror : ns.mapM parentOf = .error (.noParent t.label.kind t.label.start) :=
        mapM_parentOf_eq_error hsel h
      show many <$> ns.mapM parentOf = _
      rw [herror]
      rfl
  | single n =>
      obtain ⟨m, hm, habove⟩ := h
      obtain rfl := List.mem_singleton.mp hm
      show single <$> parentOf m = _
      rw [parentOf_eq_error (hsel m hm) habove]
      rfl

/-- **Any other selection has parents.** -/
theorem exists_parent (h : ∀ n ∈ sel.nodes, n.above ≠ []) : ∃ up, sel.parent = .ok up := by
  cases sel with
  | many ns =>
      obtain ⟨ups, hups⟩ : ∃ ups, ns.mapM parentOf = .ok ups :=
        exists_mapM_eq_ok_iff.mpr fun n hn => exists_parentOf_iff.mpr (h n hn)
      refine ⟨many ups, ?_⟩
      show many <$> ns.mapM parentOf = _
      rw [hups]
      rfl
  | single n =>
      obtain ⟨up, hup⟩ := exists_parentOf_iff.mpr (h n (List.mem_singleton.mpr rfl))
      refine ⟨single up, ?_⟩
      show single <$> parentOf n = _
      rw [hup]
      rfl

theorem exists_parent_of_mem (hup : sel.parent = .ok up) {n : Node} (hn : n ∈ sel.nodes) :
    ∃ m ∈ up.nodes, n.parent? = some m := by
  have hparent : n.parent? ∈ up.nodes.map some := by
    rw [← map_parent?_of_parent hup]
    exact List.mem_map_of_mem hn
  obtain ⟨m, hm, heq⟩ := List.mem_map.mp hparent
  exact ⟨m, hm, heq.symm⟩

/-! ## §3. Any number of levels. -/

/-- **Climbing composes**, errors included. -/
theorem climb_add (m n : Nat) (sel : Selection tier) :
    sel.climb (m + n) = sel.climb m >>= climb n := by
  induction m generalizing sel with
  | zero =>
      rw [Nat.zero_add]
      rfl
  | succ m ih =>
      rw [Nat.succ_add]
      show sel.parent >>= climb (m + n) = (sel.parent >>= climb m) >>= climb n
      rw [bind_assoc]
      exact congrArg _ (funext ih)

theorem exists_climb {levels : Nat} (h : ∀ n ∈ sel.nodes, levels ≤ n.above.length) :
    ∃ sel', sel.climb levels = .ok sel' := by
  induction levels generalizing sel with
  | zero => exact ⟨sel, rfl⟩
  | succ levels ih =>
      have hne : ∀ n ∈ sel.nodes, n.above ≠ [] := by
        intro n hn hnil
        have := h n hn
        rw [hnil] at this
        cases this
      obtain ⟨up, hup⟩ := exists_parent hne
      have hdeep : ∀ m ∈ up.nodes, levels ≤ m.above.length := by
        intro m hm
        obtain ⟨n, hn, hparent⟩ := exists_mem_of_mem_parent hup m hm
        have hlength := Node.length_above_of_parent? hparent
        have := h n hn
        omega
      obtain ⟨sel', hsel'⟩ := ih hdeep
      refine ⟨sel', ?_⟩
      show sel.parent >>= climb levels = _
      rw [hup]
      exact hsel'

/-- **The climb fails as soon as one node is not deep enough, and the error names the root.** -/
theorem climb_eq_error {levels : Nat} (hsel : ∀ n ∈ sel.nodes, n.IsIn t)
    (h : ∃ n ∈ sel.nodes, n.above.length < levels) :
    sel.climb levels = .error (.noParent t.label.kind t.label.start) := by
  -- the node that is not deep enough is the root now, or its parent is not deep enough either
  induction levels generalizing sel with
  | zero =>
      obtain ⟨n, -, hlt⟩ := h
      cases hlt
  | succ levels ih =>
      show sel.parent >>= climb levels = _
      by_cases hroot : ∃ n ∈ sel.nodes, n.above = []
      · rw [parent_eq_error hsel hroot]
        rfl
      · obtain ⟨up, hup⟩ := exists_parent fun n hn hnil => hroot ⟨n, hn, hnil⟩
        have hisIn : ∀ m ∈ up.nodes, m.IsIn t := by
          intro m hm
          obtain ⟨n, hn, hparent⟩ := exists_mem_of_mem_parent hup m hm
          exact (hsel n hn).parent hparent
        have hshallow : ∃ m ∈ up.nodes, m.above.length < levels := by
          obtain ⟨n, hn, hlt⟩ := h
          obtain ⟨m, hm, hparent⟩ := exists_parent_of_mem hup hn
          have hlength := Node.length_above_of_parent? hparent
          exact ⟨m, hm, by omega⟩
        rw [hup]
        exact ih hisIn hshallow

/-- The selection is a single node. -/
def isSingle : Selection tier → Bool
  | many _ => false
  | single _ => true

theorem isSingle_of_parent (h : sel.parent = .ok up) : up.isSingle = sel.isSingle := by
  cases sel with
  | many ns =>
      obtain ⟨ups, -, rfl⟩ := exists_of_map_eq_ok h
      rfl
  | single n =>
      obtain ⟨up, -, rfl⟩ := exists_of_map_eq_ok h
      rfl

theorem isSingle_of_climb {levels : Nat} (h : sel.climb levels = .ok up) :
    up.isSingle = sel.isSingle := by
  induction levels generalizing sel with
  | zero =>
      cases h
      rfl
  | succ levels ih =>
      obtain ⟨mid, hmid, h⟩ := exists_of_bind_eq_ok h
      exact (ih h).trans (isSingle_of_parent hmid)

end Selection

/-! ## §4. Rules climb before they queue. -/

namespace Rule

variable {r : Rule} {d : Document}

/-- The selection that a rule climbs from: found, kept and narrowed down. -/
def chosen (r : Rule) (d : Document) : Except SelectionError (Selection .root) := do
  let found ← (d.query r.query).1
  let kept ← found.filter (r.keeps (d.consulted r.query))
  r.narrow kept

theorem targets_eq (r : Rule) (d : Document) :
    r.targets d = (r.chosen d >>= Selection.climb r.parent, d.consulted r.query) := by
  unfold targets chosen
  simp only [bind_assoc]
  rfl

theorem chosen_isIn {sel : Selection .root} (h : r.chosen d = .ok sel) :
    ∀ n ∈ sel.nodes, n.IsIn d.tree := by
  obtain ⟨found, hfound, h⟩ := exists_of_bind_eq_ok h
  obtain ⟨kept, hkept, h⟩ := exists_of_bind_eq_ok h
  exact isIn_of_refines (.head (.filter _ _ hkept) (refines_narrow h)) (Document.query_isIn hfound)

theorem queue_of_climb_error {sel : Selection .root} {e : SelectionError}
    (h : r.chosen d = .ok sel) (hclimb : sel.climb r.parent = .error e) :
    r.queue d = (.error e, d.consulted r.query) := by
  have htargets : r.targets d = (.error e, d.consulted r.query) := by
    rw [targets_eq, h]
    show (sel.climb r.parent, d.consulted r.query) = _
    rw [hclimb]
  unfold queue
  rw [htargets]

end Rule

/-! ## §5. Climbing as a whole. -/

/-- **A SELECTION CLIMBS AS A WHOLE, AND IT FAILS AT THE ROOT.**  Whatever nodes of a tree are
selected, and however many levels they are to go up:

  (1) they can just if each of them has that many proper ancestors;
  (2) they come to one ancestor each, in their order, and a single node to a single one;
  (3) else the error names the root of the tree, whichever node has run out of parents;
  (4) levels add up, errors included;
  (5) and a rule whose selection cannot climb has queued nothing. -/
theorem climb_exact {tier : Tier} (t : Tree) (sel : Selection tier)
    (hsel : ∀ n ∈ sel.nodes, n.IsIn t) (levels : Nat) :
    ((∃ sel', sel.climb levels = .ok sel') ↔ ∀ n ∈ sel.nodes, n.HasAncestors levels)
    ∧ (∀ sel', sel.climb levels = .ok sel' →
        sel.nodes.map (Node.ancestor? levels) = sel'.nodes.map some
        ∧ sel'.isSingle = sel.isSingle)
    ∧ ((∃ n ∈ sel.nodes, ¬ n.HasAncestors levels) →
        sel.climb levels = .error (.noParent t.label.kind t.label.start))
    ∧ (∀ more, sel.climb (levels + more) = sel.climb levels >>= Selection.climb more)
    ∧ ∀ (r : Rule) (d : Document) (chosen : Selection .root), r.chosen d = .ok chosen →
        (∃ n ∈ chosen.nodes, ¬ n.HasAncestors r.parent) →
        ∃ d', r.queue d = (.error (.noParent d.root.kind d.root.start), d')
          ∧ d'.queue = d.queue := by
  -- a node that has not so many ancestors is not so deep
  have hshallow : ∀ {tier : Tier} {t : Tree} {sel : Selection tier} {levels : Nat},
      (∀ n ∈ sel.nodes, n.IsIn t) → (∃ n ∈ sel.nodes, ¬ n.HasAncestors levels) →
      sel.climb levels = .error (.noParent t.label.kind t.label.start) := by
    intro tier t sel levels hsel ⟨n, hn, hfew⟩
    rw [Node.hasAncestors_iff (hsel n hn), Nat.not_le] at hfew
    exact Selection.climb_eq_error hsel ⟨n, hn, hfew⟩
  refine ⟨⟨?_, ?_⟩, ?_, hshallow hsel, fun more => Selection.climb_add levels more sel, ?_⟩
  · rintro ⟨sel', hok⟩ n hn
    by_cases hfew : n.HasAncestors levels
    · exact hfew
    · rw [hshallow hsel ⟨n, hn, hfew⟩] at hok
      cases hok
  · intro h
    exact Selection.exists_climb fun n hn => (Node.hasAncestors_iff (hsel n hn)).mp (h n hn)
  · intro sel' hok
    exact ⟨Selection.map_ancestor?_of_climb hok, Selection.isSingle_of_climb hok⟩
  · intro r d chosen hchosen hfew
    exact ⟨d.consulted r.query,
      Rule.queue_of_climb_error hchosen (hshallow (Rule.chosen_isIn hchosen) hfew),
      by cases r.query <;> rfl⟩

/-- The tree of a letter at an offset. -/
def letterAt (start : Nat) : Tree :=
  .node { kind := "identifier", start := start, stop := start + 1 } []

/-- The tree of the sum in ` a+b`. -/
def sumTree : Tree :=
  .node { kind := "binary_expression", start := 1, stop := 4 }
    [letterAt 1, .node { kind := "+", start := 2, stop := 3, named := false } [], letterAt 3]

/-- Both letters of a sum and the sum itself are selected.  One level up there is the sum twice,
and the root; two levels up the sum has run out of parents, the letters have not.  And a rule that
goes up two levels from a name right below the root has queued nothing. -/
theorem climb_exact_two_depths :
    let t : Tree := .node { kind := "source_file", start := 1, stop := 4 } [sumTree]
    let sum := (Node.root t).child 0 sumTree
    let sel : Selection .root := .many [sum.child 2 (letterAt 3), sum, sum.child 0 (letterAt 1)]
    let r : Rule := { id := "r", query := .pattern "a", parent := 2, operation := .remove }
    (∀ n ∈ sel.nodes, n.IsIn t)
    ∧ (∃ sel', sel.climb 1 = .ok sel'
        ∧ [some sum, some (Node.root t), some sum] = sel'.nodes.map some)
    ∧ sel.climb 2 = .error (.noParent "source_file" 1)
    ∧ ∃ d, r.queue nameDocument = (.error (.noParent "source_file" 0), d) ∧ d.queue = [] := by
  intro t sum sel r
  have hsum : sum.IsIn t := .child .root rfl
  have hsel : ∀ n ∈ sel.nodes, n.IsIn t := by
    refine List.forall_mem_cons.mpr ⟨.child hsum rfl, List.forall_mem_cons.mpr ⟨hsum, ?_⟩⟩
    exact List.forall_mem_singleton.mpr (.child hsum rfl)
  have hshallow : ¬ sum.HasAncestors 2 := by
    rw [Node.hasAncestors_iff hsum]
    decide
  obtain ⟨hok, hnodes, -⟩ := climb_exact t sel hsel 1
  obtain ⟨-, -, herror, -, hrule⟩ := climb_exact t sel hsel 2
  obtain ⟨sel', hsel'⟩ := hok.mpr fun n hn => by
    rw [Node.hasAncestors_iff (hsel n hn)]
    revert n
    decide
  refine ⟨hsel, ⟨sel', hsel', (hnodes sel' hsel').1⟩, herror ⟨sum, ?_, hshallow⟩, ?_⟩
  · exact List.mem_cons_of_mem _ List.mem_cons_self
  · have hname : r.chosen nameDocument = .ok (.many [(Node.root (oneName [97])).child 0
        (.node { kind := "identifier", start := 0, stop := 1 } [])]) := rfl
    refine hrule r nameDocument _ hname ⟨_, List.mem_singleton_self _, ?_⟩
    rw [Node.hasAncestors_iff (.child .root rfl)]
    decide

end StructuralEdit
