/-
  StructuralEdit.Proofs.Query.DocumentOrder
  ─────────────────────────────────────────
  **WHAT SORTING BY SPAN DOES TO A LIST OF NODES.**

  What a query captures is sorted by span, and then neighbours that are one node are
  merged.  Nodes of DIFFERENT spans come out as one would like: what encloses comes
  before what it encloses.  Nodes of ONE span do not: the sort leaves them in the order
  in which the captures delivered them, and merging neighbours is all that happens to
  them (`filter_inDocumentOrder`).

  So a list comes out with every node once, and before all that stands below it,
  exactly if that is so for the nodes of each span taken by themselves
  (`outerFirst_inDocumentOrder_iff`).  A wrapper and the only node inside it share
  their span, and a query that captures both of them twice selects both of them twice.
-/
import StructuralEdit.Proofs.Selection.Nodes
import StructuralEdit.Proofs.Tree.Spans

namespace StructuralEdit

/-! ## §1. Merging neighbours. -/

theorem dropRepeats_eq_nil_iff {ns : List Node} : dropRepeats ns = [] ↔ ns = [] := by
  fun_cases dropRepeats ns <;> simp

/-- Where the path tells the nodes apart, merging loses none of them. -/
theorem mem_dropRepeats_iff {ns : List Node} (hpath : ∀ a ∈ ns, ∀ b ∈ ns, a.id = b.id → a = b)
    {n : Node} : n ∈ dropRepeats ns ↔ n ∈ ns := by
  refine ⟨(dropRepeats_sublist ns).mem, ?_⟩
  intro h
  fun_induction dropRepeats ns with
  | case1 => exact h
  | case2 m ns hrest ih =>
      rw [dropRepeats_eq_nil_iff.mp hrest] at h
      exact h
  | case3 m ns first rest hrest hsame ih =>
      have hfirst : first ∈ ns := (dropRepeats_sublist ns).mem (hrest ▸ List.mem_cons_self)
      have heq : m = first := hpath m List.mem_cons_self first (List.mem_cons_of_mem m hfirst)
        (by simpa using hsame)
      rcases List.mem_cons.mp h with rfl | h
      · exact List.mem_cons_self
      · have hn := ih (fun a ha b hb => hpath a (List.mem_cons_of_mem m ha) b
          (List.mem_cons_of_mem m hb)) h
        rwa [hrest, ← heq] at hn
  | case4 m ns first rest hrest hsame ih =>
      rcases List.mem_cons.mp h with rfl | h
      · exact List.mem_cons_self
      · have hn := ih (fun a ha b hb => hpath a (List.mem_cons_of_mem m ha) b
          (List.mem_cons_of_mem m hb)) h
        rw [hrest] at hn
        exact List.mem_cons_of_mem m hn

/-- Of one node in many copies one is left. -/
theorem length_dropRepeats_le_one {ns : List Node} (h : ∀ a ∈ ns, ∀ b ∈ ns, a.id = b.id) :
    (dropRepeats ns).length ≤ 1 := by
  fun_induction dropRepeats ns with
  | case1 => exact Nat.zero_le 1
  | case2 m ns hrest ih => exact Nat.le_refl 1
  | case3 m ns first rest hrest hsame ih =>
      have hle := ih fun a ha b hb => h a (List.mem_cons_of_mem m ha) b (List.mem_cons_of_mem m hb)
      rw [hrest] at hle
      exact hle
  | case4 m ns first rest hrest hsame ih =>
      have hfirst : first ∈ ns := (dropRepeats_sublist ns).mem (hrest ▸ List.mem_cons_self)
      exact absurd (h m List.mem_cons_self first (List.mem_cons_of_mem m hfirst))
        (by simpa using hsame)

/-! ## §2. Sorting by span. -/

namespace Node

theorem precedes_iff {a b : Node} :
    a.precedes b = true ↔ a.start < b.start ∨ (a.start = b.start ∧ b.stop ≤ a.stop) := by
  simp [precedes]

theorem precedes_trans (a b c : Node) (hab : a.precedes b = true) (hbc : b.precedes c = true) :
    a.precedes c = true := by
  rw [precedes_iff] at *
  omega

theorem precedes_total (a b : Node) : (a.precedes b || b.precedes a) = true := by
  rw [Bool.or_eq_true, precedes_iff, precedes_iff]
  omega

end Node

theorem pairwise_inDocumentOrder (ns : List Node) :
    (inDocumentOrder ns).Pairwise fun a b => a.precedes b = true :=
  (pairwise_sortBy Node.precedes_trans Node.precedes_total ns).sublist (dropRepeats_sublist _)

/-- A list that is in order already, and has no path twice, stays as it is. -/
theorem inDocumentOrder_eq_self {ns : List Node}
    (hsorted : ns.Pairwise fun a b => a.precedes b = true)
    (hpath : ns.Pairwise fun a b => a.id ≠ b.id) : inDocumentOrder ns = ns := by
  have hsort : sortBy Node.precedes ns = ns := by
    induction ns with
    | nil => rfl
    | cons n ns ih =>
        obtain ⟨hn, hns⟩ := List.pairwise_cons.mp hsorted
        show insertSorted Node.precedes n (sortBy Node.precedes ns) = _
        rw [ih hns (List.pairwise_cons.mp hpath).2, insertSorted_cons_of_forall hn]
  unfold inDocumentOrder
  rw [hsort]
  clear hsort hsorted
  induction ns with
  | nil => rfl
  | cons n ns ih =>
      obtain ⟨hn, hns⟩ := List.pairwise_cons.mp hpath
      rw [dropRepeats, ih hns]
      cases ns with
      | nil => rfl
      | cons m ms =>
          have hne : ¬ (n.id == m.id) = true := by simpa using hn m List.mem_cons_self
          dsimp only
          rw [if_neg hne]

/-- In a sorted list the nodes of one span stand together, so merging neighbours can be
done span by span. -/
theorem filter_dropRepeats {ns : List Node}
    (hsorted : ns.Pairwise fun a b => a.precedes b = true)
    (hpath : ∀ a ∈ ns, ∀ b ∈ ns, a.id = b.id → a = b) (start stop : Nat) :
    (dropRepeats ns).filter (·.hasSpan start stop)
      = dropRepeats (ns.filter (·.hasSpan start stop)) := by
  induction ns with
  | nil => rfl
  | cons n ns ih =>
      obtain ⟨hn, hns⟩ := List.pairwise_cons.mp hsorted
      have ih' := ih hns fun a ha b hb =>
        hpath a (List.mem_cons_of_mem n ha) b (List.mem_cons_of_mem n hb)
      rw [dropRepeats]
      cases hrest : dropRepeats ns with
      | nil =>
          rw [dropRepeats_eq_nil_iff.mp hrest]
          by_cases hspan : n.hasSpan start stop <;> simp [hspan, dropRepeats]
      | cons m ms =>
          rw [hrest] at ih'
          have hm : m ∈ ns := (dropRepeats_sublist ns).mem (hrest ▸ List.mem_cons_self)
          by_cases hsame : n.id = m.id
          · -- `m` is `n`, so both have the span or neither has
            obtain rfl := hpath n List.mem_cons_self m (List.mem_cons_of_mem n hm) hsame
            by_cases hspan : n.hasSpan start stop
            · rw [List.filter_cons, if_pos hspan] at ih'
              simp [hspan, dropRepeats, ← ih']
            · rw [List.filter_cons, if_neg hspan] at ih'
              simp [hspan, ← ih']
          · by_cases hspan : n.hasSpan start stop
            · by_cases hspan' : m.hasSpan start stop
              · rw [List.filter_cons, if_pos hspan'] at ih'
                simp [hspan, hspan', dropRepeats, ← ih', hsame]
              · -- after `m`, which has another span, the span of `n` does not come again
                have hnone : ms.filter (·.hasSpan start stop) = [] := by
                  rw [List.filter_eq_nil_iff]
                  intro k hk hspank
                  have hsub : (m :: ms).Sublist ns := hrest ▸ dropRepeats_sublist ns
                  have hmk := (List.pairwise_cons.mp (hns.sublist hsub)).1 k hk
                  have hnm := hn m hm
                  rw [Node.hasSpan_iff] at hspan hspan' hspank
                  rw [Node.precedes_iff] at hnm hmk
                  omega
                rw [List.filter_cons, if_neg hspan', hnone] at ih'
                simp [hspan, hspan', dropRepeats, ← ih', hsame, hnone]
            · simp [hspan, hsame, ← ih']

/-- **Nodes of one span keep the order in which they were delivered.** -/
theorem filter_inDocumentOrder {ns : List Node}
    (hpath : ∀ a ∈ ns, ∀ b ∈ ns, a.id = b.id → a = b) (start stop : Nat) :
    (inDocumentOrder ns).filter (·.hasSpan start stop)
      = dropRepeats (ns.filter (·.hasSpan start stop)) := by
  have hsorted := pairwise_sortBy Node.precedes_trans Node.precedes_total ns
  unfold inDocumentOrder
  rw [filter_dropRepeats hsorted
        (fun a ha b hb => hpath a (mem_sortBy.mp ha) b (mem_sortBy.mp hb)),
      filter_sortBy Node.precedes_trans Node.precedes_total]
  -- all of one span, they are level and none of them moves
  congr 1
  generalize hgroup : ns.filter (·.hasSpan start stop) = group
  have hspan : ∀ n ∈ group, n.start = start ∧ n.stop = stop := by
    intro n hn
    rw [← hgroup] at hn
    exact Node.hasSpan_iff.mp (List.mem_filter.mp hn).2
  clear hgroup
  induction group with
  | nil => rfl
  | cons n group ih =>
      have ih' := ih fun m hm => hspan m (List.mem_cons_of_mem n hm)
      show insertSorted Node.precedes n (sortBy Node.precedes group) = _
      rw [ih']
      apply insertSorted_cons_of_forall
      intro m hm
      have hn := hspan n List.mem_cons_self
      have hm := hspan m (List.mem_cons_of_mem n hm)
      rw [Node.precedes_iff]
      omega

/-! ## §3. Once each, and outer nodes first. -/

/-- Every node stands in the list once, and before all that stands below it: no later
node of the list is the same node or one above it. -/
def OuterFirst (ns : List Node) : Prop :=
  ns.Pairwise fun a b => ¬ b.AtOrAbove a

section

variable {t : Tree} {ns : List Node}

theorem OuterFirst.nodup_id (h : OuterFirst ns) (hin : ∀ n ∈ ns, n.IsIn t) :
    (ns.map Node.id).Nodup := by
  rw [List.nodup_iff_pairwise_ne, List.pairwise_map]
  refine List.Pairwise.imp_of_mem (fun {a b} ha hb hab hid => hab ?_) h
  rw [(hin a ha).eq_of_id_eq (hin b hb) hid]

/-- A node that comes after one below it has the same span. -/
theorem pairwise_span_inDocumentOrder (hwf : t.WellFormed) (hin : ∀ n ∈ ns, n.IsIn t) :
    (inDocumentOrder ns).Pairwise fun a b => b.AtOrAbove a → a.span = b.span := by
  refine (pairwise_inDocumentOrder ns).imp_of_mem fun {a b} _ hb hab habove => ?_
  have hspan := hwf.inside (hin b (mem_of_mem_inDocumentOrder hb)) habove
  rw [Node.precedes_iff] at hab
  exact Prod.ext (by simp only [Node.span]; omega) (by simp only [Node.span]; omega)

theorem outerFirst_inDocumentOrder_iff (hwf : t.WellFormed) (hin : ∀ n ∈ ns, n.IsIn t) :
    OuterFirst (inDocumentOrder ns)
      ↔ ∀ start stop, OuterFirst (dropRepeats (ns.filter (·.hasSpan start stop))) := by
  have hpath : ∀ a ∈ ns, ∀ b ∈ ns, a.id = b.id → a = b :=
    fun a ha b hb => (hin a ha).eq_of_id_eq (hin b hb)
  constructor
  · intro h start stop
    rw [← filter_inDocumentOrder hpath]
    exact h.filter _
  · intro h
    unfold OuterFirst
    rw [List.pairwise_iff_forall_sublist]
    intro a b hab habove
    -- both are among the nodes of the one span that they have
    have hspan := List.pairwise_iff_forall_sublist.mp (pairwise_span_inDocumentOrder hwf hin)
      hab habove
    obtain ⟨hstart, hstop⟩ := Prod.mk.inj hspan
    have hgroup := h a.start a.stop
    rw [← filter_inDocumentOrder hpath] at hgroup
    have hpair := hab.filter (·.hasSpan a.start a.stop)
    rw [List.filter_cons, if_pos (Node.hasSpan_iff.mpr ⟨rfl, rfl⟩),
        List.filter_cons, if_pos (Node.hasSpan_iff.mpr ⟨hstart.symm, hstop.symm⟩),
        List.filter_nil] at hpair
    exact List.pairwise_iff_forall_sublist.mp hgroup hpair habove

/-- Where different nodes have different spans, there is nothing to get wrong. -/
theorem outerFirst_of_spans_differ (hwf : t.WellFormed) (hin : ∀ n ∈ ns, n.IsIn t)
    (hspans : ∀ a ∈ ns, ∀ b ∈ ns, a.span = b.span → a = b) :
    OuterFirst (inDocumentOrder ns) := by
  rw [outerFirst_inDocumentOrder_iff hwf hin]
  intro start stop
  have hone : (dropRepeats (ns.filter (·.hasSpan start stop))).length ≤ 1 := by
    apply length_dropRepeats_le_one
    intro a ha b hb
    obtain ⟨ha, hspan_a⟩ := List.mem_filter.mp ha
    obtain ⟨hb, hspan_b⟩ := List.mem_filter.mp hb
    rw [Node.hasSpan_iff] at hspan_a hspan_b
    rw [hspans a ha b hb (Prod.ext (hspan_a.1.trans hspan_b.1.symm)
      (hspan_a.2.trans hspan_b.2.symm))]
  generalize dropRepeats (ns.filter (·.hasSpan start stop)) = group at hone
  match group, hone with
  | [], _ => exact List.Pairwise.nil
  | [n], _ => exact List.pairwise_singleton _ n

end

/-- **WHAT SORTING BY SPAN DOES TO THE NODES OF A TREE.**

  (1) The sorted list has the nodes of the list, and no others.
  (2) The nodes of one span come in the order of the list, neighbours merged.
  (3) A node that comes after one below it has the same span as that one.
  (4) Every node comes once, and before all that stands below it, exactly if that is so
      for the nodes of each span by themselves.
  (5) So it is if no two different nodes of the list have the same span. -/
theorem document_order_by_span (t : Tree) (hwf : t.WellFormed) (ns : List Node)
    (hin : ∀ n ∈ ns, n.IsIn t) :
    (∀ n, n ∈ inDocumentOrder ns ↔ n ∈ ns)
    ∧ (∀ start stop, (inDocumentOrder ns).filter (·.hasSpan start stop)
        = dropRepeats (ns.filter (·.hasSpan start stop)))
    ∧ ((inDocumentOrder ns).Pairwise fun a b => b.AtOrAbove a → a.span = b.span)
    ∧ (OuterFirst (inDocumentOrder ns)
        ↔ ∀ start stop, OuterFirst (dropRepeats (ns.filter (·.hasSpan start stop))))
    ∧ ((∀ a ∈ ns, ∀ b ∈ ns, a.span = b.span → a = b) → OuterFirst (inDocumentOrder ns)) := by
  have hpath : ∀ a ∈ ns, ∀ b ∈ ns, a.id = b.id → a = b :=
    fun a ha b hb => (hin a ha).eq_of_id_eq (hin b hb)
  refine ⟨?_, filter_inDocumentOrder hpath, pairwise_span_inDocumentOrder hwf hin,
    outerFirst_inDocumentOrder_iff hwf hin, outerFirst_of_spans_differ hwf hin⟩
  intro n
  unfold inDocumentOrder
  rw [mem_dropRepeats_iff fun a ha b hb => hpath a (mem_sortBy.mp ha) b (mem_sortBy.mp hb)]
  exact mem_sortBy

/-- A document that is one number. -/
def numberTree : Tree :=
  .node { kind := "document", start := 0, stop := 1 }
    [.node { kind := "number", start := 0, stop := 1 } []]

/-- Document and number share their span; delivered inner node first, they stay so. -/
theorem document_order_by_span_inner_first :
    ¬ OuterFirst (inDocumentOrder
        [(Node.root numberTree).child 0 (.node { kind := "number", start := 0, stop := 1 } []),
          Node.root numberTree]) := by
  have hchild : (Node.root numberTree).child 0
      (.node { kind := "number", start := 0, stop := 1 } []) ∈ (Node.root numberTree).children :=
    List.mem_cons_self
  obtain ⟨-, -, -, hiff, -⟩ := document_order_by_span numberTree (by decide)
    [(Node.root numberTree).child 0 (.node { kind := "number", start := 0, stop := 1 } []),
      Node.root numberTree]
    (by
      intro n hn
      rcases List.mem_cons.mp hn with rfl | hn
      · exact Node.IsIn.root.of_mem_children hchild
      · exact List.mem_singleton.mp hn ▸ .root)
  intro h
  have hgroup := (List.pairwise_cons.mp (hiff.mp h 0 1)).1 (Node.root numberTree)
    (List.mem_singleton.mpr rfl)
  exact hgroup (.single hchild)

/-- A query that captures document and number in two clauses selects both of them twice. -/
theorem document_order_repeats :
    numberTree.WellFormed
    ∧ ∃ q ns,
        TreeQuery.compile .json
            "(document (number) @match) @match (document (number) @match) @match" = .ok q
        ∧ q.search (Text.ofString "1") (Node.root numberTree) = .ok ns
        ∧ ns.map (fun n => (n.kind, n.id))
            = [("document", []), ("number", [0]), ("document", []), ("number", [0])]
        ∧ ¬ OuterFirst ns := by
  have hrun : ((TreeQuery.compile .json
        "(document (number) @match) @match (document (number) @match) @match").toOption.bind
          fun q => (q.search (Text.ofString "1") (Node.root numberTree)).toOption).map
        (fun ns => ns.map fun n => (n.kind, n.id))
      = some [("document", []), ("number", [0]), ("document", []), ("number", [0])] := by
    decide +kernel
  obtain ⟨ns, hns, hmap⟩ := Option.map_eq_some_iff.mp hrun
  obtain ⟨q, hq, hsearch⟩ := Option.bind_eq_some_iff.mp hns
  have hq := mem_toList_toOption.mp (Option.mem_toList.mpr hq)
  have hsearch := mem_toList_toOption.mp (Option.mem_toList.mpr hsearch)
  refine ⟨by decide, q, ns, hq, hsearch, hmap, ?_⟩
  intro houter
  have hids := houter.nodup_id (TreeQuery.search_isIn .root hsearch)
  have hpaths := congrArg (List.map Prod.snd) hmap
  rw [List.map_map] at hpaths
  change ns.map Node.id = [[], [0], [], [0]] at hpaths
  rw [hpaths] at hids
  exact absurd hids (by decide)

end StructuralEdit
