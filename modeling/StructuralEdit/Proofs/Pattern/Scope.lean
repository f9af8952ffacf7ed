/-
  StructuralEdit.Proofs.Pattern.Scope
  ───────────────────────────────────
  **WHAT A PATTERN FINDS INSIDE A NODE.**

  A search goes from the scope to another tree and back, and all it takes along is a
  span and a kind:

      scope   ── enclosing ──▶   the node to start at   ── listing ──▶   matches
      matches ── locate    ──▶   nodes of the scope     ── sort    ──▶   the answer

  If span and kind tell the nodes of the tree apart, and all that matches has a byte,
  no step loses its way.  The way down cannot take a wrong turn, since of the children
  only one has room for a byte (`find?_children`); the way back leads to a node that has
  the span and the kind, and there is only one (`locate_eq`); and what comes back is in
  order already.

  So the answer is the listing of the scope, filtered (`Pattern.search_eq_filter`), and
  the listing of a node is that of the whole tree, filtered by what the node contains
  (`filter_contains_subtree`).
-/
import Mathlib.Data.List.Basic
import StructuralEdit.Proofs.Document.Session
import StructuralEdit.Proofs.Pattern.Locate
import StructuralEdit.Proofs.Query.DocumentOrder

namespace StructuralEdit

/-! ## §1. Span and kind tell the nodes apart. -/

/-- No two nodes of the tree have both span and kind in common. -/
def Tree.Unambiguous (t : Tree) : Prop :=
  (Node.root t).subtree.Pairwise fun a b => a.resembles b.label = false

instance (t : Tree) : Decidable t.Unambiguous :=
  inferInstanceAs (Decidable ((Node.root t).subtree.Pairwise _))

theorem Node.resembles_iff {n m : Node} :
    n.resembles m.label = true ↔ n.start = m.start ∧ n.stop = m.stop ∧ n.kind = m.kind := by
  unfold resembles
  rw [Bool.and_eq_true, Bool.and_eq_true, beq_iff_eq, beq_iff_eq, beq_iff_eq, and_assoc]
  rfl

theorem Tree.Unambiguous.eq_of_resembles {t : Tree} {n m : Node} (h : t.Unambiguous)
    (hn : n.IsIn t) (hm : m.IsIn t) (hnm : n.resembles m.label = true) : n = m := by
  have hall : ∀ a ∈ (Node.root t).subtree, ∀ b ∈ (Node.root t).subtree,
      a.resembles b.label = true → a = b := by
    refine List.Pairwise.forall_of_forall_of_flip (fun _ _ _ => rfl) ?_ ?_
    · exact h.imp fun hab hres => absurd hres (by rw [hab]; exact Bool.false_ne_true)
    · refine h.imp fun {a b} hab hres => ?_
      -- resembling goes both ways
      have hflip : a.resembles b.label = true := by
        rw [Node.resembles_iff] at hres ⊢
        exact ⟨hres.1.symm, hres.2.1.symm, hres.2.2.symm⟩
      exact absurd hflip (by rw [hab]; exact Bool.false_ne_true)
  exact hall n (Node.mem_subtree_root_iff.mpr hn) m (Node.mem_subtree_root_iff.mpr hm) hnm

section

variable {t : Tree} {n m scope : Node}

/-! ## §2. The way down. -/

/-- From any node above it, span and kind lead to the node. -/
theorem enclosing_eq_of_atOrAbove (hwf : t.WellFormed) (hua : t.Unambiguous)
    (hbyte : m.start < m.stop) (hnm : n.AtOrAbove m) (hn : n.IsIn t) :
    n.enclosing m.label = m := by
  have hm : m.IsIn t := hn.of_atOrAbove hnm
  induction hnm using Relation.ReflTransGen.head_induction_on with
  | refl =>
      rw [Node.enclosing_eq, if_pos (Node.resembles_iff.mpr ⟨rfl, rfl, rfl⟩)]
  | @head n c hc hcm ih =>
      rw [Node.enclosing_eq]
      by_cases hres : n.resembles m.label
      · rw [if_pos hres]
        exact hua.eq_of_resembles hn hm hres
      · have hinside := hwf.inside (hn.of_mem_children hc) hcm
        have hfind : n.children.find? (Node.surrounds m.label) = some c := by
          apply find?_children hwf hn hc hbyte hinside.1
          · unfold Node.surrounds
            rw [Bool.and_eq_true, decide_eq_true_eq, decide_eq_true_eq]
            exact hinside
          · intro b hb
            unfold Node.surrounds at hb
            rw [Bool.and_eq_true, decide_eq_true_eq, decide_eq_true_eq] at hb
            exact hb.2
        rw [if_neg hres, hfind, Option.map_some, Option.getD_some]
        exact ih (hn.of_mem_children hc)

/-- The root is found whatever its span. -/
theorem enclosing_root (hwf : t.WellFormed) (hua : t.Unambiguous) (hscope : scope.IsIn t)
    (hbyte : scope = Node.root t ∨ scope.start < scope.stop) :
    (Node.root t).enclosing scope.label = scope := by
  rcases hbyte with rfl | hbyte
  · rw [Node.enclosing_eq, if_pos (Node.resembles_iff.mpr ⟨rfl, rfl, rfl⟩)]
  · exact enclosing_eq_of_atOrAbove hwf hua hbyte (Node.isIn_iff_atOrAbove.mp hscope) .root

/-! ## §3. The way back. -/

/-- **Span and kind locate a node that has a byte.** -/
theorem locate_eq (hwf : t.WellFormed) (hua : t.Unambiguous) (hscope : scope.IsIn t)
    (hsm : scope.AtOrAbove m) (hbyte : m.start < m.stop) :
    scope.locate m.start m.stop m.kind = some m := by
  -- what is located has the span and the kind, and no other node has
  obtain ⟨n, hn, ⟨⟨hsn, hstart, hstop⟩, hkind⟩, -⟩ :=
    exists_locate_kind hwf hscope hbyte ⟨hsm, rfl, rfl⟩ rfl
  rw [hn, hua.eq_of_resembles (hscope.of_atOrAbove hsn) (hscope.of_atOrAbove hsm)
    (Node.resembles_iff.mpr ⟨hstart, hstop, hkind⟩)]

/-! ## §4. The search. -/

/-- **A search gives the listing of the scope, filtered.** -/
theorem Pattern.search_eq_filter {p : Pattern} {text : Text} (hwf : t.WellFormed)
    (hua : t.Unambiguous) (hscope : scope.IsIn t)
    (hbyte : scope = Node.root t ∨ scope.start < scope.stop)
    (hmatch : ∀ n : Node, n.IsIn t → p.accepts text n.tree = true → n.start < n.stop) :
    p.search text (Node.root t) scope = scope.subtree.filter fun n => p.accepts text n.tree := by
  unfold Pattern.search Pattern.findAll
  rw [enclosing_root hwf hua hscope hbyte]
  -- nothing that matches lies outside the scope, and each match is found again
  have hmem : ∀ m ∈ scope.subtree.filter fun n => p.accepts text n.tree,
      scope.AtOrAbove m ∧ m.start < m.stop := by
    intro m hm
    obtain ⟨hm, hacc⟩ := List.mem_filter.mp hm
    have hsm := Node.mem_subtree_iff.mp hm
    exact ⟨hsm, hmatch m (hscope.of_atOrAbove hsm) hacc⟩
  have hinside : (scope.subtree.filter fun n => p.accepts text n.tree).filter
        (fun m => scope.start ≤ m.start && m.stop ≤ scope.stop)
      = scope.subtree.filter fun n => p.accepts text n.tree := by
    rw [List.filter_eq_self]
    intro m hm
    rw [Bool.and_eq_true, decide_eq_true_eq, decide_eq_true_eq]
    exact hwf.inside hscope (hmem m hm).1
  have hback : (scope.subtree.filter fun n => p.accepts text n.tree).filterMap
        (fun m => scope.locate m.start m.stop m.kind)
      = scope.subtree.filter fun n => p.accepts text n.tree := by
    rw [List.filterMap_congr fun m hm => locate_eq hwf hua hscope (hmem m hm).1 (hmem m hm).2,
      List.filterMap_some]
  show inDocumentOrder (((scope.subtree.filter _).filter _).filterMap _) = _
  rw [hinside, hback]
  apply inDocumentOrder_eq_self
  · apply hwf.pairwise_precedes hscope
    intro m hm hacc
    exact hmatch m (hscope.of_atOrAbove (Node.mem_subtree_iff.mp hm)) hacc
  · exact (Node.pairwise_id_subtree scope).filter _

/-! ## §5. The part of a listing that a node contains. -/

theorem nodup_subtree (n : Node) : n.subtree.Nodup :=
  (Node.pairwise_id_subtree n).imp fun hne heq => hne (congrArg Node.id heq)

theorem subtree_sublist (h : n.AtOrAbove m) : m.subtree.Sublist n.subtree := by
  induction h using Relation.ReflTransGen.head_induction_on with
  | refl => exact List.Sublist.refl _
  | @head n c hc hcm ih =>
      rw [n.subtree_eq, List.flatMap_def]
      exact (ih.trans (List.sublist_flatten_of_mem (List.mem_map_of_mem hc))).cons n

/-- **The listing of a node is what the node contains of the listing of the tree.** -/
theorem filter_contains_subtree (hscope : scope.IsIn t) :
    (Node.root t).subtree.filter scope.contains = scope.subtree := by
  have hmem : ∀ m, m ∈ (Node.root t).subtree.filter scope.contains ↔ m ∈ scope.subtree := by
    intro m
    rw [List.mem_filter, Node.mem_subtree_root_iff, Node.mem_subtree_iff]
    constructor
    · intro ⟨hm, hcontains⟩
      exact (hscope.contains_iff hm).mp hcontains
    · intro hsm
      have hm := hscope.of_atOrAbove hsm
      exact ⟨hm, (hscope.contains_iff hm).mpr hsm⟩
  have hsub : scope.subtree.Sublist ((Node.root t).subtree.filter scope.contains) := by
    have hfilter := (subtree_sublist (Node.isIn_iff_atOrAbove.mp hscope)).filter scope.contains
    rwa [List.filter_eq_self.mpr fun m hm => (List.mem_filter.mp ((hmem m).mpr hm)).2] at hfilter
  -- the shorter list misses none of the members, and none comes twice
  have hperm : ((Node.root t).subtree.filter scope.contains).Perm scope.subtree :=
    (List.perm_ext_iff_of_nodup ((nodup_subtree _).filter _) (nodup_subtree _)).mpr hmem
  exact (hsub.eq_of_length hperm.length_eq.symm).symm

end

/-! ## §6. Queries by pattern. -/

/-- A pattern search in a document whose view is of its own tree. -/
theorem Document.search_pattern_eq {d : Document} {scope : Node} {source : String}
    (hwf : d.tree.WellFormed) (hua : d.tree.Unambiguous) (hview : d.viewed = ⟨d.text, d.tree⟩)
    (hscope : scope.IsIn d.tree) (hbyte : scope = d.root ∨ scope.start < scope.stop)
    {p : Pattern} (hp : Pattern.compile d.parser d.lang source = .ok p)
    (hmatch : ∀ n : Node, n.IsIn d.tree → p.accepts d.text n.tree = true → n.start < n.stop) :
    d.search scope (.pattern source)
      = .ok (scope.subtree.filter fun n => p.accepts d.text n.tree) := by
  rw [Document.search, hp, hview]
  show Except.ok (p.search d.text (Node.root d.tree) scope) = _
  rw [Pattern.search_eq_filter hwf hua hscope hbyte hmatch]

/-- **A PATTERN FINDS WHAT MATCHES INSIDE THE SCOPE, AND NOTHING ELSE.**  The tree is
well-formed, span and kind tell its nodes apart, pattern searches see this very tree, and
what matches has a byte; the scope is the root or has a byte.

  (1) A pattern that cannot be compiled is reported, and nothing is searched.
  (2) Any other gives the listing of the scope, filtered by the pattern: exactly the nodes
      at the scope or below it that match.
  (3) Each of them comes once.
  (4) They come in pre-order: a later one stands below an earlier one, or to the right.
  (5) Asked inside the scope, the query answers what it answers for the whole document,
      restricted to what the scope contains. -/
theorem pattern_query_exact (d : Document) (scope : Node) (source : String)
    (hwf : d.tree.WellFormed) (hua : d.tree.Unambiguous) (hview : d.viewed = ⟨d.text, d.tree⟩)
    (hscope : scope.IsIn d.tree) (hbyte : scope = d.root ∨ scope.start < scope.stop)
    (hmatch : ∀ p, Pattern.compile d.parser d.lang source = .ok p →
      ∀ n : Node, n.IsIn d.tree → p.accepts d.text n.tree = true → n.start < n.stop) :
    (∀ e, Pattern.compile d.parser d.lang source = .error e →
      (d.queryInside scope (.pattern source)).1 = .error (.pattern e)
      ∧ (d.query (.pattern source)).1 = .error (.pattern e))
    ∧ ∀ p, Pattern.compile d.parser d.lang source = .ok p →
      ∃ found, d.search scope (.pattern source) = .ok found
        ∧ found = scope.subtree.filter (fun n => p.accepts d.text n.tree)
        ∧ (∀ n, n ∈ found ↔ scope.AtOrAbove n ∧ p.accepts d.text n.tree = true)
        ∧ (found.map Node.id).Nodup
        ∧ (found.Pairwise fun a b => a.AtOrAbove b ∨ a.stop ≤ b.start)
        ∧ ∃ all, (d.query (.pattern source)).1 = .ok (.many all)
          ∧ (d.queryInside scope (.pattern source)).1 = .ok (.many (all.filter scope.contains)) := by
  constructor
  · intro e he
    have hsearch : ∀ n, d.search n (.pattern source) = .error (.pattern e) := by
      intro n
      rw [Document.search, he]
      rfl
    unfold Document.queryInside Document.query
    rw [hsearch, hsearch]
    exact ⟨rfl, rfl⟩
  · intro p hp
    have hinside := Document.search_pattern_eq hwf hua hview hscope hbyte hp (hmatch p hp)
    have hall := Document.search_pattern_eq hwf hua hview .root (Or.inl rfl) hp (hmatch p hp)
    refine ⟨_, hinside, rfl, ?_, ?_, (hwf.pairwise_subtree hscope).filter _, ?_⟩
    · intro n
      rw [List.mem_filter, Node.mem_subtree_iff]
    · rw [List.nodup_iff_pairwise_ne, List.pairwise_map]
      exact (Node.pairwise_id_subtree scope).filter _
    · refine ⟨(Node.root d.tree).subtree.filter fun n => p.accepts d.text n.tree, ?_, ?_⟩
      · unfold Document.query Document.root
        rw [hall]
        rfl
      · unfold Document.queryInside
        rw [hinside, List.filter_filter, ← filter_contains_subtree hscope, List.filter_filter]
        simp only [Bool.and_comm]
        rfl

/-- Two statements, each a name with a semicolon behind it. -/
def statementsTree : Tree :=
  .node { kind := "source_file", start := 0, stop := 4 }
    [ .node { kind := "expression_statement", start := 0, stop := 2 }
        [ .node { kind := "identifier", start := 0, stop := 1 } [],
          .node { kind := ";", start := 1, stop := 2, named := false } [] ],
      .node { kind := "expression_statement", start := 2, stop := 4 }
        [ .node { kind := "identifier", start := 2, stop := 3 } [],
          .node { kind := ";", start := 3, stop := 4, named := false } [] ] ]

/-- The text `a;a;`, parsed. -/
def statementsDocument : Document :=
  { parser := .afresh fun _ t => some (if t = [97, 59, 97, 59] then statementsTree else oneName t)
    lang := .rust
    text := [97, 59, 97, 59]
    tree := statementsTree }

/-- The second statement. -/
def statementNode : Node :=
  (Node.root statementsTree).child 1
    (.node { kind := "expression_statement", start := 2, stop := 4 }
      [ .node { kind := "identifier", start := 2, stop := 3 } [],
        .node { kind := ";", start := 3, stop := 4, named := false } [] ])

/-- The name is there twice, and once in the second statement. -/
theorem pattern_query_exact_second_statement :
    ∃ all, (statementsDocument.query (.pattern "a")).1 = .ok (.many all)
      ∧ (statementsDocument.queryInside statementNode (.pattern "a")).1
          = .ok (.many (all.filter statementNode.contains))
      ∧ all.map Node.span = [(0, 1), (2, 3)]
      ∧ (all.filter statementNode.contains).map Node.span = [(2, 3)] := by
  have hp : Pattern.compile statementsDocument.parser statementsDocument.lang "a"
      = .ok (.leaf "identifier" true [97]) := rfl
  have hmatch : ∀ n ∈ (Node.root statementsTree).subtree,
      Pattern.accepts (.leaf "identifier" true [97]) statementsDocument.text n.tree = true →
        n.start < n.stop := by decide
  obtain ⟨-, hfound⟩ := pattern_query_exact statementsDocument statementNode "a"
    (by decide) (by decide) rfl (Node.IsIn.root.child rfl) (Or.inr (by decide))
    (by
      intro p hcompile n hn hacc
      rw [hp] at hcompile
      cases hcompile
      exact hmatch n (Node.mem_subtree_root_iff.mpr hn) hacc)
  obtain ⟨_, -, -, -, -, -, all, hall, hinside⟩ := hfound _ hp
  have hspans : (statementsDocument.query (.pattern "a")).1.map
      (fun sel => (sel.nodes.map Node.span,
        (sel.nodes.filter statementNode.contains).map Node.span))
      = .ok ([(0, 1), (2, 3)], [(2, 3)]) := rfl
  rw [hall] at hspans
  obtain ⟨hspans, hkept⟩ := Prod.mk.inj (Except.ok.inj hspans)
  exact ⟨all, hall, hinside, hspans, hkept⟩

end StructuralEdit
