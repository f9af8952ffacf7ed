/-
  StructuralEdit.Proofs.Document.Outermost
  ────────────────────────────────────────
  **OF NESTED NODES THE OUTERMOST WINS.**

  Nodes of one tree are listed, in any order and any of them more than once, and each
  is to be replaced by a text of its own.  Nested nodes are in each other's way.  What
  a commit makes of the list:

    • a span counts if no listed span contains it and ends later (`maximalSpans`);
    • such a span is replaced by the text of the FIRST node that is listed with it
      (`outermostEdits`);
    • everything else stays as it is.

  Only one shape has to be kept out of the list: two spans that start at different
  offsets and end at the same one, unless the later of them is empty.  There both
  would be replaced, the one inside the text of the other.
-/
import Mathlib.Data.List.Dedup
import StructuralEdit.Proofs.Rule.Runs
import StructuralEdit.Proofs.Splice.QueueOrder
import StructuralEdit.Proofs.Splice.Substitution
import StructuralEdit.Proofs.Tree.Spans

namespace StructuralEdit

/-! ## §1. The outermost spans of a list of nodes. -/

/-- Of some spans those that none of them contains with a strictly larger end, each
once. -/
def maximalSpans (spans : List (Nat × Nat)) : List (Nat × Nat) :=
  spans.dedup.filter fun s => spans.all fun r => !(r.1 ≤ s.1 && s.2 < r.2)

/-- The text of the first node that is listed with this span. -/
def firstText (listed : List (Node × Text)) (span : Nat × Nat) : Text :=
  ((listed.find? fun x => x.1.span == span).map Prod.snd).getD []

/-- Each maximal span replaced by the text of the first node that is listed with it, in
reading order. -/
def outermostEdits (listed : List (Node × Text)) : List Edit :=
  inReadingOrder ((maximalSpans (listed.map fun x => x.1.span)).map
    fun s => ⟨s.1, s.2, firstText listed s⟩)

theorem mem_maximalSpans_iff {spans : List (Nat × Nat)} {s : Nat × Nat} :
    s ∈ maximalSpans spans ↔ s ∈ spans ∧ ∀ r ∈ spans, r.1 ≤ s.1 → r.2 ≤ s.2 := by
  unfold maximalSpans
  rw [List.mem_filter, List.mem_dedup, List.all_eq_true]
  refine and_congr_right fun _ => forall_congr' fun r => forall_congr' fun _ => ?_
  simp only [Bool.not_eq_true', Bool.and_eq_false_iff, decide_eq_false_iff_not]
  omega

theorem nodup_maximalSpans (spans : List (Nat × Nat)) : (maximalSpans spans).Nodup :=
  (List.nodup_dedup spans).filter _

/-! ## §2. The queue for a list of nodes. -/

/-- The edit that puts the text in place of the node. -/
def replacement (x : Node × Text) : Edit :=
  ⟨x.1.start, x.1.stop, x.2⟩

/-- Asked for the nodes one after the other, the callback gives these texts. -/
def Callback.Answers {σ : Type} (callback : Callback σ) : σ → List (Node × Text) → Prop
  | _, [] => True
  | state, x :: rest =>
      (callback state x.1).1 = .ok (some x.2) ∧ callback.Answers (callback state x.1).2 rest

/-- The edits of the listed nodes are queued: by replacing each of them by its text or,
where all texts are empty, by removing them. -/
inductive Document.Queues (d : Document) : List (Node × Text) → Document → Prop where
  | replace {σ : Type} (callback : Callback σ) (state : σ) {listed : List (Node × Text)}
      (sel : Selection .root) (hsel : sel.nodes = listed.map Prod.fst)
      (hanswers : callback.Answers state listed) :
      Queues d listed (d.schedule sel .replace callback state).2.1
  | remove (sel : Selection .root) : Queues d (sel.nodes.map fun n => (n, [])) (d.remove sel)

theorem queue_scheduleNodes_replace {σ : Type} {callback : Callback σ} {state : σ}
    {listed : List (Node × Text)} (h : callback.Answers state listed) (queue : List Edit) :
    (scheduleNodes .replace callback (listed.map Prod.fst) queue state).queue
      = queue ++ listed.map replacement := by
  induction listed generalizing queue state with
  | nil =>
      show queue = queue ++ []
      rw [List.append_nil]
  | cons x listed ih =>
      obtain ⟨hanswer, hrest⟩ := h
      rw [List.map_cons, scheduleNodes]
      generalize callback state x.1 = answer at hanswer hrest
      obtain ⟨outcome, state'⟩ := answer
      obtain rfl : outcome = .ok (some x.2) := hanswer
      show (scheduleNodes .replace callback (listed.map Prod.fst)
        (queue ++ [replacement x]) state').queue = _
      rw [ih hrest]
      simp

/-- **Queuing changes the queue alone, and adds one edit for each listed node.** -/
theorem Document.Queues.eq {d queued : Document} {listed : List (Node × Text)}
    (h : d.Queues listed queued) :
    queued = { d with queue := d.queue ++ listed.map replacement } := by
  cases h with
  | replace callback state sel hsel hanswers =>
      show { d with queue := (scheduleNodes .replace callback sel.nodes d.queue state).queue } = _
      rw [hsel, queue_scheduleNodes_replace hanswers]
  | remove sel =>
      have hedits : (sel.nodes.filterMap fun n => Intent.remove.edit? n none)
          = (sel.nodes.map fun n => ((n, []) : Node × Text)).map replacement := by
        rw [List.map_map, ← List.filterMap_eq_map]
        rfl
      show { d with queue := d.queue ++ _ } = _
      rw [hedits]

/-! ## §3. What the queue comes to. -/

section

variable {t : Text} {tree : Tree} {listed : List (Node × Text)}

theorem fits_replacement (hfits : tree.Fits t) (hin : ∀ x ∈ listed, x.1.IsIn tree)
    (hutf8 : ∀ x ∈ listed, x.2.IsUtf8) : ∀ e ∈ listed.map replacement, e.Fits t := by
  intro e he
  obtain ⟨x, hx, rfl⟩ := List.mem_map.mp he
  obtain ⟨hordered, hinside, hstart, hstop⟩ :=
    hfits x.1 (Node.mem_subtree_root_iff.mpr (hin x hx))
  exact ⟨hordered, hinside, hstart, hstop, hutf8 x hx⟩

/-- The first edit of a range is that of the first node with the span. -/
theorem firstAt_replacement (pos stop : Nat) :
    firstAt (listed.map replacement) pos stop
      = (listed.find? fun x => x.1.span == (pos, stop)).map replacement := by
  unfold firstAt
  rw [List.find?_map]
  rfl

/-- **The applied edits are those of the maximal spans.** -/
theorem mem_appliedEdits_replacement_iff {e : Edit} :
    e ∈ appliedEdits t (listed.map replacement) ↔
      ∃ s ∈ maximalSpans (listed.map fun x => x.1.span), ⟨s.1, s.2, firstText listed s⟩ = e := by
  rw [mem_appliedEdits_iff, firstAt_replacement]
  constructor
  · intro h
    obtain ⟨hfirst, hlast⟩ := h
    obtain ⟨x, hx, rfl⟩ := Option.map_eq_some_iff.mp hfirst
    refine ⟨x.1.span, mem_maximalSpans_iff.mpr ⟨?_, ?_⟩, ?_⟩
    · exact List.mem_map_of_mem (List.mem_of_find?_eq_some hx)
    · intro r hr
      obtain ⟨y, hy, rfl⟩ := List.mem_map.mp hr
      exact hlast (replacement y) (List.mem_map_of_mem hy)
    · have htext : firstText listed x.1.span = x.2 := by
        unfold firstText
        rw [show (listed.find? fun y => y.1.span == x.1.span) = some x from hx]
        rfl
      rw [htext]
      rfl
  · intro h
    obtain ⟨s, hs, rfl⟩ := h
    obtain ⟨hlisted, hlast⟩ := mem_maximalSpans_iff.mp hs
    constructor
    · -- some node has the span, so there is a first one, and its text is the one taken
      obtain ⟨y, hy, hys⟩ := List.mem_map.mp hlisted
      have hsome : (listed.find? fun x => x.1.span == s).isSome := by
        rw [List.find?_isSome]
        exact ⟨y, hy, by simpa using hys⟩
      obtain ⟨x, hx⟩ := Option.isSome_iff_exists.mp hsome
      have hspan : x.1.span = s := by simpa using List.find?_some hx
      show (listed.find? fun x => x.1.span == s).map replacement = _
      unfold firstText
      rw [hx, ← hspan]
      rfl
    · intro k hk
      obtain ⟨y, hy, rfl⟩ := List.mem_map.mp hk
      exact hlast y.1.span (List.mem_map_of_mem (f := fun x : Node × Text => x.1.span) hy)

theorem appliedEdits_replacement_perm :
    (appliedEdits t (listed.map replacement)).Perm
      ((maximalSpans (listed.map fun x => x.1.span)).map
        fun s => ⟨s.1, s.2, firstText listed s⟩) := by
  refine (List.perm_ext_iff_of_nodup ?_ ?_).mpr fun e => ?_
  · -- no start occurs twice
    refine (pairwise_appliedEdits t _).imp fun {a b} hlt heq => ?_
    rw [heq] at hlt
    exact Nat.lt_irrefl _ hlt
  · refine (nodup_maximalSpans _).map fun r s heq => ?_
    obtain ⟨hpos, hstop, -⟩ := Edit.mk.inj heq
    exact Prod.ext hpos hstop
  · rw [mem_appliedEdits_replacement_iff, List.mem_map]

/-- **No two applied edits overlap.**  Nodes are nested or apart, and of two nested ones
both are applied only if they end at the same offset. -/
theorem apart_appliedEdits (hwf : tree.WellFormed) (hin : ∀ x ∈ listed, x.1.IsIn tree)
    (hends : ∀ x ∈ listed, ∀ y ∈ listed, x.1.stop = y.1.stop → x.1.start < y.1.start →
      y.1.start = y.1.stop) :
    (appliedEdits t (listed.map replacement)).Pairwise Edit.Apart := by
  refine (pairwise_appliedEdits t _).imp_of_mem fun {a b} ha hb hlt => ?_
  obtain ⟨hfirst_a, hlast_a⟩ := mem_appliedEdits_iff.mp ha
  obtain ⟨hfirst_b, hlast_b⟩ := mem_appliedEdits_iff.mp hb
  have hmem_a : a ∈ listed.map replacement := List.mem_of_find?_eq_some hfirst_a
  have hmem_b : b ∈ listed.map replacement := List.mem_of_find?_eq_some hfirst_b
  obtain ⟨x, hx, rfl⟩ := List.mem_map.mp hmem_a
  obtain ⟨y, hy, rfl⟩ := List.mem_map.mp hmem_b
  unfold Edit.Apart
  show x.1.stop ≤ y.1.start ∨ y.1.stop ≤ x.1.start
  have hstarts : y.1.start < x.1.start := hlt
  rcases hwf.nested_or_apart (hin x hx) (hin y hy) with hxy | hyx | hleft | hright
  · -- the later start cannot belong to the outer node
    have := (hwf.inside (hin x hx) hxy).1
    omega
  · have hinner : x.1.stop ≤ y.1.stop := (hwf.inside (hin y hy) hyx).2
    have hlast : y.1.stop ≤ x.1.stop := hlast_a _ hmem_b (Nat.le_of_lt hstarts)
    have hempty := hends y hy x hx (by omega) hstarts
    omega
  · exact Or.inl hleft
  · exact Or.inr hright

end

/-! ## §4. Outermost wins. -/

/-- With a queue that fits the text and a parser that does not fail, a commit does what
the splice says. -/
theorem Document.commitWithTally_of_checks {d : Document}
    (hcheck : ∀ e ∈ d.queue, e.check d.text = .ok ())
    (hparse : ∀ changes t, d.parser.reparse d.lang d.tree changes t ≠ none) :
    ∃ final, d.commitWithTally = (.ok (spliceValid d.text d.queue).tally, final)
      ∧ final.text = (spliceValid d.text d.queue).text := by
  have hs := splice_eq_ok hcheck
  by_cases hq : d.queue = []
  · rw [commitWithTally_of_empty hq, hq]
    exact ⟨d, rfl, rfl⟩
  · obtain ⟨tree, htree⟩ := Option.ne_none_iff_exists'.mp
      (hparse (spliceValid d.text d.queue).changes (spliceValid d.text d.queue).text)
    exact ⟨_, commitWithTally_of_parsed hq hs htree, rfl⟩

/-- **OF NESTED NODES THE OUTERMOST WINS.**  Nodes of a well-formed tree are listed, each
with a text, and no two of them start at different offsets and end at the same one,
unless the later one is empty.  Their edits are queued, and the queue is committed.
Then

  (1) the commit succeeds, and in the text exactly the maximal spans are replaced, each
      by the text of the first node that is listed with it;
  (2) these spans follow one another, so all bytes outside them stay, in order;
  (3) no edit reaches into text that has been replaced;
  (4) there are as many applied edits as maximal spans, and the others are dropped. -/
theorem outermost_wins (d queued : Document) (listed : List (Node × Text))
    (hempty : d.queue = []) (htext : d.text.IsUtf8)
    (hwf : d.tree.WellFormed) (hfits : d.tree.Fits d.text)
    (hparse : ∀ changes t, d.parser.reparse d.lang d.tree changes t ≠ none)
    (hin : ∀ x ∈ listed, x.1.IsIn d.tree) (hutf8 : ∀ x ∈ listed, x.2.IsUtf8)
    (hends : ∀ x ∈ listed, ∀ y ∈ listed, x.1.stop = y.1.stop → x.1.start < y.1.start →
      y.1.start = y.1.stop)
    (hqueued : d.Queues listed queued) :
    ∃ r final, splice d.text queued.queue = .ok r
      ∧ queued.commitWithTally = (.ok r.tally, final)
      ∧ final.text = substitute d.text (outermostEdits listed)
      ∧ ((outermostEdits listed).Pairwise fun a b => a.pos < b.pos ∧ a.stop ≤ b.pos)
      ∧ Notice.overlapped ∉ r.notices
      ∧ r.tally.applied = (maximalSpans (listed.map fun x => x.1.span)).length
      ∧ r.tally.applied + r.tally.dropped = listed.length := by
  have hfit := fits_replacement hfits hin hutf8
  have hapart := apart_appliedEdits (t := d.text) hwf hin hends
  have hfall := pairwise_appliedEdits d.text (listed.map replacement)
  have hperm : (appliedEdits d.text (listed.map replacement)).Perm _ :=
    appliedEdits_replacement_perm
  have hrec : Receding (appliedEdits d.text (listed.map replacement)) :=
    (pairwise_apart_iff_receding
      (fun e he => (fits_of_mem_appliedEdits hfit e he).ordered) hfall).mp hapart
  -- the applied edits in reading order are those of the maximal spans
  have hreading : inReadingOrder (appliedEdits d.text (listed.map replacement))
      = outermostEdits listed :=
    inReadingOrder_eq_of_perm hperm (hfall.imp fun hlt => (Nat.ne_of_lt hlt).symm)
  obtain rfl := hqueued.eq
  rw [hempty, List.nil_append]
  have hcheck : ∀ e ∈ listed.map replacement, e.check d.text = .ok () :=
    fun e he => (hfit e he).check
  obtain ⟨final, hcommit, hfinal⟩ := Document.commitWithTally_of_checks
    (d := { d with queue := listed.map replacement }) hcheck hparse
  refine ⟨_, final, splice_eq_ok hcheck, hcommit, ?_, ?_, ?_, ?_, ?_⟩
  · rw [hfinal, ← hreading]
    exact text_spliceValid_of_apart htext hfit hapart
  · rw [← hreading, inReadingOrder_of_falling hfall, List.pairwise_reverse]
    exact hfall.and hrec
  · rw [overlapped_mem_spliceValid_iff, not_not]
    exact hrec
  · rw [tally_spliceValid]
    show (appliedQueue d.text (listed.map replacement)).length = _
    have hlength := hperm.length_eq
    unfold appliedEdits at hlength
    rwa [List.length_map, List.length_map] at hlength
  · rw [tally_spliceValid]
    exact (length_appliedQueue_add d.text _).trans (List.length_map _)

/-- The tree of the call `é(x)`, before whose semicolon a node without text stands. -/
def callTree : Tree :=
  .node { kind := "program", start := 0, stop := 6 }
    [ .node { kind := "call", start := 0, stop := 5 }
        [ .node { kind := "name", start := 0, stop := 2 } [],
          .node { kind := "arguments", start := 2, stop := 5 }
            [.node { kind := "name", start := 3, stop := 4 } []] ],
      .node { kind := "comment", start := 5, stop := 5, isMissing := true } [],
      .node { kind := ";", start := 5, stop := 6, named := false } [] ]

/-- The call, parsed. -/
def callDocument : Document :=
  { parser := .afresh fun _ _ => some callTree
    lang := .javaScript
    text := Text.ofString "é(x);"
    tree := callTree }

/-- The node number `i` of the call, in pre-order. -/
def callNode (i : Nat) : Node :=
  (Node.root callTree).subtree.getD i (Node.root callTree)

theorem callNode_isIn (i : Nat) : (callNode i).IsIn callTree := by
  unfold callNode
  rw [List.getD_eq_getElem?_getD]
  cases h : (Node.root callTree).subtree[i]? with
  | none => exact .root
  | some n => exact Node.mem_subtree_root_iff.mp (List.mem_of_getElem? h)

/-- The argument, the arguments twice, the name and the node without text are replaced:
the argument gives way to the arguments, their second text to their first, and the node
without text, which ends where they end, is no obstacle. -/
theorem outermost_wins_nested :
    ∃ queued r final,
      callDocument.Queues
          [ (callNode 4, Text.ofString "y"), (callNode 3, Text.ofString "()"),
            (callNode 2, Text.ofString "g"), (callNode 3, Text.ofString "[]"),
            (callNode 5, Text.ofString "!") ] queued
        ∧ queued.commitWithTally = (.ok r, final)
        ∧ final.text = Text.ofString "g()!;"
        ∧ r = { applied := 3, dropped := 2 } := by
  let texts : List Text :=
    [Text.ofString "y", Text.ofString "()", Text.ofString "g", Text.ofString "[]",
      Text.ofString "!"]
  let nodes : List Node := [callNode 4, callNode 3, callNode 2, callNode 3, callNode 5]
  -- the callback has the texts still to be given for a state
  have hqueued : callDocument.Queues (nodes.zip texts) _ :=
    .replace (fun (left : List Text) _ => (.ok left.head?, left.tail)) texts (.many nodes) rfl
      ⟨rfl, rfl, rfl, rfl, rfl, trivial⟩
  obtain ⟨r, final, -, hcommit, htext, -, -, happlied, htotal⟩ :=
    outermost_wins callDocument _ (nodes.zip texts) rfl ⟨"é(x);", rfl⟩ (by decide)
      (by unfold Tree.Fits; decide) (fun _ _ => Option.some_ne_none _)
      (by
        intro x hx
        obtain ⟨i, hi⟩ : ∃ i, x.1 = callNode i := by
          have hnode : x.1 ∈ nodes := (List.of_mem_zip hx).1
          simp only [nodes, List.mem_cons, List.not_mem_nil, or_false] at hnode
          rcases hnode with h | h | h | h | h <;> exact ⟨_, h⟩
        rw [hi]
        exact callNode_isIn i)
      (by
        intro x hx
        have htext : x.2 ∈ texts := (List.of_mem_zip hx).2
        simp only [texts, List.mem_cons, List.not_mem_nil, or_false] at htext
        rcases htext with h | h | h | h | h <;> rw [h] <;> exact ⟨_, rfl⟩)
      (by decide) hqueued
  have hthree : r.tally.applied = 3 := happlied.trans (by decide)
  have htwo : r.tally.dropped = 2 := by
    have hfive : r.tally.applied + r.tally.dropped = 5 := htotal
    omega
  refine ⟨_, r.tally, final, hqueued, hcommit, htext.trans (by decide), ?_⟩
  rw [← hthree, ← htwo]

end StructuralEdit
