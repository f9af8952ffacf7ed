/-
  StructuralEdit.Proofs.Rule.SharedAncestors
  ──────────────────────────────────────────
  **AN ANCESTOR THAT SEVERAL NODES SHARE IS EDITED ONCE.**

  A rule that climbs comes to one ancestor for each node it has found, so a node with
  several of them below it is among its targets several times, and an edit is queued for
  it each time.  Nothing comes of the copies, for two reasons:

      the text of an edit      depends on the node alone: all that happens to the document
                               while a rule queues its edits is that the view is made,
                               and what is seen in it stays the same (`render_of_seen`)
      the commit               goes by the first edit of each range

  So for each range the first edit is the same with the copies and without them
  (`find?_distinct`), and queues that agree on this commit alike.
-/
import Mathlib.Data.List.Find
import StructuralEdit.Proofs.Rule.Checked
import StructuralEdit.Proofs.Selection.Ancestors
import StructuralEdit.Proofs.Splice.QueueOrder

namespace StructuralEdit

/-! ## §1. First occurrences. -/

namespace Node

/-- Of each node its first occurrence, in order. -/
def distinct : List Node → List Node
  | [] => []
  | n :: ns => n :: (distinct ns).filter (·.id != n.id)

theorem mem_of_mem_distinct {ns : List Node} {n : Node} (h : n ∈ distinct ns) : n ∈ ns := by
  induction ns with
  | nil => cases h
  | cons m ns ih =>
      rcases List.mem_cons.mp h with rfl | h
      · exact List.mem_cons_self
      · exact List.mem_cons_of_mem m (ih (List.mem_filter.mp h).1)

/-- **What is found first is found among the first occurrences.** -/
theorem find?_distinct {ns : List Node} (hid : ∀ a ∈ ns, ∀ b ∈ ns, a.id = b.id → a = b)
    (p : Node → Bool) : (distinct ns).find? p = ns.find? p := by
  induction ns with
  | nil => rfl
  | cons n ns ih =>
      have hrest := ih fun a ha b hb =>
        hid a (List.mem_cons_of_mem n ha) b (List.mem_cons_of_mem n hb)
      rw [distinct, List.find?_cons, List.find?_cons]
      cases hn : p n with
      | true => rfl
      | false =>
          -- what is left out are copies of `n`, and `n` is not what is looked for
          dsimp only
          rw [List.find?_filter, ← hrest]
          apply List.find?_congr
          intro m hm
          by_cases heq : m.id = n.id
          · have hsame := hid m (List.mem_cons_of_mem n (mem_of_mem_distinct hm)) n
              List.mem_cons_self heq
            simp [hsame, hn]
          · simp [heq]

end Node

theorem sameFirstTexts_distinct {ns : List Node}
    (hid : ∀ a ∈ ns, ∀ b ∈ ns, a.id = b.id → a = b) (edit? : Node → Option Edit) :
    SameFirstTexts (ns.filterMap edit?) ((Node.distinct ns).filterMap edit?) := by
  intro pos stop
  unfold firstAt
  rw [List.find?_filterMap, List.find?_filterMap, Node.find?_distinct hid]

theorem SameFirstTexts.eq_nil {xs ys : List Edit} (h : SameFirstTexts xs ys) (hx : xs = []) :
    ys = [] := by
  refine List.eq_nil_iff_forall_not_mem.mpr fun e he => ?_
  obtain ⟨k, hk⟩ := exists_firstAt he
  rw [← h.firstAt_eq, hx] at hk
  cases hk

/-! ## §2. The text for a node depends on the node alone. -/

theorem Document.Seen.consulted_pattern {d d' : Document} (h : d.Seen d') (source : String) :
    d'.consulted (.pattern source) = d.consulted (.pattern source) := by
  rcases h with rfl | rfl <;> rfl

namespace Rule

variable {r : Rule} {d d' : Document} {template : String}

theorem bindAll_of_seen (h : d.Seen d') (n : Node) (bindings : List (String × String))
    (t : Template) : (bindAll n bindings t d').1 = (bindAll n bindings t d).1 := by
  cases bindings with
  | nil => rfl
  | cons binding rest =>
      have hfound : (d'.queryInside n (.pattern binding.2)).1
          = (d.queryInside n (.pattern binding.2)).1 := by
        show _ <$> d'.search n _ = _ <$> d.search n _
        rw [h.search]
      cases hanswer : (d.queryInside n (.pattern binding.2)).1 with
      | error e => rw [bindAll_of_error (hfound.trans hanswer), bindAll_of_error hanswer]
      | ok found =>
          -- with the first pattern the view is made, and then the documents are the same
          rw [bindAll_of_ok (hfound.trans hanswer), bindAll_of_ok hanswer,
              h.consulted_pattern, h.frame.1]

theorem render_of_seen (h : d.Seen d') (n : Node) :
    (r.render template d' n).1 = (r.render template d n).1 := by
  rw [render_eq, render_eq, h.frame.1, bindAll_of_seen h]

/-- The edit that a rule has for a node, if it has one. -/
def edit? (r : Rule) (d : Document) (n : Node) : Option Edit :=
  match r.operation.template? with
  | none => r.operation.intent.edit? n none
  | some template => (r.render template d n).1.toOption.bind (r.operation.intent.edit? n)

end Rule

/-- Where the answers of a callback depend on the nodes alone, as long as its state has
property `P`, scheduling queues the edits that these answers make, and it fails only where
one of them is an error. -/
theorem scheduleNodes_of_steady_answers {σ : Type} {intent : Intent} {callback : Callback σ}
    {P : σ → Prop} (answer : Node → Except SelectionError Payload)
    (hP : ∀ state n, P state → P (callback state n).2)
    (hanswer : ∀ state n, P state → (callback state n).1 = answer n) (ns : List Node)
    (queue : List Edit) {state : σ} (hstate : P state) :
    ((scheduleNodes intent callback ns queue state).error = none
        ↔ ∀ n ∈ ns, ∃ payload, answer n = .ok payload)
      ∧ ((scheduleNodes intent callback ns queue state).error = none →
          (scheduleNodes intent callback ns queue state).queue
            = queue ++ ns.filterMap fun n => (answer n).toOption.bind (intent.edit? n)) := by
  induction ns generalizing queue state with
  | nil => simp [scheduleNodes]
  | cons n ns ih =>
      have hnext := hP state n hstate
      have hgiven := hanswer state n hstate
      rw [scheduleNodes]
      generalize callback state n = given at hnext hgiven
      obtain ⟨outcome, state'⟩ := given
      cases outcome with
      | error e =>
          have hfails : answer n = .error e := hgiven.symm
          simp [hfails]
      | ok payload =>
          have hpayload : answer n = .ok payload := hgiven.symm
          obtain ⟨hiff, hqueue⟩ := ih (queue ++ (intent.edit? n payload).toList) hnext
          refine ⟨by simpa [hpayload] using hiff, fun hnone => ?_⟩
          have hfirst : (answer n).toOption.bind (intent.edit? n) = intent.edit? n payload := by
            rw [hpayload]
            rfl
          refine (hqueue hnone).trans ?_
          rw [List.append_assoc, List.filterMap_cons, hfirst]
          cases intent.edit? n payload <;> rfl

namespace Rule

variable {r : Rule} {d : Document} {sel : Selection .root}

theorem outcome_operate_of_template {template : String}
    (htemplate : r.operation.template? = some template) (d : Document) (sel : Selection .root) :
    (r.operate d sel).1 = .ok ()
      ↔ (scheduleNodes r.operation.intent (r.render template) sel.nodes d.queue d).error = none := by
  have hgo : ∀ intent, (d.schedule sel intent (r.render template) d).1 = .ok ()
      ↔ (scheduleNodes intent (r.render template) sel.nodes d.queue d).error = none := by
    intro intent
    unfold Document.schedule Selection.schedule
    dsimp only
    split
    next e he => simp [he]
    next he => simp [he]
  unfold operate
  cases hop : r.operation with
  | remove =>
      rw [hop] at htemplate
      cases htemplate
  | prepend t =>
      rw [hop] at htemplate
      cases htemplate
      exact hgo .prepend
  | append t =>
      rw [hop] at htemplate
      cases htemplate
      exact hgo .append
  | replace t =>
      rw [hop] at htemplate
      cases htemplate
      exact hgo .replace

/-- **What an operation queues** is what the rule has for each node; it fails only where the
template cannot be filled in for one of them. -/
theorem queue_operate (r : Rule) (d : Document) (sel : Selection .root) :
    ((r.operate d sel).1 = .ok () ↔
        ∀ n ∈ sel.nodes, ∀ template, r.operation.template? = some template →
          ∃ payload, (r.render template d n).1 = .ok payload)
      ∧ ((r.operate d sel).1 = .ok () →
          (r.operate d sel).2.queue = d.queue ++ sel.nodes.filterMap (r.edit? d)) := by
  cases htemplate : r.operation.template? with
  | none =>
      have hremove : r.operation = .remove := by
        cases hop : r.operation with
        | remove => rfl
        | prepend t => rw [hop] at htemplate; cases htemplate
        | append t => rw [hop] at htemplate; cases htemplate
        | replace t => rw [hop] at htemplate; cases htemplate
      have hedit : r.edit? d = fun n => Intent.remove.edit? n none := by
        funext n
        rw [edit?, htemplate, hremove]
        rfl
      rw [hedit, operate, hremove]
      exact ⟨⟨fun _ _ _ _ h => (nomatch h), fun _ => rfl⟩, fun _ => rfl⟩
  | some template =>
      have hedit : r.edit? d = fun n =>
          (r.render template d n).1.toOption.bind (r.operation.intent.edit? n) := by
        funext n
        rw [edit?, htemplate]
      obtain ⟨hiff, hqueue⟩ := scheduleNodes_of_steady_answers (P := d.Seen)
        (fun n => (r.render template d n).1)
        (fun s n hs => hs.trans (r.seen_render template s n))
        (fun s n hs => render_of_seen hs n) sel.nodes d.queue (.refl d)
      rw [outcome_operate_of_template htemplate, operate_of_template htemplate, hedit]
      refine ⟨hiff.trans ⟨?_, fun h n hn => h n hn template rfl⟩, hqueue⟩
      rintro h n hn _ ⟨⟩
      exact h n hn

/-- An operation changes the queue of a document and, at most, its view. -/
theorem exists_operate_eq (r : Rule) (d : Document) (sel : Selection .root) :
    ∃ view, (r.operate d sel).2
      = { d with view := view, queue := (r.operate d sel).2.queue } := by
  unfold operate
  split
  · exact ⟨d.view, rfl⟩
  · exact ⟨_, rfl⟩
  · exact ⟨_, rfl⟩
  · exact ⟨_, rfl⟩

/-! ## §3. What a rule comes to. -/

theorem keeps_of_seen {d' : Document} (h : d.Seen d') : r.keeps d' = r.keeps d := by
  funext n
  unfold keeps
  rw [h.frame.1]

theorem filter_many (p : Node → Bool) (ns : List Node) :
    (Selection.many ns : Selection .root).filter p = .ok (.many (ns.filter p)) := by
  have hkept : (Selection.keepNodes (fun (_ : Unit) n => (p n, ())) ns ()).1 = ns.filter p := by
    induction ns with
    | nil => rfl
    | cons n ns ih =>
        rw [Selection.keepNodes, List.filter_cons]
        dsimp only
        rw [ih]
  show Except.ok (Selection.many (Selection.keepNodes _ ns ()).1) = _
  rw [hkept]

/-- **The targets of a rule that takes all it finds** are the ancestors of the nodes that it
keeps of them. -/
theorem exists_targets_of_all (hselect : r.select = .all) {sel : Selection .root}
    (htargets : (r.targets d).1 = .ok sel) :
    ∃ found, d.search d.root r.query = .ok found
      ∧ (found.filter (r.keeps d)).map (Node.ancestor? r.parent) = sel.nodes.map some := by
  have hseen : d.Seen (r.targets d).2 := d.seen_consulted r.query
  obtain ⟨all, hall, h⟩ := exists_of_bind_eq_ok htargets
  obtain ⟨found, hfound, rfl⟩ := exists_of_map_eq_ok hall
  obtain ⟨kept, hkept, h⟩ := exists_of_bind_eq_ok h
  obtain ⟨chosen, hchosen, h⟩ := exists_of_bind_eq_ok h
  have hnarrow : kept = chosen := by
    unfold narrow at hchosen
    rw [hselect] at hchosen
    exact Except.ok.inj hchosen
  have hkeeps : r.keeps (d.consulted r.query) = r.keeps d := keeps_of_seen hseen
  rw [filter_many, hkeeps] at hkept
  obtain rfl := Except.ok.inj hkept
  subst hnarrow
  exact ⟨found, hfound, Selection.map_ancestor?_of_climb h⟩

theorem isIn_of_refines {t : Tree} {sel sel' : Selection .root}
    (h : Relation.ReflTransGen Selection.Refines sel sel') (hsel : ∀ n ∈ sel.nodes, n.IsIn t) :
    ∀ n ∈ sel'.nodes, n.IsIn t := by
  induction h with
  | refl => exact hsel
  | tail _ hrefines ih => exact hrefines.isIn ih

theorem targets_isIn {sel : Selection .root} (htargets : (r.targets d).1 = .ok sel) :
    ∀ n ∈ sel.nodes, n.IsIn d.tree := by
  obtain ⟨all, hall, h⟩ := exists_of_bind_eq_ok htargets
  obtain ⟨kept, hkept, h⟩ := exists_of_bind_eq_ok h
  obtain ⟨chosen, hchosen, h⟩ := exists_of_bind_eq_ok h
  exact isIn_of_refines
    (.head (.filter _ _ hkept) ((refines_narrow hchosen).trans (refines_climb h)))
    (Document.query_isIn hall)

/-- A rule that ends well has queued its edits and committed them. -/
theorem commit_of_apply (h : (r.apply d).1 = .ok ()) :
    (r.queue d).1 = .ok ()
      ∧ ∃ tally, (r.queue d).2.commitWithTally = (.ok tally, (r.apply d).2) := by
  rcases r.apply_cases d with ⟨e, -, happly⟩ | ⟨e, -, -, happly⟩ | ⟨hqueue, ⟨tally, htally⟩, happly⟩
  · rw [happly] at h
    cases h
  · rw [happly] at h
    cases h
  · refine ⟨hqueue, tally, ?_⟩
    rw [happly]
    exact Prod.ext htally rfl

/-- A rule that queues its edits has targets and operates on them. -/
theorem exists_of_queue_eq_ok (h : (r.queue d).1 = .ok ()) :
    ∃ sel, (r.targets d).1 = .ok sel ∧ r.queue d = r.operate (r.targets d).2 sel := by
  unfold queue at h ⊢
  generalize r.targets d = answer at h ⊢
  obtain ⟨e | sel, d'⟩ := answer
  · cases h
  · exact ⟨sel, rfl, rfl⟩

end Rule

/-! ## §4. Commits that agree. -/

theorem Document.checks_of_commit {d : Document} {tally : Tally}
    (h : d.commitWithTally.1 = .ok tally) : ∀ e ∈ d.queue, e.check d.text = .ok () := by
  rcases checks_or_firstFault d.text d.queue with hchecks | ⟨cause, hfault⟩
  · exact hchecks
  · rw [commitWithTally_eq_edit_error_iff.mpr hfault] at h
    cases h

/-- Queues that splice alike into the text of a document commit alike. -/
theorem Document.commitWithTally_of_sameCommit {d : Document} {xs ys : List Edit}
    {view : Option View} (view' : Option View) (hsame : SameCommit d.text xs ys)
    (hnil : xs = [] ↔ ys = []) {tally : Tally} {final : Document}
    (h : { d with view := view, queue := xs }.commitWithTally = (.ok tally, final)) :
    ∃ tally' final', { d with view := view', queue := ys }.commitWithTally = (.ok tally', final')
      ∧ final'.text = final.text ∧ final'.tree = final.tree ∧ final'.touched = final.touched
      ∧ tally'.applied = tally.applied := by
  by_cases hx : xs = []
  · have hy := hnil.mp hx
    rw [commitWithTally_of_empty hx] at h
    cases h
    exact ⟨_, _, commitWithTally_of_empty hy, rfl, rfl, rfl, rfl⟩
  · have hy : ys ≠ [] := fun hy => hx (hnil.mpr hy)
    obtain ⟨s, s', hs, hs', htext, hchanges, happlied⟩ := hsame
    obtain ⟨r, tree, hr, htree, htally, hfinal⟩ := commitWithTally_of_ok (congrArg Prod.fst h) hx
    obtain rfl : s = r := Except.ok.inj (hs.symm.trans hr)
    -- the parser is asked for the tree of the same text, with the same changes
    have htree' : d.parser.reparse d.lang d.tree s'.changes s'.text = some tree := by
      rw [← hchanges, ← htext]
      exact htree
    rw [h] at hfinal
    obtain rfl : final = _ := hfinal
    exact ⟨_, _, commitWithTally_of_parsed hy hs' htree', htext.symm, rfl, rfl,
      htally ▸ happlied.symm⟩

/-- **An operation may as well be done to the first occurrence of each node.** -/
theorem Rule.operate_distinct {r : Rule} {d final : Document} {sel : Selection .root}
    {tally : Tally} (hid : ∀ a ∈ sel.nodes, ∀ b ∈ sel.nodes, a.id = b.id → a = b)
    (hempty : d.queue = []) (hok : (r.operate d sel).1 = .ok ())
    (hcommit : (r.operate d sel).2.commitWithTally = (.ok tally, final)) :
    ∃ once, r.operate d (.many (Node.distinct sel.nodes)) = (.ok (), once)
      ∧ SameCommit d.text (r.operate d sel).2.queue once.queue
      ∧ ∃ tally' final', once.commitWithTally = (.ok tally', final')
          ∧ final'.text = final.text ∧ final'.tree = final.tree ∧ final'.touched = final.touched
          ∧ tally'.applied = tally.applied := by
  obtain ⟨hanswers, hedits⟩ := r.queue_operate d sel
  obtain ⟨hanswers', hedits'⟩ := r.queue_operate d (.many (Node.distinct sel.nodes))
  have hok' : (r.operate d (.many (Node.distinct sel.nodes))).1 = .ok () :=
    hanswers'.mpr fun n hn => hanswers.mp hok n (Node.mem_of_mem_distinct hn)
  replace hedits := hedits hok
  replace hedits' := hedits' hok'
  rw [hempty, List.nil_append] at hedits hedits'
  obtain ⟨view, hdoc⟩ := r.exists_operate_eq d sel
  obtain ⟨view', hdoc'⟩ := r.exists_operate_eq d (.many (Node.distinct sel.nodes))
  rw [hdoc] at hcommit
  -- both queues hold what the rule has for each node, and the first for each range is the same
  have hfirst : SameFirstTexts (r.operate d sel).2.queue
      (r.operate d (.many (Node.distinct sel.nodes))).2.queue := by
    rw [hedits, hedits']
    exact sameFirstTexts_distinct hid (r.edit? d)
  have hchecks : ∀ e ∈ (r.operate d sel).2.queue, e.check d.text = .ok () :=
    Document.checks_of_commit (congrArg Prod.fst hcommit)
  have hsame : SameCommit d.text (r.operate d sel).2.queue
      (r.operate d (.many (Node.distinct sel.nodes))).2.queue := by
    refine sameCommit_of_sameFirstTexts hchecks (fun e he => hchecks e ?_) hfirst
    rw [hedits'] at he
    obtain ⟨n, hn, hedit⟩ := List.mem_filterMap.mp he
    rw [hedits]
    exact List.mem_filterMap.mpr ⟨n, Node.mem_of_mem_distinct hn, hedit⟩
  have hcommits := Document.commitWithTally_of_sameCommit view' hsame
    ⟨hfirst.eq_nil, hfirst.symm.eq_nil⟩ hcommit
  rw [← hdoc'] at hcommits
  exact ⟨_, Prod.ext hok' rfl, hsame, hcommits⟩

/-- No two applied edits start at one offset, so no range is edited twice. -/
theorem countP_covers_appliedEdits (t : Text) (edits : List Edit) (pos stop : Nat) :
    (appliedEdits t edits).countP (Edit.covers pos stop) ≤ 1 := by
  have hfall := (pairwise_appliedEdits t edits).filter (Edit.covers pos stop)
  rw [List.countP_eq_length_filter]
  match hcovers : (appliedEdits t edits).filter (Edit.covers pos stop) with
  | [] => exact Nat.zero_le 1
  | [e] => exact Nat.le_refl 1
  | a :: b :: rest =>
      rw [hcovers] at hfall
      have hlt := List.rel_of_pairwise_cons hfall (List.mem_cons_self (a := b))
      have hmem : ∀ e ∈ a :: b :: rest, e.pos = pos := fun e he =>
        (Edit.covers_iff.mp (List.mem_filter.mp (hcovers ▸ he)).2).1
      have ha := hmem a List.mem_cons_self
      have hb := hmem b (List.mem_cons_of_mem a List.mem_cons_self)
      omega

/-! ## §5. Shared ancestors. -/

/-- **AN ANCESTOR THAT SEVERAL NODES SHARE IS EDITED ONCE.**  A rule takes all the nodes it
finds and climbs any number of levels from them; no edit waits in the document, and the
rule ends well.

  (1) Its targets are the ancestors of the nodes it has found and kept: one for each node,
      so an ancestor of several of them is among the targets several times.
  (2) The operation could as well have been done to the first occurrence of each of them.
      It would have ended well, and
  (3) what it would have queued splices alike: the same text, the same changes, and as many
      edits applied;
  (4) so the commit after it succeeds too, with the same text, tree and mark, and as many
      edits applied.
  (5) Whatever its range, at most one edit of that range is applied. -/
theorem shared_ancestors_edited_once (r : Rule) (d : Document) (hselect : r.select = .all)
    (hempty : d.queue = []) (hok : (r.apply d).1 = .ok ()) :
    ∃ found sel, d.search d.root r.query = .ok found
      ∧ (r.targets d).1 = .ok sel
      ∧ (found.filter (r.keeps d)).map (Node.ancestor? r.parent) = sel.nodes.map some
      ∧ ∃ once, r.operate (r.targets d).2 (.many (Node.distinct sel.nodes)) = (.ok (), once)
        ∧ SameCommit d.text (r.queue d).2.queue once.queue
        ∧ (∃ tally tally' final, (r.queue d).2.commitWithTally = (.ok tally, (r.apply d).2)
            ∧ once.commitWithTally = (.ok tally', final)
            ∧ final.text = (r.apply d).2.text ∧ final.tree = (r.apply d).2.tree
            ∧ final.touched = (r.apply d).2.touched ∧ tally'.applied = tally.applied)
        ∧ ∀ pos stop,
            (appliedEdits d.text (r.queue d).2.queue).countP (Edit.covers pos stop) ≤ 1 := by
  obtain ⟨hqueued, tally, hcommit⟩ := Rule.commit_of_apply hok
  obtain ⟨sel, htargets, hqueue⟩ := Rule.exists_of_queue_eq_ok hqueued
  obtain ⟨found, hfound, hancestors⟩ := Rule.exists_targets_of_all hselect htargets
  have hid : ∀ a ∈ sel.nodes, ∀ b ∈ sel.nodes, a.id = b.id → a = b := fun a ha b hb =>
    (Rule.targets_isIn htargets a ha).eq_of_id_eq (Rule.targets_isIn htargets b hb)
  have hseen : d.Seen (r.targets d).2 := d.seen_consulted r.query
  obtain ⟨htext, -, -, hwaiting⟩ := hseen.frame
  rw [hqueue] at hqueued hcommit ⊢
  obtain ⟨once, honce, hsame, tally', final, hcommit', hagrees⟩ :=
    Rule.operate_distinct hid (hwaiting.trans hempty) hqueued hcommit
  rw [htext] at hsame
  exact ⟨found, sel, hfound, htargets, hancestors, once, honce, hsame,
    ⟨tally, tally', final, hcommit, hcommit', hagrees⟩, countP_covers_appliedEdits d.text _⟩

/-- The names `a` and `a`, with a comma between them, as the arguments of a call. -/
def twinTree : Tree :=
  .node { kind := "source_file", start := 0, stop := 3 }
    [ .node { kind := "arguments", start := 0, stop := 3 }
        [ .node { kind := "identifier", start := 0, stop := 1 } [],
          .node { kind := "identifier", start := 2, stop := 3 } [] ] ]

/-- The arguments, parsed; a single letter is taken for a name. -/
def twinDocument : Document :=
  { parser := .afresh fun _ t => some (if t.length = 1 then oneName t else twinTree)
    lang := .rust
    text := Text.ofString "a,a"
    tree := twinTree }

/-- What the name `a` stands in goes into brackets. -/
def wrapRule : Rule :=
  { id := "wrap", query := .pattern "a", parent := 1, operation := .replace "[$NODE]" }

/-- Both names lead to the arguments.  Two edits are queued for them, where one would have
done, and they go into brackets once. -/
theorem shared_ancestors_edited_once_wrapped :
    ∃ sel once tally final, (wrapRule.targets twinDocument).1 = .ok sel
      ∧ sel.nodes.map (fun n => (n.kind, n.id)) = [("arguments", [0]), ("arguments", [0])]
      ∧ (wrapRule.queue twinDocument).2.commitWithTally.1 = .ok { applied := 1, dropped := 1 }
      ∧ wrapRule.operate (wrapRule.targets twinDocument).2 (.many (Node.distinct sel.nodes))
          = (.ok (), once)
      ∧ once.queue = [⟨0, 3, Text.ofString "[a,a]"⟩]
      ∧ once.commitWithTally = (.ok tally, final)
      ∧ final.text = Text.ofString "[a,a]" ∧ tally.applied = 1 := by
  have htally : (wrapRule.queue twinDocument).2.commitWithTally.1
      = .ok { applied := 1, dropped := 1 } := by decide +kernel
  have htext : (wrapRule.apply twinDocument).2.text = Text.ofString "[a,a]" := by decide +kernel
  have hsel : (wrapRule.targets twinDocument).1.toOption.map (fun sel =>
        (sel.nodes.map (fun n => (n.kind, n.id)),
          (wrapRule.operate (wrapRule.targets twinDocument).2
            (.many (Node.distinct sel.nodes))).2.queue))
      = some ([("arguments", [0]), ("arguments", [0])], [⟨0, 3, Text.ofString "[a,a]"⟩]) := by
    decide +kernel
  obtain ⟨found, sel, -, htargets, -, once, honce, -, hcommits, -⟩ :=
    shared_ancestors_edited_once wrapRule twinDocument rfl rfl (by decide +kernel)
  obtain ⟨tally, tally', final, hcommit, hcommit', hfinal, -, -, happlied⟩ := hcommits
  rw [hcommit] at htally
  rw [htargets] at hsel
  obtain ⟨hnodes, hqueue⟩ := Prod.mk.inj (Option.some.inj hsel)
  rw [honce] at hqueue
  cases htally
  exact ⟨sel, once, tally', final, htargets, hnodes, congrArg Prod.fst hcommit, honce, hqueue,
    hcommit', hfinal.trans htext, happlied⟩

end StructuralEdit
