/-
  StructuralEdit.Proofs.Document.Session
  ──────────────────────────────────────
  **WHAT HOLDS OF A DOCUMENT, WHATEVER IS DONE TO IT.**

  A `Session` is a document in use: next to the document there are the selections
  at hand that may still queue edits, and, for the record, the queues that commits
  have spliced into the text.  A `Step` is one thing that can be done: push an edit,
  query, narrow a selection down, queue the edit for a node of a selection, discard,
  commit.  A commit ends the life of all selections.  Runs are sequences of steps of
  any length (`Relation.ReflTransGen`).

  One step lemma (`Sound.step`) carries what is proved about runs.  It is stated for
  any property `P` of trees that the parser vouches for and any property `Q` of edits
  that follows from it, because the two uses differ in these alone:

      the state of a document     P  the tree of the text      Q  pos ≤ stop
      edits always commit         P  spans fit the text        Q  the edit fits it
-/
import Mathlib.Logic.Relation
import StructuralEdit.Proofs.Document.Commit
import StructuralEdit.Proofs.Selection.Nodes

namespace StructuralEdit

/-! ## §1. Documents and edits. -/

namespace Document

theorem parse_eq_ok_iff {parser : Parser} {lang : Language} {text : Text} {d : Document} :
    parse parser lang text = .ok d ↔
      ∃ tree, parser.parse lang text = some tree
        ∧ d = { parser := parser, lang := lang, text := text, tree := tree } := by
  unfold parse
  cases parser.parse lang text <;> simp [eq_comm]

/-- A search sees nothing of the view but what `viewed` shows. -/
theorem search_of_viewed_eq {d : Document} (h : { d with view := none }.viewed = d.viewed)
    (scope : Node) (q : QueryText) :
    { d with view := none }.search scope q = d.search scope q := by
  cases q with
  | pattern source =>
      unfold search
      rw [h]
  | tree source => rfl

theorem tree_consulted (d : Document) (q : QueryText) : (d.consulted q).tree = d.tree := by
  cases q <;> rfl

end Document

/-- The edit comes from one of the functions that build edits. -/
inductive Edit.Built : Edit → Prop where
  | replacing {pos stop : Nat} {newText : Text} {e : Edit}
      (h : Edit.replacing pos stop newText = .ok e) : Built e
  | deleting {pos stop : Nat} {e : Edit} (h : Edit.deleting pos stop = .ok e) : Built e
  | inserting (offset : Nat) (newText : Text) : Built (Edit.inserting offset newText)

theorem Edit.ordered_of_replacing {pos stop : Nat} {newText : Text} {e : Edit}
    (h : Edit.replacing pos stop newText = .ok e) : e.pos ≤ e.stop := by
  unfold Edit.replacing at h
  split at h
  next => cases h
  next hle =>
    cases h
    exact Nat.le_of_not_lt hle

theorem Edit.Built.ordered {e : Edit} (h : e.Built) : e.pos ≤ e.stop := by
  cases h with
  | replacing h => exact Edit.ordered_of_replacing h
  | deleting h => exact Edit.ordered_of_replacing h
  | inserting offset newText => exact Nat.le_refl offset

/-- A removal is a mutation whose callback has nothing to say. -/
theorem scheduleNodes_remove (ns : List Node) (queue : List Edit) :
    (scheduleNodes .remove (fun (_ : Unit) _ => (.ok none, ())) ns queue ()).queue =
      queue ++ ns.filterMap fun n => Intent.remove.edit? n none := by
  induction ns generalizing queue with
  | nil => simp [scheduleNodes]
  | cons n ns ih =>
      rw [scheduleNodes, ih]
      simp [Intent.edit?]

/-! ## §2. Sessions. -/

/-- What the commit of a document adds to the record: its queue, if there is one and
the commit succeeds. -/
def Document.landing (d : Document) : List (List Edit) :=
  match d.commitWithTally.1 with
  | .ok _ => if d.dirty then [d.queue] else []
  | .error _ => []

/-- A document in use. -/
structure Session where
  doc : Document
  /-- The selections at hand. -/
  held : List (Selection .root) := []
  /-- The queues that have been committed, oldest first. -/
  history : List (List Edit) := []

namespace Session

/-- The session of a document that has just been parsed. -/
def opened (d : Document) : Session :=
  { doc := d }

/-- Queue an edit by hand. -/
def push (s : Session) (e : Edit) : Session :=
  { s with doc := s.doc.push e }

/-- Query; the selection, if there is one, is at hand from now on. -/
def query (s : Session) (q : QueryText) : Session :=
  { s with doc := (s.doc.query q).2, held := (s.doc.query q).1.toOption.toList ++ s.held }

/-- Query inside a node; what is found there is for reading only. -/
def queryInside (s : Session) (n : Node) (q : QueryText) : Session :=
  { s with doc := (s.doc.queryInside n q).2 }

/-- Keep a selection at hand. -/
def hold (s : Session) (sel : Selection .root) : Session :=
  { s with held := sel :: s.held }

/-- Queue the edit for a node. -/
def mutate (s : Session) (intent : Intent) (n : Node) (payload : Payload) : Session :=
  { s with doc := { s.doc with queue := s.doc.queue ++ (intent.edit? n payload).toList } }

/-- Drop the edits that wait. -/
def discard (s : Session) : Session :=
  { s with doc := s.doc.discard.2 }

/-- Commit; successful or not, this leaves no selection at hand. -/
def commit (s : Session) : Session :=
  { doc := s.doc.commitWithTally.2, held := [], history := s.history ++ s.doc.landing }

/-- One thing done to a document; `pushable` are the edits that may be pushed.

A mutation of a selection goes through its nodes one by one, and each node for which
the callback gives a payload is a step `mutate`.  Whatever the callback does to the
document in between, be it queries or mutations of other selections, are steps of
their own; when it fails, the steps for the nodes that are left are not taken.  So
`Document.schedule`, with any callback, and `Document.remove` are runs of such steps
(`run_schedule`, `run_remove`). -/
inductive Step (pushable : Edit → Prop) (s : Session) : Session → Prop where
  | push {e : Edit} (he : pushable e) : Step pushable s (s.push e)
  | query (q : QueryText) : Step pushable s (s.query q)
  | queryInside (n : Node) (q : QueryText) : Step pushable s (s.queryInside n q)
  | refine {sel sel' : Selection .root} (hsel : sel ∈ s.held) (h : sel.Refines sel') :
      Step pushable s (s.hold sel')
  | mutate {sel : Selection .root} (hsel : sel ∈ s.held) {n : Node} (hn : n ∈ sel.nodes)
      (intent : Intent) (payload : Payload) : Step pushable s (s.mutate intent n payload)
  | discard : Step pushable s s.discard
  | commit : Step pushable s s.commit

/-- Any number of things done to a document, one after the other. -/
abbrev Run (pushable : Edit → Prop) : Session → Session → Prop :=
  Relation.ReflTransGen (Step pushable)

variable {pushable : Edit → Prop} {s : Session}

/-- Going through some nodes of a selection is a sequence of whatever steps there are for
single nodes; the callback may do anything. -/
theorem reflTransGen_scheduleNodes {step : Session → Session → Prop} {σ : Type} {intent : Intent}
    {callback : Callback σ} {sel : Selection .root}
    (hstep : ∀ {s : Session} {n : Node} {state : σ} {payload : Payload}, sel ∈ s.held →
      n ∈ sel.nodes → (callback state n).1 = .ok payload → step s (s.mutate intent n payload))
    {s : Session} (hsel : sel ∈ s.held) {ns : List Node} (hns : ns ⊆ sel.nodes) (state : σ) :
    Relation.ReflTransGen step s
      { s with doc :=
          { s.doc with queue := (scheduleNodes intent callback ns s.doc.queue state).queue } } := by
  induction ns generalizing s state with
  | nil => exact .refl
  | cons n ns ih =>
      have hn := @hstep s n state
      rw [scheduleNodes]
      obtain ⟨hmem, hns⟩ := List.cons_subset.mp hns
      generalize callback state n = answer at hn ⊢
      rcases answer with ⟨e | payload, state'⟩
      · exact .refl
      · exact .head (hn hsel hmem rfl) (ih (s := s.mutate intent n payload) hsel hns state')

/-- Going through some nodes of a selection is a run, whatever the callback does. -/
theorem run_scheduleNodes {σ : Type} (intent : Intent) (callback : Callback σ)
    {sel : Selection .root} (hsel : sel ∈ s.held) {ns : List Node} (hns : ns ⊆ sel.nodes)
    (state : σ) :
    Run pushable s
      { s with doc :=
          { s.doc with queue := (scheduleNodes intent callback ns s.doc.queue state).queue } } :=
  reflTransGen_scheduleNodes (fun hsel hn _ => .mutate hsel hn intent _) hsel hns state

/-- **A mutation with any callback is a run.** -/
theorem run_schedule {σ : Type} {sel : Selection .root} (hsel : sel ∈ s.held) (intent : Intent)
    (callback : Callback σ) (state : σ) :
    Run pushable s { s with doc := (s.doc.schedule sel intent callback state).2.1 } :=
  run_scheduleNodes intent callback hsel (List.Subset.refl _) state

/-- **A removal is a run.** -/
theorem run_remove {sel : Selection .root} (hsel : sel ∈ s.held) :
    Run pushable s { s with doc := s.doc.remove sel } := by
  unfold Document.remove Selection.remove
  rw [← scheduleNodes_remove]
  exact run_scheduleNodes .remove _ hsel (List.Subset.refl _) ()

end Session

/-! ## §3. What every step keeps. -/

/-- The text with a queue spliced in. -/
def splicedText (t : Text) (queue : List Edit) : Except EditError Text :=
  (·.text) <$> splice t queue

theorem foldlM_splicedText_snoc {queues : List (List Edit)} {queue : List Edit} {t t' : Text}
    {s : Splice} (h : queues.foldlM splicedText t = .ok t') (hs : splice t' queue = .ok s) :
    (queues ++ [queue]).foldlM splicedText t = .ok s.text := by
  rw [List.foldlM_append, h]
  show (splicedText t' queue >>= pure) = _
  unfold splicedText
  rw [hs]
  rfl

/-- Every tree that the parser gives satisfies `P`: the one of a text that it reads
from scratch, and the one of a spliced text that it reads with the help of a tree
that satisfies `P` and of the changes that the splice tells. -/
structure Parser.Yields (parser : Parser) (P : Language → Text → Tree → Prop) : Prop where
  parse : ∀ {lang : Language} {t : Text} {tree : Tree},
    parser.parse lang t = some tree → P lang t tree
  reparse : ∀ {lang : Language} {t : Text} {old : Tree} {edits : List Edit} {s : Splice}
    {tree : Tree}, P lang t old → splice t edits = .ok s →
    parser.reparse lang old s.changes s.text = some tree → P lang s.text tree

theorem Parser.Yields.and {parser : Parser} {P P' : Language → Text → Tree → Prop}
    (h : parser.Yields P) (h' : parser.Yields P') :
    parser.Yields fun lang t tree => P lang t tree ∧ P' lang t tree where
  parse := fun ht => ⟨h.parse ht, h'.parse ht⟩
  reparse := fun hold hs ht => ⟨h.reparse hold.1 hs ht, h'.reparse hold.2 hs ht⟩

namespace Session

/-- What is kept of the session that began with `d₀`: trees and the view satisfy `P`
and are those of the current text, selections hold nodes of the current tree, the
edits that wait satisfy `Q`, and the record accounts for text and mark. -/
structure Sound (P : Language → Text → Tree → Prop) (Q : Text → Edit → Prop) (d₀ : Document)
    (s : Session) : Prop where
  parser : s.doc.parser = d₀.parser
  lang : s.doc.lang = d₀.lang
  tree : P d₀.lang s.doc.text s.doc.tree
  view : ∀ v ∈ s.doc.view, v.text = s.doc.text ∧ P d₀.lang s.doc.text v.tree
  held : ∀ sel ∈ s.held, ∀ n ∈ sel.nodes, n.IsIn s.doc.tree
  queue : ∀ e ∈ s.doc.queue, Q s.doc.text e
  text : s.history.foldlM splicedText d₀.text = .ok s.doc.text
  touched : s.doc.touched = !s.history.isEmpty

/-- What makes a property `Q` of edits follow from a property `P` of trees: it holds of
edits that are pushed and of edits for nodes. -/
structure Grants (pushable : Edit → Prop) (P : Language → Text → Tree → Prop)
    (Q : Text → Edit → Prop) : Prop where
  push : ∀ {t : Text} {e : Edit}, pushable e → Q t e
  mutate : ∀ {lang : Language} {t : Text} {tree : Tree} {n : Node} {intent : Intent}
    {payload : Payload}, P lang t tree → n.IsIn tree → ∀ e ∈ intent.edit? n payload, Q t e

variable {pushable : Edit → Prop} {P : Language → Text → Tree → Prop} {Q : Text → Edit → Prop}
  {d₀ : Document} {s s' : Session}

/-- The view at hand, or the one that would be made, is of the current text. -/
theorem Sound.viewed (h : s.Sound P Q d₀) (hP : d₀.parser.Yields P) :
    s.doc.viewed.text = s.doc.text ∧ P d₀.lang s.doc.text s.doc.viewed.tree := by
  unfold Document.viewed
  cases hv : s.doc.view with
  | some v => exact h.view v hv
  | none =>
      -- parsed anew or, should that fail, the tree of the document
      refine ⟨rfl, ?_⟩
      show P _ _ ((s.doc.parser.parse s.doc.lang s.doc.text).getD s.doc.tree)
      rw [h.parser, h.lang]
      cases ht : d₀.parser.parse d₀.lang s.doc.text with
      | some tree => exact hP.parse ht
      | none => exact h.tree

theorem Sound.withoutView (h : s.Sound P Q d₀) :
    Sound P Q d₀ { s with doc := { s.doc with view := none } } :=
  { h with view := by simp }

theorem Sound.consulted (h : s.Sound P Q d₀) (hP : d₀.parser.Yields P) (q : QueryText) :
    Sound P Q d₀ { s with doc := s.doc.consulted q } := by
  cases q with
  | tree source => exact h
  | pattern source =>
      exact { h with view := fun v hv => Option.some.inj hv ▸ h.viewed hP }

theorem Sound.commit (h : s.Sound P Q d₀) (hP : d₀.parser.Yields P) :
    s.commit.Sound P Q d₀ := by
  unfold Session.commit Document.landing
  -- three of the four ways to end leave the document and the record as they were
  have hend := s.doc.commitWithTally_cases
  generalize s.doc.commitWithTally = r at hend
  cases hend with
  | empty hq =>
      simp only [Document.dirty, hq, List.isEmpty_nil, Bool.not_true, Bool.false_eq_true, if_false,
        List.append_nil]
      exact { h with held := by simp }
  | fault hq cause hs =>
      rw [List.append_nil]
      exact { h with held := by simp }
  | unparsable hq spliced hs ht =>
      rw [List.append_nil]
      exact { h with held := by simp }
  | done hq spliced tree hs ht =>
      have hdirty : s.doc.dirty = true := by simpa [Document.dirty] using hq
      -- the tree from before is sound, so the parser vouches for the one that it gives now
      rw [h.parser, h.lang] at ht
      simp only [hdirty, if_true]
      exact {
        parser := h.parser
        lang := h.lang
        tree := hP.reparse h.tree hs ht
        view := by simp [Document.committed]
        held := by simp
        queue := by simp [Document.committed]
        text := foldlM_splicedText_snoc h.text hs
        touched := by simp [Document.committed] }

/-- **The step lemma.** -/
theorem Sound.step (hP : d₀.parser.Yields P) (hQ : Grants pushable P Q) (h : s.Sound P Q d₀)
    (hstep : Step pushable s s') : s'.Sound P Q d₀ := by
  cases hstep with
  | push he =>
      refine { h with queue := List.forall_mem_append.mpr ⟨h.queue, ?_⟩ }
      exact List.forall_mem_singleton.mpr (hQ.push he)
  | query q =>
      have hseen := h.consulted hP q
      refine { hseen with held := List.forall_mem_append.mpr ⟨?_, hseen.held⟩ }
      intro sel hsel
      show ∀ n ∈ sel.nodes, n.IsIn (s.doc.consulted q).tree
      -- making a view changes no tree
      rw [Document.tree_consulted]
      exact Document.query_isIn (mem_toList_toOption.mp hsel)
  | queryInside n q => exact h.consulted hP q
  | refine hsel hrefines =>
      exact { h with held := List.forall_mem_cons.mpr ⟨hrefines.isIn (h.held _ hsel), h.held⟩ }
  | mutate hsel hn intent payload =>
      refine { h with queue := List.forall_mem_append.mpr ⟨h.queue, ?_⟩ }
      intro e he
      exact hQ.mutate h.tree (h.held _ hsel _ hn) e (Option.mem_toList.mp he)
  | discard => exact { h with queue := by simp [Session.discard, Document.discard] }
  | commit => exact h.commit hP

/-- **The run lemma.** -/
theorem Sound.run (hP : d₀.parser.Yields P) (hQ : Grants pushable P Q) (h : s.Sound P Q d₀)
    (hrun : Run pushable s s') : s'.Sound P Q d₀ := by
  induction hrun with
  | refl => exact h
  | tail _ hstep ih => exact ih.step hP hQ hstep

end Session

/-! ## §4. The state of a document. -/

/-- Every node of the tree ends where it starts or after that. -/
def Tree.Ordered (tree : Tree) : Prop :=
  ∀ n ∈ (Node.root tree).subtree, n.start ≤ n.stop

namespace Session

theorem sound_opened {P : Language → Text → Tree → Prop} {Q : Text → Edit → Prop}
    {parser : Parser} {lang : Language} {text : Text} {d : Document} (hP : parser.Yields P)
    (h : Document.parse parser lang text = .ok d) : (opened d).Sound P Q d := by
  obtain ⟨tree, ht, rfl⟩ := Document.parse_eq_ok_iff.mp h
  exact {
    parser := rfl
    lang := rfl
    tree := hP.parse ht
    view := by simp [opened]
    held := by simp [opened]
    queue := by simp [opened]
    text := rfl
    touched := rfl }

theorem grants_ordered {P : Language → Text → Tree → Prop}
    (hP : ∀ {lang : Language} {t : Text} {tree : Tree}, P lang t tree → tree.Ordered) :
    Grants Edit.Built P fun _ e => e.pos ≤ e.stop where
  push := Edit.Built.ordered
  mutate := by
    intro lang t tree n intent payload htree hn e he
    have hspan : n.start ≤ n.stop := hP htree n (Node.mem_subtree_root_iff.mpr hn)
    rcases Intent.range_of_mem_edit? he with h | h | h
    all_goals
      obtain ⟨hpos, hstop⟩ := Prod.mk.inj h
      omega

end Session

/-- **The state of a document holds together, whatever is done to it.**

Suppose that the parser, when it succeeds, gives the tree of the text it is given,
and trees whose nodes have their ends in order.  Then in every state that a parsed
document can come to:

  (1) the edits that wait have their ends in order;
  (2) the tree is that of the text;
  (3) the view is missing, or it is of the text;
  (4) so a query finds what it would find had no view ever been made;
  (5) the text is the first one with the queues of the commits spliced in that had a
      queue and succeeded;
  (6) the mark is set exactly if there has been such a commit. -/
theorem document_state (parser : Parser) (treeOf : Language → Text → Tree)
    (htree : parser.Yields fun lang t tree => tree = treeOf lang t)
    (hordered : parser.Yields fun _ _ tree => tree.Ordered)
    (lang : Language) (text : Text) (d : Document)
    (hopen : Document.parse parser lang text = .ok d)
    (s : Session) (hrun : Session.Run Edit.Built (.opened d) s) :
    (∀ e ∈ s.doc.queue, e.pos ≤ e.stop)
    ∧ s.doc.tree = treeOf lang s.doc.text
    ∧ (s.doc.view = none ∨ s.doc.view = some ⟨s.doc.text, treeOf lang s.doc.text⟩)
    ∧ (∀ scope q, s.doc.search scope q = { s.doc with view := none }.search scope q)
    ∧ s.history.foldlM splicedText text = .ok s.doc.text
    ∧ (s.doc.touched = true ↔ s.history ≠ []) := by
  obtain ⟨tree, -, rfl⟩ := Document.parse_eq_ok_iff.mp hopen
  have hyields := htree.and hordered
  have hsound := (Session.sound_opened hyields hopen).run hyields
    (Session.grants_ordered And.right) hrun
  -- the views with and without the one at hand are made of the same text and the same tree
  have hview : { s.doc with view := none }.viewed = s.doc.viewed := by
    obtain ⟨htext, htree, -⟩ := hsound.viewed hyields
    obtain ⟨htext', htree', -⟩ := hsound.withoutView.viewed hyields
    exact View.ext (htext'.trans htext.symm) (htree'.trans htree.symm)
  refine ⟨hsound.queue, hsound.tree.1, ?_, ?_, hsound.text, ?_⟩
  · cases hv : s.doc.view with
    | none => exact Or.inl rfl
    | some v =>
        obtain ⟨htext, htree, -⟩ := hsound.view v hv
        exact Or.inr (congrArg some (View.ext htext htree))
  · intro scope q
    exact (Document.search_of_viewed_eq hview scope q).symm
  · rw [hsound.touched]
    simp

/-- A text that is a name and nothing else. -/
def oneName (t : Text) : Tree :=
  .node { kind := "source_file", start := 0, stop := t.length }
    [.node { kind := "identifier", start := 0, stop := t.length } []]

/-- The parser that takes every text for a name. -/
def nameParser : Parser :=
  .afresh fun _ t => some (oneName t)

theorem nameParser_yields {P : Language → Text → Tree → Prop}
    (h : ∀ lang t, P lang t (oneName t)) : nameParser.Yields P where
  parse := by
    intro lang t tree ht
    cases ht
    exact h lang t
  reparse := by
    intro lang t old edits s tree _ _ ht
    cases ht
    exact h lang s.text

theorem ordered_oneName (t : Text) : (oneName t).Ordered := by
  simp [Tree.Ordered, oneName, Node.root, Node.subtree, Tree.nodesBelow, Tree.nodesAmong,
    Node.start, Node.stop, Node.label, Tree.label]

/-- The name `a`, parsed. -/
def nameDocument : Document :=
  { parser := nameParser, lang := .rust, text := [97], tree := oneName [97] }

theorem held_query_nameDocument :
    ((Session.opened nameDocument).query (.pattern "a")).held =
      [.many [(Node.root (oneName [97])).child 0
        (.node { kind := "identifier", start := 0, stop := 1 } [])]] := rfl

/-- The name `a` is looked for and found, to be replaced by `b`; a `c` is pushed behind
it; both are committed, and the name is looked for again: the view is of the new text. -/
theorem document_state_queried_twice :
    ∃ s, Session.Run Edit.Built (.opened nameDocument) s
      ∧ s.history = [[⟨0, 1, [98]⟩, ⟨1, 1, [99]⟩]]
      ∧ s.doc.text = [98, 99]
      ∧ s.doc.view = some ⟨[98, 99], oneName [98, 99]⟩
      ∧ s.doc.touched = true := by
  let s₁ := (Session.opened nameDocument).query (.pattern "a")
  let s₂ := s₁.mutate .replace ((Node.root (oneName [97])).child 0
    (.node { kind := "identifier", start := 0, stop := 1 } [])) (some [98])
  let s₃ := (s₂.push (Edit.inserting 1 [99])).commit
  have hmutate : Session.Step Edit.Built s₁ s₂ :=
    .mutate (held_query_nameDocument ▸ List.mem_singleton_self _) (List.mem_singleton_self _)
      .replace (some [98])
  have hrun : Session.Run Edit.Built (.opened nameDocument) (s₃.query (.pattern "a")) :=
    .tail (.tail (.tail (.tail (.single (.query _)) hmutate) (.push (.inserting 1 [99]))) .commit)
      (.query _)
  obtain ⟨-, -, hview, -, htext, htouched⟩ := document_state nameParser (fun _ t => oneName t)
    (nameParser_yields fun _ _ => rfl) (nameParser_yields fun _ => ordered_oneName)
    .rust [97] nameDocument rfl _ hrun
  have hhistory : (s₃.query (.pattern "a")).history = [[⟨0, 1, [98]⟩, ⟨1, 1, [99]⟩]] := rfl
  have hnew : (s₃.query (.pattern "a")).doc.text = [98, 99] :=
    Except.ok.inj (htext.symm.trans (by rw [hhistory]; rfl))
  have hseen : (s₃.query (.pattern "a")).doc.view ≠ none := Option.some_ne_none _
  refine ⟨_, hrun, hhistory, hnew, ?_, htouched.mpr (by simp [hhistory])⟩
  rw [hview.resolve_left hseen, hnew]

end StructuralEdit
