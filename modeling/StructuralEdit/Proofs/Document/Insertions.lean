/-
  StructuralEdit.Proofs.Document.Insertions
  ─────────────────────────────────────────
  **PREPENDING AND APPENDING LOSE NOTHING.**

  Texts are put before and behind nodes: nested nodes, neighbours, nodes that are selected
  twice, by callbacks that have nothing to say about some of them or fail at others.  The
  ends of such nodes coincide in many ways.  Two things are kept up as long as nothing else
  is done (`Session.Inserting`):

      the document       is as it was, but for its view and its queue
      the queue          holds insertions that fit the text

  so a commit succeeds, and what it makes of the text is a matter of the queue alone: the
  text with the first insertion for each offset woven in.
-/
import StructuralEdit.Proofs.Document.Outermost
import StructuralEdit.Proofs.Splice.Insertions

namespace StructuralEdit

/-! ## §1. Sessions that insert. -/

/-- The callback gives texts that can be read. -/
def Callback.GivesTexts {σ : Type} (callback : Callback σ) : Prop :=
  ∀ state n t, (callback state n).1 = .ok (some t) → t.IsUtf8

namespace Session

/-- One thing done to a document to which nothing but insertions comes.

As in `Step`, a call goes through the nodes of its selection one by one, and what its
callback does to the document in between are steps of their own.  So `Document.schedule`,
prepending or appending with any callback, is a run of such steps, also where the callback
fails midway (`insertRun_prepend`, `insertRun_append`). -/
inductive InsertStep (s : Session) : Session → Prop where
  | query (q : QueryText) : InsertStep s (s.query q)
  | queryInside (n : Node) (q : QueryText) : InsertStep s (s.queryInside n q)
  | refine {sel sel' : Selection .root} (hsel : sel ∈ s.held) (h : sel.Refines sel') :
      InsertStep s (s.hold sel')
  | prepend {sel : Selection .root} (hsel : sel ∈ s.held) {n : Node} (hn : n ∈ sel.nodes)
      {payload : Payload} (hpayload : ∀ t ∈ payload, t.IsUtf8) :
      InsertStep s (s.mutate .prepend n payload)
  | append {sel : Selection .root} (hsel : sel ∈ s.held) {n : Node} (hn : n ∈ sel.nodes)
      {payload : Payload} (hpayload : ∀ t ∈ payload, t.IsUtf8) :
      InsertStep s (s.mutate .append n payload)

/-- Any number of such things, one after the other. -/
abbrev InsertRun : Session → Session → Prop :=
  Relation.ReflTransGen InsertStep

variable {s s' : Session} {d : Document}

/-- **Prepending with any callback is a run.** -/
theorem insertRun_prepend {σ : Type} {callback : Callback σ} (hcallback : callback.GivesTexts)
    {sel : Selection .root} (hsel : sel ∈ s.held) (state : σ) :
    InsertRun s { s with doc := (s.doc.schedule sel .prepend callback state).2.1 } := by
  refine reflTransGen_scheduleNodes ?_ hsel (List.Subset.refl _) state
  intro s n state payload hsel hn hanswer
  exact .prepend hsel hn fun t ht => hcallback state n t (hanswer.trans (congrArg _ ht))

/-- **Appending with any callback is a run.** -/
theorem insertRun_append {σ : Type} {callback : Callback σ} (hcallback : callback.GivesTexts)
    {sel : Selection .root} (hsel : sel ∈ s.held) (state : σ) :
    InsertRun s { s with doc := (s.doc.schedule sel .append callback state).2.1 } := by
  refine reflTransGen_scheduleNodes ?_ hsel (List.Subset.refl _) state
  intro s n state payload hsel hn hanswer
  exact .append hsel hn fun t ht => hcallback state n t (hanswer.trans (congrArg _ ht))

/-! ## §2. What every step keeps. -/

/-- What is kept of the session that began with `d`: nothing has changed but the view and
the queue, selections hold nodes of the tree, and insertions wait that fit the text. -/
structure Inserting (d : Document) (s : Session) : Prop where
  frame : s.doc = { d with view := s.doc.view, queue := s.doc.queue }
  held : ∀ sel ∈ s.held, ∀ n ∈ sel.nodes, n.IsIn d.tree
  queue : ∀ e ∈ s.doc.queue, e.Fits d.text ∧ e.pos = e.stop

theorem inserting_opened (hempty : d.queue = []) : (opened d).Inserting d where
  frame := rfl
  held := by simp [opened]
  queue := by simp [opened, hempty]

theorem Inserting.consulted (h : s.Inserting d) (q : QueryText) :
    Inserting d { s with doc := s.doc.consulted q } := by
  cases q with
  | pattern source =>
      refine { h with frame := ?_ }
      show { s.doc with view := some s.doc.viewed } = _
      rw [h.frame]
      rfl
  | tree source => exact h

/-- An edit at an end of a node puts a text where the tree has an end. -/
theorem Inserting.mutate (h : s.Inserting d) (hfits : d.tree.Fits d.text) {intent : Intent}
    {n : Node} {payload : Payload}
    (hedit : ∀ e ∈ intent.edit? n payload, e.newText.IsUtf8
      ∧ ((e.pos, e.stop) = (n.start, n.start) ∨ (e.pos, e.stop) = (n.stop, n.stop)))
    (hn : n.IsIn d.tree) : (s.mutate intent n payload).Inserting d where
  frame := by
    show { s.doc with queue := s.doc.queue ++ (intent.edit? n payload).toList } = _
    rw [h.frame]
    rfl
  held := h.held
  queue := by
    refine List.forall_mem_append.mpr ⟨h.queue, fun e he => ?_⟩
    obtain ⟨hordered, hinside, hstart, hstop⟩ := hfits n (Node.mem_subtree_root_iff.mpr hn)
    obtain ⟨hutf8, hrange | hrange⟩ := hedit e (Option.mem_toList.mp he)
    · obtain ⟨hpos, hend⟩ := Prod.mk.inj hrange
      rw [← hpos] at hstart
      exact ⟨⟨by omega, by omega, hstart, by rwa [hend, ← hpos], hutf8⟩, by omega⟩
    · obtain ⟨hpos, hend⟩ := Prod.mk.inj hrange
      rw [← hpos] at hstop
      exact ⟨⟨by omega, by omega, hstop, by rwa [hend, ← hpos], hutf8⟩, by omega⟩

/-- **The step lemma.** -/
theorem Inserting.step (hfits : d.tree.Fits d.text) (h : s.Inserting d) (hstep : InsertStep s s') :
    s'.Inserting d := by
  cases hstep with
  | query q =>
      have hseen := h.consulted q
      refine { hseen with held := List.forall_mem_append.mpr ⟨?_, hseen.held⟩ }
      intro sel hsel
      have hfound := Document.query_isIn (mem_toList_toOption.mp hsel)
      rw [h.frame] at hfound
      exact hfound
  | queryInside n q => exact h.consulted q
  | refine hsel hrefines =>
      exact { h with held := List.forall_mem_cons.mpr ⟨hrefines.isIn (h.held _ hsel), h.held⟩ }
  | @prepend sel hsel n hn payload hpayload =>
      refine h.mutate hfits ?_ (h.held sel hsel n hn)
      intro e he
      obtain ⟨t, ht, rfl⟩ := Option.map_eq_some_iff.mp he
      exact ⟨hpayload t ht, Or.inl rfl⟩
  | @append sel hsel n hn payload hpayload =>
      refine h.mutate hfits ?_ (h.held sel hsel n hn)
      intro e he
      obtain ⟨t, ht, rfl⟩ := Option.map_eq_some_iff.mp he
      exact ⟨hpayload t ht, Or.inr rfl⟩

/-- **The run lemma.** -/
theorem Inserting.run (hfits : d.tree.Fits d.text) (h : s.Inserting d) (hrun : InsertRun s s') :
    s'.Inserting d := by
  induction hrun with
  | refl => exact h
  | tail _ hstep ih => exact ih.step hfits hstep

end Session

/-! ## §3. The commit. -/

/-- **PREPENDING AND APPENDING LOSE NOTHING.**  The nodes of the tree lie within the text,
with their ends in order and between characters; no edit waits; and the parser does not
fail.  Whatever is then selected, and whatever is put before and behind the selected nodes,
in calls of any number and order, some of which may fail:

  (1) all that waits are insertions, and the next commit succeeds;
  (2) its result is the text with, at each offset, the text woven in that was queued first
      for that offset, or nothing if there is none;
  (3) as many insertions are applied as there are different offsets, and the others are
      dropped;
  (4) so all bytes of the text are still there, in their order. -/
theorem insertions_lose_nothing (d : Document) (hempty : d.queue = []) (htext : d.text.IsUtf8)
    (hfits : d.tree.Fits d.text)
    (hparse : ∀ changes t, d.parser.reparse d.lang d.tree changes t ≠ none)
    (s : Session) (hrun : Session.InsertRun (.opened d) s) :
    (∀ e ∈ s.doc.queue, ∃ offset t, e = Edit.inserting offset t)
    ∧ ∃ final tally, s.doc.commitWithTally = (.ok tally, final)
        ∧ final.text = weave (firstInserted s.doc.queue) d.text
        ∧ tally.applied = (s.doc.queue.map Edit.pos).dedup.length
        ∧ tally.dropped = s.doc.queue.length - (s.doc.queue.map Edit.pos).dedup.length
        ∧ d.text.Sublist final.text := by
  have hinserting := (Session.inserting_opened hempty).run hfits hrun
  have hfit : ∀ e ∈ s.doc.queue, e.Fits d.text := fun e he => (hinserting.queue e he).1
  have hins : OnlyInserts s.doc.queue := fun e he => (hinserting.queue e he).2
  have hdoc := hinserting.frame
  generalize s.doc.queue = queue at hfit hins hdoc ⊢
  rw [hdoc]
  obtain ⟨final, hcommit, hfinal⟩ := Document.commitWithTally_of_checks
    (d := { d with view := s.doc.view, queue := queue }) (fun e he => (hfit e he).check) hparse
  have hwoven : final.text = weave (firstInserted queue) d.text :=
    hfinal.trans (text_spliceValid_of_onlyInserts htext hfit hins)
  have htally := tally_spliceValid_of_onlyInserts (t := d.text) hins
  refine ⟨?_, final, _, hcommit, hwoven, ?_, ?_, ?_⟩
  · intro e he
    refine ⟨e.pos, e.newText, ?_⟩
    show e = ⟨e.pos, e.pos, e.newText⟩
    rw [congrArg (Edit.mk e.pos) (hins e he)]
  · exact congrArg Tally.applied htally
  · exact congrArg Tally.dropped htally
  · rw [hwoven]
    exact sublist_weaveFrom _ 0 d.text

/-- The callback that gives one text for every node. -/
def Callback.always (t : Text) : Callback Unit := fun _ _ =>
  (.ok (some t), ())

/-- The callback that fails at every node. -/
def Callback.never : Callback Unit := fun _ _ =>
  (.error .isEmpty, ())

theorem Callback.givesTexts_always {t : Text} (ht : t.IsUtf8) : (always t).GivesTexts := by
  intro state n t' heq
  cases heq
  exact ht

/-- The name `a` gets an `é` in front of it; its parent, which starts at the same offset, is
to get a `y` there; a call that fails adds nothing; and then the parent gets a `z` behind
it.  The `y` has come too late for its offset. -/
theorem insertions_lose_nothing_nested :
    ∃ s final, Session.InsertRun (.opened nameDocument) s
      ∧ s.doc.queue = [⟨0, 0, Text.ofString "é"⟩, ⟨0, 0, Text.ofString "y"⟩,
          ⟨1, 1, Text.ofString "z"⟩]
      ∧ s.doc.commitWithTally = (.ok { applied := 2, dropped := 1 }, final)
      ∧ final.text = Text.ofString "éaz" := by
  let name : Selection .root := .many [(Node.root (oneName [97])).child 0
    (.node { kind := "identifier", start := 0, stop := 1 } [])]
  let whole : Selection .root := .many [Node.root (oneName [97])]
  -- each session is the one before it with one more call
  let s₁ := (Session.opened nameDocument).query (.pattern "a")
  let s₂ := s₁.hold whole
  let call (s : Session) (sel : Selection .root) (intent : Intent) (callback : Callback Unit) :
      Session := { s with doc := (s.doc.schedule sel intent callback ()).2.1 }
  let s₃ := call s₂ name .prepend (.always (Text.ofString "é"))
  let s₄ := call s₃ whole .prepend (.always (Text.ofString "y"))
  let s₅ := call s₄ name .append .never
  let s₆ := call s₅ whole .append (.always (Text.ofString "z"))
  have hname : name ∈ s₁.held := held_query_nameDocument ▸ List.mem_singleton_self _
  have hnever : Callback.never.GivesTexts := by
    intro state n t heq
    cases heq
  have h₂ : Session.InsertRun (.opened nameDocument) s₂ :=
    .tail (.single (.query _)) (.refine hname (.parent rfl))
  have hheld : name ∈ s₂.held ∧ whole ∈ s₂.held :=
    ⟨List.mem_cons_of_mem _ hname, List.mem_cons_self⟩
  have h₃ : Session.InsertRun s₂ s₃ :=
    Session.insertRun_prepend (Callback.givesTexts_always ⟨"é", rfl⟩) hheld.1 ()
  have h₄ : Session.InsertRun s₃ s₄ :=
    Session.insertRun_prepend (s := s₃) (Callback.givesTexts_always ⟨"y", rfl⟩) hheld.2 ()
  have h₅ : Session.InsertRun s₄ s₅ :=
    Session.insertRun_append (s := s₄) hnever hheld.1 ()
  have h₆ : Session.InsertRun s₅ s₆ :=
    Session.insertRun_append (s := s₅) (Callback.givesTexts_always ⟨"z", rfl⟩) hheld.2 ()
  have hrun := (((h₂.trans h₃).trans h₄).trans h₅).trans h₆
  obtain ⟨-, final, tally, hcommit, htext, happlied, hdropped, -⟩ := insertions_lose_nothing
    nameDocument rfl ⟨"a", by decide⟩ (fits_oneName [97]) (fun _ _ => Option.some_ne_none _) s₆ hrun
  obtain rfl : tally = { applied := 2, dropped := 1 } := by
    cases tally
    exact congrArg₂ Tally.mk (happlied.trans (by decide)) (hdropped.trans (by decide))
  exact ⟨s₆, final, hrun, rfl, hcommit, htext.trans (by decide)⟩

end StructuralEdit
