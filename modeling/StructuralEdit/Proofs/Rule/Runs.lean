/-
  StructuralEdit.Proofs.Rule.Runs
  ───────────────────────────────
  **EDITS THAT COME FROM SELECTIONS ALWAYS COMMIT.**

  An edit for a node fits the text that the node is in, and between two commits the
  text does not change; so a document to which edits come from selections alone never
  has one in its queue that a commit could refuse.  That is one more use of the step
  lemma of sessions.

  It carries over to rules because all that a rule does to a document is a run:

      query, then a chain of selections     `exists_run_targets`
      look into the nodes, queue edits      `run_operate`
      commit                                `exists_run_apply`
-/
import StructuralEdit.Rule.Apply
import StructuralEdit.Proofs.CharacterBoundary
import StructuralEdit.Proofs.Document.Session

namespace StructuralEdit

/-! ## §1. Chains of selections. -/

namespace Session

variable {pushable : Edit → Prop} {s : Session}

theorem exists_run_refine {sel sel' : Selection .root} (hsel : sel ∈ s.held)
    (h : Relation.ReflTransGen Selection.Refines sel sel') :
    ∃ held, sel' ∈ held ∧ Run pushable s { s with held := held } := by
  induction h with
  | refl => exact ⟨s.held, hsel, .refl⟩
  | @tail mid last _ hrefines ih =>
      obtain ⟨held, hmid, hrun⟩ := ih
      exact ⟨last :: held, List.mem_cons_self, hrun.tail (.refine hmid hrefines)⟩

end Session

/-! ## §2. What a rule does to a document. -/

/-- At most, the view has been made in the meantime. -/
def Document.Seen (d d' : Document) : Prop :=
  d' = d ∨ d' = { d with view := some d.viewed }

namespace Document

variable {d d' d'' : Document}

theorem Seen.refl (d : Document) : d.Seen d :=
  Or.inl rfl

theorem Seen.trans (h : d.Seen d') (h' : d'.Seen d'') : d.Seen d'' := by
  rcases h with rfl | rfl
  · exact h'
  · rcases h' with rfl | rfl
    · exact Or.inr rfl
    · exact Or.inr rfl

theorem seen_consulted (d : Document) (q : QueryText) : d.Seen (d.consulted q) := by
  cases q with
  | pattern source => exact Or.inr rfl
  | tree source => exact Or.inl rfl

end Document

namespace Rule

theorem seen_bindAll (n : Node) (bindings : List (String × String)) (t : Template)
    (d : Document) : d.Seen (bindAll n bindings t d).2 := by
  induction bindings generalizing t d with
  | nil => exact .refl d
  | cons binding rest ih =>
      have hseen : d.Seen (d.queryInside n (.pattern binding.2)).2 :=
        d.seen_consulted (.pattern binding.2)
      rw [bindAll]
      generalize d.queryInside n (.pattern binding.2) = answer at hseen ⊢
      rcases answer with ⟨e | found, d'⟩
      · exact hseen
      · dsimp only
        split
        next => exact hseen
        next m _ => exact hseen.trans (ih _ d')

theorem seen_render (r : Rule) (template : String) (d : Document) (n : Node) :
    d.Seen (r.render template d n).2 := by
  have hseen := seen_bindAll n r.bindings
    (({ source := Text.ofString template } : Template).bind (Text.ofString nodeBinding)
      (n.text d.text)) d
  unfold render
  dsimp only
  split
  all_goals
    next hbind =>
      rw [hbind] at hseen
      exact hseen

theorem seen_scheduleNodes {intent : Intent} {callback : Callback Document}
    (h : ∀ (d : Document) (n : Node), d.Seen (callback d n).2) (ns : List Node)
    (queue : List Edit) (d : Document) :
    d.Seen (scheduleNodes intent callback ns queue d).state := by
  induction ns generalizing queue d with
  | nil => exact .refl d
  | cons n ns ih =>
      have hseen := h d n
      rw [scheduleNodes]
      generalize callback d n = answer at hseen ⊢
      rcases answer with ⟨e | payload, d'⟩
      · exact hseen
      · exact hseen.trans (ih _ d')

theorem refines_narrow {r : Rule} {sel sel' : Selection .root} (h : r.narrow sel = .ok sel') :
    Relation.ReflTransGen Selection.Refines sel sel' := by
  unfold narrow at h
  split at h
  · cases h
    exact .refl
  · exact .single (.first h)
  · exact .single (.last h)
  · exact .single (.unique h)

theorem refines_climb {levels : Nat} {sel sel' : Selection .root}
    (h : sel.climb levels = .ok sel') : Relation.ReflTransGen Selection.Refines sel sel' := by
  induction levels generalizing sel with
  | zero =>
      cases h
      exact .refl
  | succ levels ih =>
      obtain ⟨up, hup, h⟩ := exists_of_bind_eq_ok h
      exact .head (.parent hup) (ih h)

end Rule

/-! ## §3. Rules as runs. -/

namespace Session

variable {pushable : Edit → Prop} {s : Session}

/-- Looking into nodes is a run. -/
theorem run_seen {d : Document} (h : s.doc.Seen d) : Run pushable s { s with doc := d } := by
  rcases h with rfl | rfl
  · exact .refl
  · exact .single (.queryInside s.doc.root (.pattern ""))

theorem exists_run_targets (pushable : Edit → Prop) (r : Rule) (s : Session) :
    ∃ held, (∀ sel, (r.targets s.doc).1 = .ok sel → sel ∈ held)
      ∧ Run pushable s { s with doc := (r.targets s.doc).2, held := held } := by
  have hquery : Run pushable s (s.query r.query) := .single (.query r.query)
  cases hchosen : (r.targets s.doc).1 with
  | error e => exact ⟨(s.query r.query).held, by simp, hquery⟩
  | ok sel =>
      obtain ⟨found, hfound, h⟩ := exists_of_bind_eq_ok hchosen
      obtain ⟨kept, hkept, h⟩ := exists_of_bind_eq_ok h
      obtain ⟨narrowed, hnarrowed, h⟩ := exists_of_bind_eq_ok h
      have hheld : found ∈ (s.query r.query).held :=
        List.mem_append_left _ (mem_toList_toOption.mpr hfound)
      have hchain : Relation.ReflTransGen Selection.Refines found sel :=
        .head (.filter _ _ hkept) ((Rule.refines_narrow hnarrowed).trans (Rule.refines_climb h))
      obtain ⟨held, hsel, hrun⟩ := exists_run_refine hheld hchain
      refine ⟨held, ?_, hquery.trans hrun⟩
      intro sel' hsel'
      exact Except.ok.inj hsel' ▸ hsel

/-- A mutation whose callback fills a template in is a run. -/
theorem run_schedule_render (r : Rule) {sel : Selection .root} (hsel : sel ∈ s.held)
    (intent : Intent) (template : String) :
    Run pushable s
      { s with doc :=
          { (s.doc.schedule sel intent (r.render template) s.doc).2.1 with
            view := (s.doc.schedule sel intent (r.render template) s.doc).2.2.view } } := by
  have hseen : s.doc.Seen (s.doc.schedule sel intent (r.render template) s.doc).2.2 :=
    Rule.seen_scheduleNodes (r.seen_render template) sel.nodes s.doc.queue s.doc
  rcases hseen with hseen | hseen
  · rw [hseen]
    exact run_schedule hsel intent (r.render template) s.doc
  · -- the view may as well be made first, before the first edit is queued
    rw [hseen]
    let s₁ : Session := { s with doc := { s.doc with view := some s.doc.viewed } }
    have hview : Run pushable s s₁ := run_seen (Or.inr rfl)
    exact hview.trans (run_schedule (s := s₁) hsel intent (r.render template) s.doc)

theorem run_operate (r : Rule) {sel : Selection .root} (hsel : sel ∈ s.held) :
    Run pushable s { s with doc := (r.operate s.doc sel).2 } := by
  unfold Rule.operate
  split
  · exact run_remove hsel
  · exact run_schedule_render r hsel .prepend _
  · exact run_schedule_render r hsel .append _
  · exact run_schedule_render r hsel .replace _

theorem exists_run_queue (pushable : Edit → Prop) (r : Rule) (s : Session) :
    ∃ held, Run pushable s { s with doc := (r.queue s.doc).2, held := held } := by
  obtain ⟨held, hheld, hrun⟩ := exists_run_targets pushable r s
  unfold Rule.queue
  generalize r.targets s.doc = answer at hheld hrun ⊢
  rcases answer with ⟨e | sel, d⟩
  · exact ⟨held, hrun⟩
  · let s₁ : Session := { s with doc := d, held := held }
    exact ⟨held, hrun.trans (run_operate r (s := s₁) (hheld sel rfl))⟩

theorem exists_run_apply (pushable : Edit → Prop) (r : Rule) (s : Session) :
    ∃ s', Run pushable s s' ∧ s'.doc = (r.apply s.doc).2 := by
  obtain ⟨held, hrun⟩ := exists_run_queue pushable r s
  unfold Rule.apply
  generalize r.queue s.doc = answer at hrun ⊢
  rcases answer with ⟨e | _, d⟩
  · exact ⟨_, hrun, rfl⟩
  · refine ⟨_, hrun.tail .commit, ?_⟩
    show d.commitWithTally.2 = _
    dsimp only
    rcases d.commitWithTally with ⟨e | tally, d'⟩ <;> rfl

/-- A rule that fails with an error of the document has come to a commit that does. -/
theorem exists_run_of_apply_error (pushable : Edit → Prop) {r : Rule} {s : Session}
    {e : DocumentError} (h : (r.apply s.doc).1 = .error (.document e)) :
    ∃ s', Run pushable s s' ∧ s'.doc.commitWithTally.1 = .error e := by
  obtain ⟨held, hrun⟩ := exists_run_queue pushable r s
  unfold Rule.apply at h
  generalize r.queue s.doc = answer at h hrun
  rcases answer with ⟨cause | _, d⟩
  · cases h
  · refine ⟨_, hrun, ?_⟩
    show d.commitWithTally.1 = _
    dsimp only at h
    generalize d.commitWithTally = outcome at h ⊢
    rcases outcome with ⟨cause | tally, d'⟩
    · cases h
      rfl
    · cases h

/-- **Rules that fail with an error of the document have come to a commit that does.** -/
theorem exists_run_of_applyRules_error (pushable : Edit → Prop) {rules : List Rule} {s : Session}
    {e : DocumentError} (h : (applyRules rules s.doc).1 = .error (.document e)) :
    ∃ s', Run pushable s s' ∧ s'.doc.commitWithTally.1 = .error e := by
  induction rules generalizing s with
  | nil => cases h
  | cons r rules ih =>
      rw [applyRules] at h
      obtain ⟨s₁, hrun₁, hdoc⟩ := exists_run_apply pushable r s
      cases happly : r.apply s.doc with
      | mk outcome d =>
          rw [happly] at h hdoc
          cases outcome with
          | error cause =>
              apply exists_run_of_apply_error pushable
              rw [happly]
              exact h
          | ok _ =>
              obtain ⟨s', hrun, herr⟩ := ih (s := s₁) (hdoc ▸ h)
              exact ⟨s', hrun₁.trans hrun, herr⟩

end Session

/-! ## §4. Edits that come from selections. -/

/-- Every node of the tree lies within the text, with its ends in order and between
characters. -/
def Tree.Fits (t : Text) (tree : Tree) : Prop :=
  ∀ n ∈ (Node.root tree).subtree,
    n.start ≤ n.stop ∧ n.stop ≤ t.length
      ∧ t.isBoundary n.start = true ∧ t.isBoundary n.stop = true

namespace Session

theorem grants_fits :
    Grants (fun _ => False) (fun _ t tree => tree.Fits t) fun t e => e.check t = .ok () where
  push := False.elim
  mutate := by
    intro _ t tree n intent payload htree hn e he
    obtain ⟨horder, hinside, hstart, hstop⟩ := htree n (Node.mem_subtree_root_iff.mpr hn)
    rw [Edit.check_eq_ok_iff]
    rcases Intent.range_of_mem_edit? he with h | h | h
    · obtain ⟨hpos, hend⟩ := Prod.mk.inj h
      rw [hpos, hend]
      exact ⟨hinside, hstart, hstop⟩
    · obtain ⟨hpos, hend⟩ := Prod.mk.inj h
      rw [hpos, hend]
      exact ⟨Nat.le_trans horder hinside, hstart, hstart⟩
    · obtain ⟨hpos, hend⟩ := Prod.mk.inj h
      rw [hpos, hend]
      exact ⟨hinside, hstop, hstop⟩

theorem grants_true {pushable : Edit → Prop} {P : Language → Text → Tree → Prop} :
    Grants pushable P fun _ _ => True where
  push := fun _ => trivial
  mutate := fun _ _ _ _ => trivial

theorem Sound.not_edit_error {P : Language → Text → Tree → Prop} {d₀ : Document} {s : Session}
    (h : s.Sound P (fun t e => e.check t = .ok ()) d₀) (cause : EditError) :
    s.doc.commitWithTally.1 ≠ .error (.edit cause) := by
  intro herr
  cases Document.commitWithTally_eq_error_of_checks h.queue herr

end Session

/-- **Edits that come from selections always commit.**

Suppose that in the trees the parser gives every node lies within the text, with its
ends in order and between characters.

  (1) Whatever is done to a parsed document, as long as edits come to its queue from
      selections alone, a commit does not fail because of an edit; and if the parser
      never fails, it does not fail at all.
  (2) Whatever has been done to a parsed document, pushing edits included, as long as
      no edit waits, running rules on it does not fail because of an edit. -/
theorem selection_edits_commit (parser : Parser)
    (hfits : parser.Yields fun _ t tree => tree.Fits t)
    (lang : Language) (text : Text) (d : Document)
    (hopen : Document.parse parser lang text = .ok d) :
    (∀ s, Session.Run (fun _ => False) (.opened d) s →
      (∀ cause, s.doc.commitWithTally.1 ≠ .error (.edit cause))
      ∧ (∀ cause, s.doc.commit.1 ≠ .error (.edit cause))
      ∧ ((∀ lang old changes t, parser.reparse lang old changes t ≠ none) →
          ∃ tally, s.doc.commitWithTally.1 = .ok tally))
    ∧ (∀ s, Session.Run Edit.Built (.opened d) s → s.doc.queue = [] →
      ∀ rules cause, (applyRules rules s.doc).1 ≠ .error (.document (.edit cause))) := by
  obtain ⟨tree, -, rfl⟩ := Document.parse_eq_ok_iff.mp hopen
  constructor
  · intro s hrun
    have hsound := (Session.sound_opened hfits hopen).run hfits Session.grants_fits hrun
    refine ⟨hsound.not_edit_error, ?_, ?_⟩
    · intro cause h
      exact hsound.not_edit_error cause (Document.commit_eq_error_iff.mp h)
    · intro htotal
      cases hc : s.doc.commitWithTally.1 with
      | ok tally => exact ⟨tally, rfl⟩
      | error err =>
          obtain rfl := Document.commitWithTally_eq_error_of_checks hsound.queue hc
          obtain ⟨-, spliced, -, ht⟩ := Document.commitWithTally_eq_unparsable_iff.mp hc
          rw [hsound.parser] at ht
          exact absurd ht (htotal _ _ _ _)
  · intro s hrun hq rules cause herr
    have hsound := (Session.sound_opened hfits hopen).run hfits Session.grants_true hrun
    -- no edit waits, so all that do fit the text
    have hready : s.Sound (fun _ t tree => tree.Fits t) (fun t e => e.check t = .ok ()) _ :=
      { hsound with queue := by simp [hq] }
    obtain ⟨s', hrun', herr'⟩ := Session.exists_run_of_applyRules_error (fun _ => False) herr
    exact (hready.run hfits Session.grants_fits hrun').not_edit_error cause herr'

theorem fits_oneName (t : Text) : (oneName t).Fits t := by
  simp [Tree.Fits, oneName, Node.root, Node.subtree, Tree.nodesBelow, Tree.nodesAmong,
    Node.start, Node.stop, Node.label, Tree.label, Text.isBoundary_zero, Text.isBoundary_length]

/-- The name `a` is found, to be replaced by a character of two bytes, which can be
committed; and a rule that does the same to it does not fail because of an edit. -/
theorem selection_edits_commit_replaced :
    (∃ s, Session.Run (fun _ => False) (.opened nameDocument) s
      ∧ s.doc.queue = [⟨0, 1, [0xC3, 0xA9]⟩]
      ∧ ∃ tally, s.doc.commitWithTally.1 = .ok tally)
    ∧ ∀ cause,
        (applyRules
          [{ id := "rename", query := .pattern "a", operation := .replace "é" }]
          nameDocument).1 ≠ .error (.document (.edit cause)) := by
  obtain ⟨hcommit, hrules⟩ := selection_edits_commit nameParser
    (nameParser_yields fun _ => fits_oneName) .rust [97] nameDocument rfl
  constructor
  · have hmutate : Session.Step (fun _ => False)
        ((Session.opened nameDocument).query (.pattern "a")) _ :=
      .mutate (held_query_nameDocument ▸ List.mem_singleton_self _) (List.mem_singleton_self _)
        .replace (some [0xC3, 0xA9])
    have hrun := Relation.ReflTransGen.tail (.single (.query (.pattern "a"))) hmutate
    obtain ⟨-, -, hok⟩ := hcommit _ hrun
    exact ⟨_, hrun, rfl, hok fun _ _ _ _ => Option.some_ne_none _⟩
  · exact hrules (.opened nameDocument) .refl rfl _

end StructuralEdit
