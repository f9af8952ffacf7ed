/-
  StructuralEdit.Proofs.Document.Commit
  ─────────────────────────────────────
  **A COMMIT HAPPENS AS A WHOLE OR NOT AT ALL.**

  A commit goes through several steps, and each of them could leave a document
  that is half old and half new.  None does: both steps that can fail come before
  the first that changes anything, so there are four ways for a commit to end
  (`commitWithTally_cases`):

      the queue is empty                  ok,      the document as it was
      an edit does not fit the text       error,   the document as it was
      the parser fails                    error,   the document as it was
      otherwise                           ok,      text, tree, view, queue and
                                                   mark all new (`committed`)

  Which edit is complained about, and of what, is fixed by the order of the queue
  (`FirstFault`).
-/
import StructuralEdit.Document
import StructuralEdit.Proofs.Splice.Fate

namespace StructuralEdit

/-! ## §1. What is wrong with a batch. -/

/-- The cause that speaks against splicing the edit into `t`.  The end of the text
comes before the boundaries, and the start of the range before its end. -/
inductive Edit.Fault (t : Text) (e : Edit) : EditError → Prop where
  | beyond (hlong : t.length < e.stop) : Fault t e (.outOfBounds e.pos e.stop t.length)
  | start (hinside : e.stop ≤ t.length) (hpos : t.isBoundary e.pos = false) :
      Fault t e (.insideCharacter e.pos)
  | stop (hinside : e.stop ≤ t.length) (hpos : t.isBoundary e.pos = true)
      (hstop : t.isBoundary e.stop = false) : Fault t e (.insideCharacter e.stop)

theorem Edit.check_eq_error_iff {t : Text} {e : Edit} {cause : EditError} :
    e.check t = .error cause ↔ e.Fault t cause := by
  unfold Edit.check
  constructor
  · intro h
    split at h
    next hlong =>
      cases h
      exact .beyond hlong
    next hinside =>
      split at h
      next hpos =>
        cases h
        exact .start (by omega) (by simpa using hpos)
      next hpos =>
        split at h
        next hstop =>
          cases h
          exact .stop (by omega) (by simpa using hpos) (by simpa using hstop)
        next => cases h
  · intro h
    cases h with
    | beyond hlong => rw [if_pos hlong]
    | start hinside hpos => rw [if_neg (by omega), if_pos (by simp [hpos])]
    | stop hinside hpos hstop =>
        rw [if_neg (by omega), if_neg (by simp [hpos]), if_pos (by simp [hstop])]

/-- An edit of the batch has a fault, every edit before it has none, and `cause` is
that fault. -/
def FirstFault (t : Text) (edits : List Edit) (cause : EditError) : Prop :=
  ∃ before e after, edits = before ++ e :: after
    ∧ (∀ k ∈ before, k.check t = .ok ()) ∧ e.Fault t cause

theorem firstFault_cons_of_ok {t : Text} {k : Edit} (hk : k.check t = .ok ()) {edits : List Edit}
    {cause : EditError} (h : FirstFault t edits cause) : FirstFault t (k :: edits) cause := by
  obtain ⟨before, e, after, rfl, hbefore, hfault⟩ := h
  refine ⟨k :: before, e, after, rfl, ?_, hfault⟩
  intro b hb
  rcases List.mem_cons.mp hb with rfl | hb
  · exact hk
  · exact hbefore b hb

/-- A batch either passes its checks or has a first fault. -/
theorem checks_or_firstFault (t : Text) (edits : List Edit) :
    (∀ e ∈ edits, e.check t = .ok ()) ∨ ∃ cause, FirstFault t edits cause := by
  induction edits with
  | nil => exact Or.inl (by simp)
  | cons k edits ih =>
      cases hk : k.check t with
      | error cause =>
          exact Or.inr ⟨cause, [], k, edits, rfl, by simp, Edit.check_eq_error_iff.mp hk⟩
      | ok u =>
          cases u
          rcases ih with hall | ⟨cause, hfault⟩
          · exact Or.inl (List.forall_mem_cons.mpr ⟨hk, hall⟩)
          · exact Or.inr ⟨cause, firstFault_cons_of_ok hk hfault⟩

theorem forM_check_eq_error {t : Text} {before after : List Edit} {e : Edit} {cause : EditError}
    (hbefore : ∀ k ∈ before, k.check t = .ok ()) (hfault : e.Fault t cause) :
    (before ++ e :: after).forM (Edit.check t) = .error cause := by
  induction before with
  | nil =>
      show (do Edit.check t e; after.forM (Edit.check t)) = _
      rw [Edit.check_eq_error_iff.mpr hfault]
      rfl
  | cons k before ih =>
      show (do Edit.check t k; (before ++ e :: after).forM (Edit.check t)) = _
      rw [hbefore k List.mem_cons_self]
      exact ih fun b hb => hbefore b (List.mem_cons_of_mem k hb)

theorem splice_eq_error_of_firstFault {t : Text} {edits : List Edit} {cause : EditError}
    (h : FirstFault t edits cause) : splice t edits = .error cause := by
  obtain ⟨before, e, after, rfl, hbefore, hfault⟩ := h
  unfold splice
  rw [forM_check_eq_error hbefore hfault]
  rfl

theorem splice_eq_error_iff {t : Text} {edits : List Edit} {cause : EditError} :
    splice t edits = .error cause ↔ FirstFault t edits cause := by
  constructor
  · intro h
    rcases checks_or_firstFault t edits with hall | ⟨first, hfault⟩
    · rw [splice_eq_ok hall] at h
      cases h
    · rw [splice_eq_error_of_firstFault hfault] at h
      cases h
      exact hfault
  · exact splice_eq_error_of_firstFault

/-- **A batch is refused exactly if one of its edits ends beyond the text or has an
end inside a character.** -/
theorem exists_firstFault_iff {t : Text} {edits : List Edit} :
    (∃ cause, FirstFault t edits cause) ↔
      ∃ e ∈ edits, t.length < e.stop ∨ t.isBoundary e.pos = false
        ∨ t.isBoundary e.stop = false := by
  constructor
  · intro h
    obtain ⟨cause, before, e, after, rfl, -, hfault⟩ := h
    refine ⟨e, List.mem_append_right before List.mem_cons_self, ?_⟩
    cases hfault with
    | beyond hlong => exact Or.inl hlong
    | start _ hpos => exact Or.inr (Or.inl hpos)
    | stop _ _ hstop => exact Or.inr (Or.inr hstop)
  · intro h
    obtain ⟨e, he, hbad⟩ := h
    rcases checks_or_firstFault t edits with hall | hfault
    · obtain ⟨hinside, hpos, hstop⟩ := Edit.check_eq_ok_iff.mp (hall e he)
      rw [hpos, hstop] at hbad
      simp only [reduceCtorEq, or_self, or_false] at hbad
      omega
    · exact hfault

/-! ## §2. Steps one after the other. -/

namespace Document

/-- Steps that may fail and may change the document. -/
abbrev Steps (α : Type) := ExceptT DocumentError (StateM Document) α

variable {α β : Type}

theorem run_bind (x : Steps α) (f : α → Steps β) (d : Document) :
    (x >>= f).run.run d =
      match x.run.run d with
      | (.ok a, d') => (f a).run.run d'
      | (.error e, d') => (.error e, d') := by
  show (match x d with | (a, d') => (ExceptT.bindCont f a) d') =
    match x d with
    | (.ok a, d') => (f a) d'
    | (.error e, d') => (.error e, d')
  rcases x d with ⟨e | a, d'⟩ <;> rfl

theorem run_get (d : Document) : (get : Steps Document).run.run d = (.ok d, d) := rfl

theorem run_pure (a : α) (d : Document) : (pure a : Steps α).run.run d = (.ok a, d) := rfl

theorem run_modify (f : Document → Document) (d : Document) :
    (modify f : Steps PUnit).run.run d = (.ok ⟨⟩, f d) := rfl

theorem run_liftExcept (x : Except DocumentError α) (d : Document) :
    (liftExcept x : Steps α).run.run d = (x, d) := by
  cases x <;> rfl

/-! ## §3. The four ways for a commit to end. -/

/-- The document after its queue has been spliced into its text with this outcome,
of which `tree` is the tree. -/
def committed (d : Document) (s : Splice) (tree : Tree) : Document :=
  { d with text := s.text, tree := tree, view := none, queue := [], touched := true }

variable {d : Document}

theorem commitWithTally_of_empty (hq : d.queue = []) : d.commitWithTally = (.ok {}, d) := by
  unfold commitWithTally commitSteps
  rw [run_bind, run_get]
  simp only [hq]
  rfl

theorem spliced_of_error {cause : EditError} (hs : splice d.text d.queue = .error cause) :
    d.spliced = .error (.edit cause) := by
  unfold spliced
  rw [hs]
  rfl

theorem spliced_of_ok {s : Splice} (hs : splice d.text d.queue = .ok s) : d.spliced = .ok s := by
  unfold spliced
  rw [hs]
  rfl

theorem commitWithTally_of_fault (hq : d.queue ≠ []) {cause : EditError}
    (hs : splice d.text d.queue = .error cause) :
    d.commitWithTally = (.error (.edit cause), d) := by
  have hfull : d.queue.isEmpty = false := by simpa using hq
  unfold commitWithTally commitSteps
  simp only [run_bind, run_get, run_liftExcept, hfull, spliced_of_error hs, Bool.false_eq_true,
    if_false]

theorem commitWithTally_of_unparsable (hq : d.queue ≠ []) {s : Splice}
    (hs : splice d.text d.queue = .ok s)
    (ht : d.parser.reparse d.lang d.tree s.changes s.text = none) :
    d.commitWithTally = (.error .unparsable, d) := by
  have hfull : d.queue.isEmpty = false := by simpa using hq
  unfold commitWithTally commitSteps
  simp only [run_bind, run_get, run_liftExcept, hfull, spliced_of_ok hs, reparse, ht,
    Bool.false_eq_true, if_false]

theorem commitWithTally_of_parsed (hq : d.queue ≠ []) {s : Splice} {tree : Tree}
    (hs : splice d.text d.queue = .ok s)
    (ht : d.parser.reparse d.lang d.tree s.changes s.text = some tree) :
    d.commitWithTally = (.ok s.tally, d.committed s tree) := by
  have hfull : d.queue.isEmpty = false := by simpa using hq
  unfold commitWithTally commitSteps committed
  simp only [run_bind, run_get, run_modify, run_pure, run_liftExcept, hfull, spliced_of_ok hs,
    reparse, ht, Bool.false_eq_true, if_false]

/-- How a commit of `d` may end, with what it reports and the document after it. -/
inductive CommitEnd (d : Document) : Except DocumentError Tally × Document → Prop where
  | empty (hq : d.queue = []) : CommitEnd d (.ok {}, d)
  | fault (hq : d.queue ≠ []) (cause : EditError) (hs : splice d.text d.queue = .error cause) :
      CommitEnd d (.error (.edit cause), d)
  | unparsable (hq : d.queue ≠ []) (s : Splice) (hs : splice d.text d.queue = .ok s)
      (ht : d.parser.reparse d.lang d.tree s.changes s.text = none) :
      CommitEnd d (.error .unparsable, d)
  | done (hq : d.queue ≠ []) (s : Splice) (tree : Tree) (hs : splice d.text d.queue = .ok s)
      (ht : d.parser.reparse d.lang d.tree s.changes s.text = some tree) :
      CommitEnd d (.ok s.tally, d.committed s tree)

/-- **A commit ends in one of four ways.** -/
theorem commitWithTally_cases (d : Document) : CommitEnd d d.commitWithTally := by
  by_cases hq : d.queue = []
  · rw [commitWithTally_of_empty hq]
    exact .empty hq
  · cases hs : splice d.text d.queue with
    | error cause =>
        rw [commitWithTally_of_fault hq hs]
        exact .fault hq cause hs
    | ok s =>
        cases ht : d.parser.reparse d.lang d.tree s.changes s.text with
        | none =>
            rw [commitWithTally_of_unparsable hq hs ht]
            exact .unparsable hq s hs ht
        | some tree =>
            rw [commitWithTally_of_parsed hq hs ht]
            exact .done hq s tree hs ht

end Document

/-! ## §4. All or nothing. -/

/-- Every edit of a batch that is spliced is accounted for. -/
theorem tally_add_of_splice {t : Text} {edits : List Edit} {s : Splice}
    (h : splice t edits = .ok s) : s.tally.applied + s.tally.dropped = edits.length := by
  rcases checks_or_firstFault t edits with hall | ⟨cause, hfault⟩
  · rw [splice_eq_ok hall] at h
    cases h
    rw [tally_spliceValid]
    exact length_appliedQueue_add t edits
  · rw [splice_eq_error_of_firstFault hfault] at h
    cases h

namespace Document

theorem commitWithTally_eq_edit_error_iff {d : Document} {cause : EditError} :
    d.commitWithTally.1 = .error (.edit cause) ↔ FirstFault d.text d.queue cause := by
  rw [← splice_eq_error_iff]
  have hend := commitWithTally_cases d
  generalize d.commitWithTally = r at hend
  cases hend with
  | empty hq =>
      rw [hq, splice_eq_ok (by simp)]
      simp
  | fault hq first hs => simp [hs]
  | unparsable hq s hs ht => simp [hs]
  | done hq s tree hs ht => simp [hs]

theorem commitWithTally_eq_unparsable_iff {d : Document} :
    d.commitWithTally.1 = .error .unparsable ↔
      d.queue ≠ [] ∧ ∃ s, splice d.text d.queue = .ok s
        ∧ d.parser.reparse d.lang d.tree s.changes s.text = none := by
  have hend := commitWithTally_cases d
  generalize d.commitWithTally = r at hend
  cases hend with
  | empty hq => simp [hq]
  | fault hq cause hs => simp [hs]
  | unparsable hq s hs ht => simp [hq, hs, ht]
  | done hq s tree hs ht => simp [hs, ht]

/-- Only the two steps that can fail give errors, and they leave the document alone. -/
theorem commitWithTally_of_error {d : Document} {err : DocumentError}
    (h : d.commitWithTally.1 = .error err) :
    ((∃ cause, err = .edit cause) ∨ err = .unparsable) ∧ d.commitWithTally.2 = d := by
  have hend := commitWithTally_cases d
  generalize d.commitWithTally = r at h hend
  cases hend with
  | empty hq => cases h
  | fault hq cause hs =>
      cases h
      exact ⟨Or.inl ⟨cause, rfl⟩, rfl⟩
  | unparsable hq s hs ht =>
      cases h
      exact ⟨Or.inr rfl, rfl⟩
  | done hq s tree hs ht => cases h

theorem commitWithTally_of_ok {d : Document} {tally : Tally} (h : d.commitWithTally.1 = .ok tally)
    (hq : d.queue ≠ []) :
    ∃ s tree, splice d.text d.queue = .ok s
      ∧ d.parser.reparse d.lang d.tree s.changes s.text = some tree
      ∧ tally = s.tally ∧ d.commitWithTally.2 = d.committed s tree := by
  have hend := commitWithTally_cases d
  generalize d.commitWithTally = r at h hend
  cases hend with
  | empty hempty => exact absurd hempty hq
  | fault _ cause hs => cases h
  | unparsable _ s hs ht => cases h
  | done _ s tree hs ht =>
      cases h
      exact ⟨s, tree, hs, ht, rfl, rfl⟩

/-- With edits in the queue that all fit the text, only the parser can make a commit fail. -/
theorem commitWithTally_eq_error_of_checks {d : Document}
    (h : ∀ e ∈ d.queue, e.check d.text = .ok ()) {err : DocumentError}
    (herr : d.commitWithTally.1 = .error err) : err = .unparsable := by
  rcases (commitWithTally_of_error herr).1 with ⟨cause, rfl⟩ | rfl
  · have hs := splice_eq_error_iff.mpr (commitWithTally_eq_edit_error_iff.mp herr)
    rw [splice_eq_ok h] at hs
    cases hs
  · rfl

theorem commit_eq_error_iff {d : Document} {err : DocumentError} :
    d.commit.1 = .error err ↔ d.commitWithTally.1 = .error err := by
  show d.commitWithTally.1.map (fun _ => ()) = _ ↔ _
  cases d.commitWithTally.1 <;> simp [Except.map]

/-- **A commit happens as a whole or not at all.**

  (1) With an empty queue it reports zeros and changes nothing.
  (2) It fails exactly if an edit of the queue ends beyond the text or has an end
      inside a character, or else if the parser fails on the spliced text.
  (3) The edit error it fails with is that of the first edit at fault.
  (4) When it fails, the document is the one from before: text, tree, view, queue
      and mark.
  (5) When it succeeds with edits in the queue, the text is the spliced one, the tree
      is its tree, the view and the queue are gone, the mark is set, and the two
      counts add up to the number of edits there were.
  (6) The commit without counts leaves the same document and fails alike. -/
theorem commit_all_or_nothing (d : Document) :
    (d.queue = [] → d.commitWithTally = (.ok { applied := 0, dropped := 0 }, d))
    ∧ ((∃ err, d.commitWithTally.1 = .error err) ↔
        (∃ e ∈ d.queue, d.text.length < e.stop ∨ d.text.isBoundary e.pos = false
          ∨ d.text.isBoundary e.stop = false)
        ∨ (d.queue ≠ [] ∧ ∃ s, splice d.text d.queue = .ok s
            ∧ d.parser.reparse d.lang d.tree s.changes s.text = none))
    ∧ (∀ cause, d.commitWithTally.1 = .error (.edit cause) ↔ FirstFault d.text d.queue cause)
    ∧ (∀ err, d.commitWithTally.1 = .error err → d.commitWithTally.2 = d)
    ∧ (∀ tally, d.commitWithTally.1 = .ok tally → d.queue ≠ [] →
        (∃ s tree, splice d.text d.queue = .ok s
          ∧ d.parser.reparse d.lang d.tree s.changes s.text = some tree
          ∧ d.commitWithTally.2 =
              { d with text := s.text, tree := tree, view := none, queue := [], touched := true })
        ∧ tally.applied + tally.dropped = d.queue.length)
    ∧ d.commit = (d.commitWithTally.1.map (fun _ => ()), d.commitWithTally.2) := by
  refine ⟨commitWithTally_of_empty, ⟨?_, ?_⟩, fun _ => commitWithTally_eq_edit_error_iff,
    fun _ h => (commitWithTally_of_error h).2, ?_, rfl⟩
  · intro h
    obtain ⟨err, herr⟩ := h
    rcases (commitWithTally_of_error herr).1 with ⟨cause, rfl⟩ | rfl
    · exact Or.inl (exists_firstFault_iff.mp ⟨cause, commitWithTally_eq_edit_error_iff.mp herr⟩)
    · exact Or.inr (commitWithTally_eq_unparsable_iff.mp herr)
  · intro h
    rcases h with hbad | hparse
    · obtain ⟨cause, hfault⟩ := exists_firstFault_iff.mpr hbad
      exact ⟨.edit cause, commitWithTally_eq_edit_error_iff.mpr hfault⟩
    · exact ⟨.unparsable, commitWithTally_eq_unparsable_iff.mpr hparse⟩
  · intro tally h hq
    obtain ⟨s, tree, hs, ht, rfl, hd⟩ := commitWithTally_of_ok h hq
    exact ⟨⟨s, tree, hs, ht, hd⟩, tally_add_of_splice hs⟩

/-- A letter and a character of two bytes, with three edits that wait: one that fits,
one that ends beyond the text and one inside the character. -/
def mixedBatch : Document :=
  { parser := .afresh fun _ _ => none
    lang := .rust
    text := [97, 0xC3, 0xA9]
    tree := .node { kind := "source_file", start := 0, stop := 3 } []
    queue := [⟨0, 1, [98]⟩, ⟨1, 9, []⟩, ⟨2, 2, [99]⟩] }

/-- The second edit is the one complained about, and all three go on waiting. -/
theorem commit_all_or_nothing_mixedBatch :
    mixedBatch.commitWithTally.1 = .error (.edit (.outOfBounds 1 9 3))
      ∧ mixedBatch.commitWithTally.2.queue = [⟨0, 1, [98]⟩, ⟨1, 9, []⟩, ⟨2, 2, [99]⟩]
      ∧ mixedBatch.commitWithTally.2.touched = false := by
  obtain ⟨-, -, hcause, hsame, -, -⟩ := commit_all_or_nothing mixedBatch
  have hfault : FirstFault mixedBatch.text mixedBatch.queue (.outOfBounds 1 9 3) :=
    ⟨[⟨0, 1, [98]⟩], ⟨1, 9, []⟩, [⟨2, 2, [99]⟩], rfl,
      List.forall_mem_singleton.mpr rfl, .beyond (by decide)⟩
  have herr := (hcause _).mpr hfault
  rw [hsame _ herr]
  exact ⟨herr, rfl, rfl⟩

end Document

end StructuralEdit
