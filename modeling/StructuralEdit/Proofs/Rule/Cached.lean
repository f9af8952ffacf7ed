/-
  StructuralEdit.Proofs.Rule.Cached
  ─────────────────────────────────
  **RULES RUN THE SAME WITH AND WITHOUT THEIR QUERIES KEPT.**

  At a `Desk` whose caches are in order, every stage of a rule gives the outcome and leaves
  the document that it gives and leaves where every query is compiled afresh, and the
  caches are in order after it (`Desk.Mirrors`).  That is shown of the one stage that asks
  the caches (`search_of_sound`) and handed on from stage to stage:

      query, queryInside  →  bindAll  →  render  →  operate  →  queue  →  apply  →  applyRules

  The caches may be filled and emptied in the midst of a template; no stage can tell.
-/
import StructuralEdit.Rule.Cached
import StructuralEdit.Proofs.CachedCompilation
import StructuralEdit.Proofs.Document.Commit

namespace StructuralEdit

namespace Document

theorem parser_consulted (d : Document) (q : QueryText) : (d.consulted q).parser = d.parser := by
  cases q <;> rfl

theorem parser_commitWithTally (d : Document) : d.commitWithTally.2.parser = d.parser := by
  have hend := d.commitWithTally_cases
  generalize d.commitWithTally = result at hend
  cases hend <;> rfl

end Document

namespace Desk

variable {α : Type} {parser : Parser} {k : Desk}

/-! ## §1. Desks in order. -/

/-- The document is parsed by the parser, and the caches hold what would be compiled with
it. -/
structure Sound (parser : Parser) (k : Desk) : Prop where
  parsed : k.doc.parser = parser
  compiled : k.compiled.Sound parser

/-- The outcome and the document are those of a run without caches, and the desk is in
order. -/
inductive Mirrors (parser : Parser) : α × Desk → α × Document → Prop where
  | intro (outcome : α) (k : Desk) (hk : k.Sound parser) :
      Mirrors parser (outcome, k) (outcome, k.doc)

theorem Sound.with_doc (hk : k.Sound parser) {d : Document} (hd : d.parser = k.doc.parser) :
    Sound parser { k with doc := d } :=
  ⟨hd.trans hk.parsed, hk.compiled⟩

/-! ## §2. Queries. -/

/-- The caches are asked here, and here alone. -/
theorem search_of_sound (hk : k.Sound parser) (scope : Node) (q : QueryText) :
    (k.search scope q).1 = k.doc.search scope q ∧ (k.search scope q).2.Sound parser := by
  obtain ⟨rfl, hcompiled⟩ := hk
  cases q with
  | pattern source =>
      obtain ⟨hanswer, hkept⟩ := hcompiled.pattern k.doc.lang source
      refine ⟨?_, hkept⟩
      unfold Document.search
      dsimp only
      rw [← hanswer]
      rfl
  | tree source =>
      obtain ⟨hanswer, hkept⟩ := hcompiled.query k.doc.lang source
      refine ⟨?_, hkept⟩
      unfold Document.search
      dsimp only
      rw [← hanswer]
      rfl

theorem mirrors_query (hk : k.Sound parser) (q : QueryText) :
    Mirrors parser (k.query q) (k.doc.query q) := by
  obtain ⟨hanswer, hkept⟩ := search_of_sound hk k.doc.root q
  unfold query Document.query
  rw [← hanswer]
  exact .intro _ _ ⟨(Document.parser_consulted k.doc q).trans hk.parsed, hkept⟩

theorem mirrors_queryInside (hk : k.Sound parser) (n : Node) (q : QueryText) :
    Mirrors parser (k.queryInside n q) (k.doc.queryInside n q) := by
  obtain ⟨hanswer, hkept⟩ := search_of_sound hk n q
  unfold queryInside Document.queryInside
  rw [← hanswer]
  exact .intro _ _ ⟨(Document.parser_consulted k.doc q).trans hk.parsed, hkept⟩

/-! ## §3. One rule. -/

theorem mirrors_bindAll (hk : k.Sound parser) (n : Node) (bindings : List (String × String))
    (t : Template) : Mirrors parser (bindAll n bindings t k) (Rule.bindAll n bindings t k.doc) := by
  induction bindings generalizing t k with
  | nil => exact .intro _ _ hk
  | cons binding rest ih =>
      obtain ⟨name, pattern⟩ := binding
      have hquery := mirrors_queryInside hk n (.pattern pattern)
      unfold bindAll Rule.bindAll
      generalize k.queryInside n (.pattern pattern) = kept at hquery ⊢
      generalize k.doc.queryInside n (.pattern pattern) = fresh at hquery ⊢
      obtain ⟨outcome, k', hk'⟩ := hquery
      cases outcome with
      | error e => exact .intro _ _ hk'
      | ok found =>
          dsimp only
          cases found.nodes.head? with
          | none => exact .intro _ _ hk'
          | some m => exact ih hk' _

theorem mirrors_render (hk : k.Sound parser) (r : Rule) (template : String) (n : Node) :
    Mirrors parser (render r template k n) (r.render template k.doc n) := by
  have hbind := mirrors_bindAll hk n r.bindings
    (Template.bind { source := Text.ofString template } (Text.ofString nodeBinding)
      (n.text k.doc.text))
  unfold render Rule.render
  dsimp only
  generalize bindAll n r.bindings _ k = kept at hbind ⊢
  generalize Rule.bindAll n r.bindings _ k.doc = fresh at hbind ⊢
  obtain ⟨outcome, k', hk'⟩ := hbind
  cases outcome with
  | error e => exact .intro _ _ hk'
  | ok bound =>
      cases bound with
      | none => exact .intro _ _ hk'
      | some t => exact .intro _ _ hk'

/-- Scheduling with callbacks that mirror each other. -/
theorem mirrors_scheduleNodes {intent : Intent} {callback : Callback Desk}
    {callback' : Callback Document}
    (hcallback : ∀ {k : Desk}, k.Sound parser → ∀ n,
      Mirrors parser (callback k n) (callback' k.doc n))
    (hk : k.Sound parser) (ns : List Node) (queue : List Edit) :
    let kept := scheduleNodes intent callback ns queue k
    let fresh := scheduleNodes intent callback' ns queue k.doc
    kept.queue = fresh.queue ∧ Mirrors parser (kept.error, kept.state) (fresh.error, fresh.state) := by
  induction ns generalizing queue k with
  | nil => exact ⟨rfl, .intro _ _ hk⟩
  | cons n rest ih =>
      have hn := hcallback hk n
      unfold scheduleNodes
      generalize callback k n = kept at hn ⊢
      generalize callback' k.doc n = fresh at hn ⊢
      obtain ⟨outcome, k', hk'⟩ := hn
      cases outcome with
      | error e => exact ⟨rfl, .intro _ _ hk'⟩
      | ok payload => exact ih hk' _

theorem mirrors_targets (hk : k.Sound parser) (r : Rule) :
    Mirrors parser (targets r k) (r.targets k.doc) := by
  have hquery := mirrors_query hk r.query
  unfold targets Rule.targets
  generalize k.query r.query = kept at hquery ⊢
  generalize k.doc.query r.query = fresh at hquery ⊢
  obtain ⟨outcome, k', hk'⟩ := hquery
  exact .intro _ _ hk'

theorem mirrors_schedule (hk : k.Sound parser) (r : Rule) (s : Selection .root) (intent : Intent)
    (template : String) :
    let kept := k.doc.schedule s intent (render r template) k
    let fresh := k.doc.schedule s intent (r.render template) k.doc
    Mirrors parser
      (kept.1, ⟨{ kept.2.1 with view := kept.2.2.doc.view }, kept.2.2.compiled⟩)
      (fresh.1, { fresh.2.1 with view := fresh.2.2.view }) := by
  obtain ⟨hqueue, hend⟩ := @mirrors_scheduleNodes parser k intent (render r template)
    (r.render template) (fun hk n => mirrors_render hk r template n) hk s.nodes k.doc.queue
  unfold Document.schedule Selection.schedule
  generalize scheduleNodes intent (render r template) s.nodes k.doc.queue k = kept at hqueue hend ⊢
  generalize scheduleNodes intent (r.render template) s.nodes k.doc.queue k.doc = fresh
    at hqueue hend ⊢
  obtain ⟨queue, k', error⟩ := kept
  obtain ⟨queue', d', error'⟩ := fresh
  obtain rfl : queue = queue' := hqueue
  obtain ⟨error, k', hk'⟩ := hend
  -- what the callback has seen is all that it leaves of its document
  exact .intro _ _ ⟨hk.parsed, hk'.compiled⟩

theorem mirrors_operate (hk : k.Sound parser) (r : Rule) (s : Selection .root) :
    Mirrors parser (operate r k s) (r.operate k.doc s) := by
  unfold operate Rule.operate
  cases r.operation with
  | remove => exact .intro _ _ (hk.with_doc rfl)
  | prepend template => exact mirrors_schedule hk r s .prepend template
  | append template => exact mirrors_schedule hk r s .append template
  | replace template => exact mirrors_schedule hk r s .replace template

theorem mirrors_queue (hk : k.Sound parser) (r : Rule) :
    Mirrors parser (queue r k) (r.queue k.doc) := by
  have htargets := mirrors_targets hk r
  unfold queue Rule.queue
  generalize targets r k = kept at htargets ⊢
  generalize r.targets k.doc = fresh at htargets ⊢
  obtain ⟨outcome, k', hk'⟩ := htargets
  cases outcome with
  | error e => exact .intro _ _ hk'
  | ok s => exact mirrors_operate hk' r s

theorem mirrors_apply (hk : k.Sound parser) (r : Rule) :
    Mirrors parser (apply r k) (r.apply k.doc) := by
  have hqueue := mirrors_queue hk r
  unfold apply Rule.apply
  generalize queue r k = kept at hqueue ⊢
  generalize r.queue k.doc = fresh at hqueue ⊢
  obtain ⟨outcome, k', hk'⟩ := hqueue
  cases outcome with
  | error e => exact .intro _ _ hk'
  | ok _ =>
      dsimp only
      -- both commit the same document, and the caches are not asked
      have hparser := Document.parser_commitWithTally k'.doc
      generalize k'.doc.commitWithTally = committed at hparser ⊢
      obtain ⟨e | tally, d⟩ := committed
      · exact .intro _ _ (hk'.with_doc hparser)
      · exact .intro _ _ (hk'.with_doc hparser)

/-! ## §4. Rules in turn. -/

/-- **Rules run the same with and without their queries kept.** -/
theorem mirrors_applyRules (hk : k.Sound parser) (rules : List Rule) :
    Mirrors parser (applyRules rules k) (StructuralEdit.applyRules rules k.doc) := by
  induction rules generalizing k with
  | nil => exact .intro _ _ hk
  | cons r rest ih =>
      have happly := mirrors_apply hk r
      unfold applyRules StructuralEdit.applyRules
      generalize apply r k = kept at happly ⊢
      generalize r.apply k.doc = fresh at happly ⊢
      obtain ⟨outcome, k', hk'⟩ := happly
      cases outcome with
      | error e => exact .intro _ _ hk'
      | ok _ => exact ih hk'

end Desk

end StructuralEdit
