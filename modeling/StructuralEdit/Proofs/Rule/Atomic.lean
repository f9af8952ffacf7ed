/-
  StructuralEdit.Proofs.Rule.Atomic
  ─────────────────────────────────
  **A RULE THAT FAILS HAS DONE NOTHING.**

  Scheduling keeps the edits that were queued before its callback failed, so by itself it
  may well leave half of a rule behind.  That rules never do is up to THEIR callback.  Two
  things make it fail,

      a pattern that cannot be compiled          `Rule.Ready.patterns`
      a placeholder that nothing is bound to     `Rule.Ready.names`

  and neither has to do with the node it is asked about.  A node may be passed over before
  either comes to light; but a callback that has given a text has met with neither, and so
  it does not fail at any node after that (`Rule.steady_render`).  Whatever fails, fails
  before the first edit (`queue_scheduleNodes_of_error`).

  From there on it is one induction over the rules: what was queued is committed before
  the next rule runs, so between two rules no edit waits (`queue_applyRules`).
-/
import StructuralEdit.Proofs.Rule.Runs

namespace StructuralEdit

/-! ## §1. Callbacks that fail early or never. -/

/-- Once the callback has given a text its state is `good`, and in a good state it does
not fail. -/
structure Callback.Steady {σ : Type} (callback : Callback σ) (good : σ → Prop) : Prop where
  given : ∀ state n text, (callback state n).1 = .ok (some text) → good (callback state n).2
  kept : ∀ state n, good state → good (callback state n).2
  answers : ∀ state n, good state → ∃ payload, (callback state n).1 = .ok payload

section

variable {σ : Type} {callback : Callback σ} {good : σ → Prop} {intent : Intent}

theorem error_scheduleNodes_of_good (h : callback.Steady good) (ns : List Node)
    (queue : List Edit) {state : σ} (hgood : good state) :
    (scheduleNodes intent callback ns queue state).error = none := by
  induction ns generalizing queue state with
  | nil => rfl
  | cons n ns ih =>
      have hkept := h.kept state n hgood
      obtain ⟨payload, hpayload⟩ := h.answers state n hgood
      rw [scheduleNodes]
      generalize callback state n = answer at hkept hpayload ⊢
      obtain ⟨outcome, state'⟩ := answer
      cases hpayload
      exact ih _ hkept

/-- **Where scheduling fails, no edit has been queued.** -/
theorem queue_scheduleNodes_of_error (h : callback.Steady good)
    (hintent : ∀ n, intent.edit? n none = none) {ns : List Node} {queue : List Edit} {state : σ}
    {e : SelectionError} (herr : (scheduleNodes intent callback ns queue state).error = some e) :
    (scheduleNodes intent callback ns queue state).queue = queue := by
  induction ns generalizing queue state with
  | nil => rfl
  | cons n ns ih =>
      have hgiven := h.given state n
      rw [scheduleNodes] at herr ⊢
      generalize callback state n = answer at hgiven herr ⊢
      obtain ⟨outcome, state'⟩ := answer
      cases outcome with
      | error cause => rfl
      | ok payload =>
          cases payload with
          | none =>
              -- a node that is passed over adds nothing to the queue
              dsimp only at herr ⊢
              rw [hintent n, Option.toList_none, List.append_nil] at herr ⊢
              exact ih herr
          | some text =>
              -- after a text there is no failure
              have hnone : (scheduleNodes intent callback ns
                  (queue ++ (intent.edit? n (some text)).toList) state').error = none :=
                error_scheduleNodes_of_good h ns _ (hgiven text rfl)
              dsimp only at herr
              rw [hnone] at herr
              cases herr

end

/-! ## §2. When a template can be filled in. -/

theorem exists_mapM_eq_ok_iff {ε α β : Type} {f : α → Except ε β} {as : List α} :
    (∃ bs, as.mapM f = .ok bs) ↔ ∀ a ∈ as, ∃ b, f a = .ok b := by
  induction as with
  | nil => simp [pure, Except.pure]
  | cons a as ih =>
      rw [List.forall_mem_cons, ← ih, List.mapM_cons]
      constructor
      · intro ⟨bs, h⟩
        obtain ⟨b, hb, h⟩ := exists_of_bind_eq_ok h
        obtain ⟨bs', hbs, -⟩ := exists_of_bind_eq_ok h
        exact ⟨⟨b, hb⟩, ⟨bs', hbs⟩⟩
      · intro ⟨⟨b, hb⟩, ⟨bs, hbs⟩⟩
        rw [hb, hbs]
        exact ⟨b :: bs, rfl⟩

namespace Template

theorem exists_fill_hole_iff {t : Template} {long : Bool} {name : Text} :
    (∃ text, t.fill (.hole long name) = .ok text) ↔ name ∈ t.bindings.map Prod.fst := by
  rw [fill]
  cases hlookup : t.bindings.lookup name with
  | none =>
      rw [List.lookup_eq_none_iff] at hlookup
      constructor
      · intro ⟨_, h⟩
        cases h
      · intro hmem
        obtain ⟨binding, hbinding, rfl⟩ := List.mem_map.mp hmem
        simpa using hlookup binding hbinding
  | some value =>
      obtain ⟨before, after, hsplit, -⟩ := List.lookup_eq_some_iff.mp hlookup
      refine ⟨fun _ => ?_, fun _ => ⟨value, rfl⟩⟩
      rw [hsplit]
      simp

/-- **A text can be built if every placeholder is bound**, whatever to. -/
theorem exists_build_iff {t : Template} :
    (∃ text, t.build = .ok text)
      ↔ ∀ long name, .hole long name ∈ pieces t.source → name ∈ t.bindings.map Prod.fst := by
  have hbuild : (∃ text, t.build = .ok text) ↔ ∃ texts, (pieces t.source).mapM t.fill = .ok texts := by
    unfold build
    constructor
    · intro ⟨_, h⟩
      obtain ⟨texts, htexts, -⟩ := exists_of_bind_eq_ok h
      exact ⟨texts, htexts⟩
    · intro ⟨texts, htexts⟩
      rw [htexts]
      exact ⟨texts.flatten, rfl⟩
  rw [hbuild, exists_mapM_eq_ok_iff]
  constructor
  · intro h long name hmem
    exact exists_fill_hole_iff.mp (h _ hmem)
  · intro h piece hmem
    cases piece with
    | plain b => exact ⟨[b], rfl⟩
    | hole long name => exact exists_fill_hole_iff.mpr (h long name hmem)

end Template

/-! ## §3. The callback of a rule. -/

/-- A pattern that is asked for inside a node fails if it cannot be compiled, and only then. -/
theorem Document.exists_queryInside_iff {d : Document} {n : Node} {source : String} :
    (∃ sel, (d.queryInside n (.pattern source)).1 = .ok sel)
      ↔ ∃ p, Pattern.compile d.parser d.lang source = .ok p := by
  unfold Document.queryInside
  dsimp only
  rw [Document.search]
  cases Pattern.compile d.parser d.lang source with
  | error e => exact ⟨fun ⟨_, h⟩ => (nomatch h), fun ⟨_, h⟩ => (nomatch h)⟩
  | ok p => exact ⟨fun _ => ⟨p, rfl⟩, fun _ => ⟨_, rfl⟩⟩

namespace Rule

/-- Nothing can go wrong with the template of a rule, at whatever node it is filled in. -/
structure Ready (r : Rule) (template : String) (d : Document) : Prop where
  patterns : ∀ b ∈ r.bindings, ∃ p, Pattern.compile d.parser d.lang b.2 = .ok p
  names : ∀ long name, Piece.hole long name ∈ pieces (Text.ofString template) →
    name = Text.ofString nodeBinding ∨ ∃ b ∈ r.bindings, name = Text.ofString b.1

section

variable {r : Rule} {template : String} {d : Document} {n : Node}

theorem Ready.seen {d' : Document} (h : r.Ready template d) (hseen : d.Seen d') :
    r.Ready template d' := by
  rcases hseen with rfl | rfl
  · exact h
  · exact ⟨h.patterns, h.names⟩

theorem bindAll_of_error {name pattern : String} {rest : List (String × String)} {t : Template}
    {e : SelectionError} (h : (d.queryInside n (.pattern pattern)).1 = .error e) :
    bindAll n ((name, pattern) :: rest) t d = (.error e, d.consulted (.pattern pattern)) := by
  have hdoc : (d.queryInside n (.pattern pattern)).2 = d.consulted (.pattern pattern) := rfl
  rw [bindAll]
  generalize d.queryInside n (.pattern pattern) = answer at h hdoc ⊢
  obtain ⟨outcome, d'⟩ := answer
  obtain rfl : outcome = .error e := h
  obtain rfl : d' = d.consulted (.pattern pattern) := hdoc
  rfl

theorem bindAll_of_ok {name pattern : String} {rest : List (String × String)} {t : Template}
    {found : Selection .derived} (h : (d.queryInside n (.pattern pattern)).1 = .ok found) :
    bindAll n ((name, pattern) :: rest) t d
      = match found.nodes.head? with
        | none => (.ok none, d.consulted (.pattern pattern))
        | some m => bindAll n rest (t.bind (Text.ofString name) (m.text d.text))
            (d.consulted (.pattern pattern)) := by
  have hdoc : (d.queryInside n (.pattern pattern)).2 = d.consulted (.pattern pattern) := rfl
  rw [bindAll]
  generalize d.queryInside n (.pattern pattern) = answer at h hdoc ⊢
  obtain ⟨outcome, d'⟩ := answer
  obtain rfl : outcome = .ok found := h
  obtain rfl : d' = d.consulted (.pattern pattern) := hdoc
  rfl

theorem exists_bindAll_eq_ok {bindings : List (String × String)} (t : Template)
    (h : ∀ b ∈ bindings, ∃ p, Pattern.compile d.parser d.lang b.2 = .ok p) :
    ∃ bound, (bindAll n bindings t d).1 = .ok bound := by
  induction bindings generalizing t d with
  | nil => exact ⟨some t, rfl⟩
  | cons binding rest ih =>
      obtain ⟨hfirst, hrest⟩ := List.forall_mem_cons.mp h
      obtain ⟨found, hfound⟩ := (Document.exists_queryInside_iff (n := n)).mpr hfirst
      rw [bindAll_of_ok hfound]
      cases found.nodes.head? with
      | none => exact ⟨none, rfl⟩
      | some m => exact ih _ hrest

/-- Where all names have been bound, all patterns could be compiled. -/
theorem of_bindAll_eq_some {bindings : List (String × String)} {t t' : Template}
    (h : (bindAll n bindings t d).1 = .ok (some t')) :
    (∀ b ∈ bindings, ∃ p, Pattern.compile d.parser d.lang b.2 = .ok p)
      ∧ t'.source = t.source
      ∧ ∀ name, name ∈ t'.bindings.map Prod.fst
          ↔ name ∈ t.bindings.map Prod.fst ∨ ∃ b ∈ bindings, name = Text.ofString b.1 := by
  induction bindings generalizing t d with
  | nil =>
      cases h
      exact ⟨by simp, rfl, by simp⟩
  | cons binding rest ih =>
      cases hfound : (d.queryInside n (.pattern binding.2)).1 with
      | error e =>
          rw [bindAll_of_error hfound] at h
          cases h
      | ok found =>
          have hfirst := Document.exists_queryInside_iff.mp ⟨found, hfound⟩
          rw [bindAll_of_ok hfound] at h
          cases hhead : found.nodes.head? with
          | none =>
              rw [hhead] at h
              cases h
          | some m =>
              rw [hhead] at h
              obtain ⟨hpatterns, hsource, hnames⟩ := ih h
              refine ⟨List.forall_mem_cons.mpr ⟨hfirst, hpatterns⟩, hsource, ?_⟩
              intro name
              rw [hnames]
              simp only [Template.bind, List.map_cons, List.mem_cons, exists_eq_or_imp]
              rw [or_assoc, or_left_comm]

theorem render_eq (d : Document) (n : Node) :
    (r.render template d n).1
      = match (bindAll n r.bindings
            (({ source := Text.ofString template } : Template).bind (Text.ofString nodeBinding)
              (n.text d.text)) d).1 with
        | .error e => .error e
        | .ok none => .ok none
        | .ok (some t) => some <$> t.build.mapError .template := by
  unfold render
  dsimp only
  split <;> simp_all

theorem ready_of_render_eq_some {text : Text}
    (h : (r.render template d n).1 = .ok (some text)) : r.Ready template d := by
  rw [render_eq] at h
  split at h
  next => cases h
  next => cases h
  next t hbound =>
      obtain ⟨hpatterns, hsource, hnames⟩ := of_bindAll_eq_some hbound
      have hbuild : ∃ text, t.build = .ok text := by
        cases hb : t.build with
        | error e =>
            rw [hb] at h
            cases h
        | ok text => exact ⟨text, rfl⟩
      refine ⟨hpatterns, ?_⟩
      intro long name hmem
      rw [Template.exists_build_iff, hsource] at hbuild
      simpa [Template.bind] using (hnames name).mp (hbuild long name hmem)

theorem Ready.render (h : r.Ready template d) (n : Node) :
    ∃ payload, (r.render template d n).1 = .ok payload := by
  obtain ⟨bound, hbound⟩ := exists_bindAll_eq_ok (n := n)
    (({ source := Text.ofString template } : Template).bind (Text.ofString nodeBinding)
      (n.text d.text)) h.patterns
  rw [render_eq, hbound]
  cases bound with
  | none => exact ⟨none, rfl⟩
  | some t =>
      obtain ⟨-, hsource, hnames⟩ := of_bindAll_eq_some hbound
      have hbuild : ∃ text, t.build = .ok text := by
        rw [Template.exists_build_iff, hsource]
        intro long name hmem
        rw [hnames]
        simpa [Template.bind] using h.names long name hmem
      obtain ⟨text, htext⟩ := hbuild
      refine ⟨some text, ?_⟩
      show some <$> t.build.mapError SelectionError.template = _
      rw [htext]
      rfl

/-- **A rule that has filled its template in once does not fail any more.** -/
theorem steady_render (r : Rule) (template : String) :
    (r.render template).Steady (r.Ready template) where
  given := fun d n _ h => (ready_of_render_eq_some h).seen (r.seen_render template d n)
  kept := fun d n h => h.seen (r.seen_render template d n)
  answers := fun _ n h => h.render n

end

/-! ## §4. One rule. -/

/-- A mutation that fails has queued nothing: at most, the view has been made. -/
theorem seen_schedule_of_error {r : Rule} {d : Document} {sel : Selection .root} {intent : Intent}
    {template : String} (hintent : ∀ n, intent.edit? n none = none) {e : SelectionError}
    (h : (d.schedule sel intent (r.render template) d).1 = .error e) :
    d.Seen { (d.schedule sel intent (r.render template) d).2.1 with
      view := (d.schedule sel intent (r.render template) d).2.2.view } := by
  have herr : (scheduleNodes intent (r.render template) sel.nodes d.queue d).error = some e := by
    unfold Document.schedule Selection.schedule at h
    dsimp only at h
    split at h
    next cause hcause =>
        cases h
        exact hcause
    next => cases h
  have hqueue := queue_scheduleNodes_of_error (r.steady_render template) hintent herr
  have hseen : d.Seen (scheduleNodes intent (r.render template) sel.nodes d.queue d).state :=
    seen_scheduleNodes (r.seen_render template) sel.nodes d.queue d
  show d.Seen { d with
    queue := (scheduleNodes intent (r.render template) sel.nodes d.queue d).queue
    view := (scheduleNodes intent (r.render template) sel.nodes d.queue d).state.view }
  rw [hqueue]
  rcases hseen with hstate | hstate
  · rw [hstate]
    exact Or.inl rfl
  · rw [hstate]
    exact Or.inr rfl

/-- **A rule that fails has queued nothing.** -/
theorem seen_queue_of_error {r : Rule} {d : Document} {e : SelectionError}
    (h : (r.queue d).1 = .error e) : d.Seen (r.queue d).2 := by
  have htargets : d.Seen (r.targets d).2 := d.seen_consulted r.query
  unfold queue at h ⊢
  generalize r.targets d = answer at h htargets ⊢
  obtain ⟨cause | sel, d'⟩ := answer
  · exact htargets
  · refine htargets.trans ?_
    dsimp only at h ⊢
    unfold operate at h ⊢
    split at h
    · cases h
    · exact seen_schedule_of_error (fun _ => rfl) h
    · exact seen_schedule_of_error (fun _ => rfl) h
    · exact seen_schedule_of_error (fun _ => rfl) h

/-- **A rule ends in one of three ways**: its edits cannot be queued, or they cannot be
committed, or they are. -/
theorem apply_cases (r : Rule) (d : Document) :
    (∃ cause, (r.queue d).1 = .error cause
      ∧ r.apply d = (.error (.selection cause), (r.queue d).2))
    ∨ (∃ e, (r.queue d).1 = .ok () ∧ (r.queue d).2.commitWithTally.1 = .error e
      ∧ r.apply d = (.error (.document e), (r.queue d).2.commit.2))
    ∨ ((r.queue d).1 = .ok () ∧ (∃ tally, (r.queue d).2.commitWithTally.1 = .ok tally)
      ∧ r.apply d = (.ok (), (r.queue d).2.commit.2)) := by
  unfold apply Document.commit
  obtain ⟨cause | _, d'⟩ := r.queue d
  · exact Or.inl ⟨cause, rfl, rfl⟩
  · dsimp only
    obtain ⟨e | tally, d''⟩ := d'.commitWithTally
    · exact Or.inr (Or.inl ⟨e, rfl, rfl, rfl⟩)
    · exact Or.inr (Or.inr ⟨rfl, ⟨tally, rfl⟩, rfl⟩)

theorem apply_of_ok {r : Rule} {d : Document} (h : (r.apply d).1 = .ok ()) :
    r.apply d = (.ok (), (r.queue d).2.commit.2) := by
  rcases r.apply_cases d with ⟨cause, -, happly⟩ | ⟨e, -, -, happly⟩ | ⟨-, -, happly⟩
  · rw [happly] at h
    cases h
  · rw [happly] at h
    cases h
  · exact happly

/-- A rule that fails, and not at its commit, has failed to queue its edits. -/
theorem apply_of_error {r : Rule} {d : Document} {e : TransformError}
    (h : (r.apply d).1 = .error e) (hdocument : ∀ cause, (r.apply d).1 ≠ .error (.document cause)) :
    ∃ cause, (r.queue d).1 = .error cause
      ∧ r.apply d = (.error (.selection cause), (r.queue d).2) := by
  rcases r.apply_cases d with hfails | ⟨cause, -, -, happly⟩ | ⟨-, -, happly⟩
  · exact hfails
  · rw [happly] at hdocument
    exact absurd rfl (hdocument cause)
  · rw [happly] at h
    cases h

end Rule

namespace Document

theorem Seen.frame {d d' : Document} (h : d.Seen d') :
    d'.text = d.text ∧ d'.tree = d.tree ∧ d'.touched = d.touched ∧ d'.queue = d.queue := by
  rcases h with rfl | rfl <;> exact ⟨rfl, rfl, rfl, rfl⟩

theorem queue_commit_of_ok {d : Document} {tally : Tally} (h : d.commitWithTally.1 = .ok tally) :
    d.commit.2.queue = [] := by
  have hend := commitWithTally_cases d
  unfold commit
  generalize d.commitWithTally = result at h hend ⊢
  cases hend with
  | empty hq => exact hq
  | fault hq cause hs => cases h
  | unparsable hq s hs ht => cases h
  | done hq s tree hs ht => rfl

/-! ## §5. Rules in turn. -/

/-- The document after the edits of each rule in turn have been queued and committed. -/
def afterRules (d : Document) (rules : List Rule) : Document :=
  rules.foldl (fun d r => (r.queue d).2.commit.2) d

end Document

section

variable {rules before after : List Rule} {r : Rule} {d : Document} {e : TransformError}

/-- **First these rules, then those**, unless one of the first fails. -/
theorem applyRules_append (rules more : List Rule) (d : Document) :
    applyRules (rules ++ more) d
      = match applyRules rules d with
        | (.error e, d') => (.error e, d')
        | (.ok _, d') => applyRules more d' := by
  induction rules generalizing d with
  | nil => rfl
  | cons r rules ih =>
      rw [List.cons_append, applyRules, applyRules]
      obtain ⟨e | _, d'⟩ := r.apply d
      · rfl
      · exact ih d'

theorem applyRules_cons_of_ok (h : (r.apply d).1 = .ok ()) :
    applyRules (r :: rules) d = applyRules rules (r.queue d).2.commit.2 := by
  rw [applyRules, Rule.apply_of_ok h]

theorem applyRules_cons_of_error (h : (r.apply d).1 = .error e) :
    applyRules (r :: rules) d = r.apply d := by
  rw [applyRules]
  generalize r.apply d = result at h ⊢
  obtain ⟨outcome, d'⟩ := result
  obtain rfl : outcome = .error e := h
  rfl

/-- A run that ends well has queued and committed the edits of each rule. -/
theorem applyRules_of_ok (h : (applyRules rules d).1 = .ok ()) :
    (applyRules rules d).2 = d.afterRules rules := by
  induction rules generalizing d with
  | nil => rfl
  | cons r rules ih =>
      cases hr : (r.apply d).1 with
      | error cause =>
          rw [applyRules_cons_of_error hr, hr] at h
          cases h
      | ok _ =>
          rw [applyRules_cons_of_ok hr] at h ⊢
          exact ih h

/-- **Between two rules no edit waits**, if commits do not fail. -/
theorem queue_applyRules (hq : d.queue = [])
    (h : ∀ cause, (applyRules rules d).1 ≠ .error (.document cause)) :
    (applyRules rules d).2.queue = [] := by
  induction rules generalizing d with
  | nil => exact hq
  | cons r rules ih =>
      rw [applyRules] at h ⊢
      rcases r.apply_cases d with
        ⟨cause, hfails, happly⟩ | ⟨cause, -, -, happly⟩ | ⟨-, ⟨tally, htally⟩, happly⟩
      · rw [happly]
        exact (Rule.seen_queue_of_error hfails).frame.2.2.2.trans hq
      · rw [happly] at h
        exact absurd rfl (h cause)
      · rw [happly] at h ⊢
        exact ih (Document.queue_commit_of_ok htally) h

theorem applyRules_of_failure (hbefore : (applyRules before d).1 = .ok ())
    (hr : (r.apply (d.afterRules before)).1 = .error e) :
    applyRules (before ++ r :: after) d = r.apply (d.afterRules before) := by
  have hdone := applyRules_of_ok hbefore
  rw [applyRules_append]
  generalize applyRules before d = result at hbefore hdone ⊢
  obtain ⟨outcome, d'⟩ := result
  obtain rfl : outcome = .ok () := hbefore
  obtain rfl : d' = d.afterRules before := hdone
  exact applyRules_cons_of_error hr

/-- A run that fails has a rule that fails first. -/
theorem exists_first_failure (h : (applyRules rules d).1 = .error e) :
    ∃ before r after, rules = before ++ r :: after
      ∧ (applyRules before d).1 = .ok () ∧ (r.apply (d.afterRules before)).1 = .error e := by
  induction rules generalizing d with
  | nil => cases h
  | cons r rules ih =>
      cases hr : (r.apply d).1 with
      | error cause =>
          rw [applyRules_cons_of_error hr] at h
          exact ⟨[], r, rules, rfl, rfl, h⟩
      | ok _ =>
          rw [applyRules_cons_of_ok hr] at h
          obtain ⟨before, r', after, rfl, hbefore, hr'⟩ := ih h
          refine ⟨r :: before, r', after, rfl, ?_, hr'⟩
          rw [applyRules_cons_of_ok hr]
          exact hbefore

end

/-! ## §6. All or nothing, rule by rule. -/

/-- Whatever is done to the document, as long as edits come to its queue from selections
alone, a commit succeeds. -/
def Document.CommitsSelections (d : Document) : Prop :=
  ∀ s, Session.Run (fun _ => False) (.opened d) s → ∃ tally, s.doc.commitWithTally.1 = .ok tally

theorem Document.CommitsSelections.not_document_error {d : Document} (h : d.CommitsSelections)
    (rules : List Rule) (cause : DocumentError) :
    (applyRules rules d).1 ≠ .error (.document cause) := by
  intro herr
  obtain ⟨s, hrun, hfails⟩ :=
    Session.exists_run_of_applyRules_error (fun _ => False) (s := .opened d) herr
  obtain ⟨tally, htally⟩ := h s hrun
  rw [hfails] at htally
  cases htally

/-- A parsed document commits what selections queue, if the parser never fails and the
nodes of its trees lie in their texts. -/
theorem Document.commitsSelections_of_parse {parser : Parser} {lang : Language} {text : Text}
    {d : Document} (hfits : parser.Yields fun _ t tree => tree.Fits t)
    (htotal : ∀ lang old changes t, parser.reparse lang old changes t ≠ none)
    (hopen : Document.parse parser lang text = .ok d) : d.CommitsSelections := by
  obtain ⟨tree, -, rfl⟩ := Document.parse_eq_ok_iff.mp hopen
  intro s hrun
  have hsound := (Session.sound_opened hfits hopen).run hfits Session.grants_fits hrun
  cases hc : s.doc.commitWithTally.1 with
  | ok tally => exact ⟨tally, rfl⟩
  | error err =>
      obtain rfl := Document.commitWithTally_eq_error_of_checks hsound.queue hc
      obtain ⟨-, spliced, -, ht⟩ := Document.commitWithTally_eq_unparsable_iff.mp hc
      rw [hsound.parser] at ht
      exact absurd ht (htotal _ _ _ _)

/-- **RULES ARE ATOMIC.**  No edit waits in the document, and edits that come from
selections can be committed.

  (1) After a run of rules no edit waits, whether it has failed or not.
  (2) A run that ends well has queued and committed the edits of each rule in turn.
  (3) A run that fails has a rule that is the first to fail, and that is because its
      edits could not be queued.
  (4) What is left then is what the rules before that one have made of the document.
  (5) A run of two lists of rules is a run of the first and, if it ends well, one of the
      second. -/
theorem rules_atomic (rules more : List Rule) (d : Document) (hq : d.queue = [])
    (hcommit : d.CommitsSelections) :
    (applyRules rules d).2.queue = []
    ∧ ((applyRules rules d).1 = .ok () → (applyRules rules d).2 = d.afterRules rules)
    ∧ (∀ e, (applyRules rules d).1 = .error e →
        ∃ before r after cause, rules = before ++ r :: after
          ∧ (applyRules before d).1 = .ok ()
          ∧ (r.queue (d.afterRules before)).1 = .error cause ∧ e = .selection cause)
    ∧ (∀ before r after e, rules = before ++ r :: after →
        (applyRules before d).1 = .ok () → (r.apply (d.afterRules before)).1 = .error e →
        (applyRules rules d).1 = .error e
          ∧ (applyRules rules d).2.text = (d.afterRules before).text
          ∧ (applyRules rules d).2.tree = (d.afterRules before).tree
          ∧ (applyRules rules d).2.touched = (d.afterRules before).touched)
    ∧ applyRules (rules ++ more) d
        = match applyRules rules d with
          | (.error e, d') => (.error e, d')
          | (.ok _, d') => applyRules more d' := by
  have hdocument := hcommit.not_document_error rules
  refine ⟨queue_applyRules hq hdocument, applyRules_of_ok, ?_, ?_, applyRules_append rules more d⟩
  · intro e herr
    obtain ⟨before, r, after, rfl, hbefore, hr⟩ := exists_first_failure herr
    rw [applyRules_of_failure hbefore hr] at hdocument
    obtain ⟨cause, hqueue, happly⟩ := Rule.apply_of_error hr hdocument
    rw [happly] at hr
    exact ⟨before, r, after, cause, rfl, hbefore, hqueue, (Except.error.inj hr).symm⟩
  · intro before r after e hsplit hbefore hr
    subst hsplit
    rw [applyRules_of_failure hbefore hr] at hdocument ⊢
    obtain ⟨cause, hqueue, happly⟩ := Rule.apply_of_error hr hdocument
    obtain ⟨htext, htree, htouched, -⟩ := (Rule.seen_queue_of_error hqueue).frame
    refine ⟨hr, ?_⟩
    rw [happly]
    exact ⟨htext, htree, htouched⟩

/-- The name `a` becomes `b`. -/
def renameRule : Rule :=
  { id := "rename", query := .pattern "a", operation := .replace "b" }

/-- The name `b` is to be followed by something that nobody has bound. -/
def unboundRule : Rule :=
  { id := "extend", query := .pattern "b", operation := .replace "$NODE$X" }

/-- The first rule has been committed, the second one fails, and the third one is not
reached: the name is `b`, and no edit waits. -/
theorem rules_atomic_second_fails :
    (applyRules [renameRule, unboundRule, renameRule] nameDocument).1
        = .error (.selection (.template (.unbound "X")))
      ∧ (applyRules [renameRule, unboundRule, renameRule] nameDocument).2.text = [98]
      ∧ (applyRules [renameRule, unboundRule, renameRule] nameDocument).2.touched = true
      ∧ (applyRules [renameRule, unboundRule, renameRule] nameDocument).2.queue = [] := by
  have hcommit : nameDocument.CommitsSelections :=
    Document.commitsSelections_of_parse (nameParser_yields fun _ => fits_oneName)
      (fun _ _ _ _ => Option.some_ne_none _) rfl
  obtain ⟨hqueue, -, -, hfailure, -⟩ :=
    rules_atomic [renameRule, unboundRule, renameRule] [] nameDocument rfl hcommit
  obtain ⟨herr, htext, -, htouched⟩ := hfailure [renameRule] unboundRule [renameRule]
    (.selection (.template (.unbound "X"))) rfl rfl rfl
  exact ⟨herr, htext, htouched, hqueue⟩

end StructuralEdit
