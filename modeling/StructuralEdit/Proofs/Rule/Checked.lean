/-
  StructuralEdit.Proofs.Rule.Checked
  ──────────────────────────────────
  **A RULE FILE THAT PASSES ITS CHECK HAS ALL ITS PLACEHOLDERS BOUND.**

  The check of a rule file reads each template once, when the file is loaded; the rules
  read it again for every node.  In between lie the names that a rule binds, and they are
  the same names (`Rule.Checked`):

      checked     a placeholder is `NODE`, or one of the names;  no name is `NODE`
      bound       `NODE` first, then each name in turn; a later value hides an earlier one

  So nothing is left unbound when a template is filled in (`sparesTemplates_render`), and
  since no name hides `NODE`, what stands for it is the text of the node that is edited
  (`Checked.filledIn`).  The rest follows that text into the queue and from there into
  the document.
-/
import StructuralEdit.Rule.Issue
import StructuralEdit.Proofs.Rule.Atomic
import StructuralEdit.Proofs.Template.Placeholders

namespace StructuralEdit

/-! ## §1. What the check of a rule file promises. -/

namespace Rule

/-- No name is bound in place of the node's own, and every placeholder of the template,
if there is one, is the node's or bound. -/
structure Checked (r : Rule) : Prop where
  unreserved : ∀ b ∈ r.bindings, b.1 ≠ nodeBinding
  names : ∀ {template : String}, r.operation.template? = some template →
    ∀ long name, .hole long name ∈ pieces (Text.ofString template) →
      name = Text.ofString nodeBinding ∨ ∃ b ∈ r.bindings, name = Text.ofString b.1

theorem binds_iff {r : Rule} {name : String} :
    r.binds name = true ↔ name = nodeBinding ∨ ∃ b ∈ r.bindings, name = b.1 := by
  unfold binds
  rw [Bool.or_eq_true, beq_iff_eq, List.contains_iff_mem, List.mem_map]
  simp only [@eq_comm _ name]

theorem unreserved_of_bindingIssues {r : Rule} {b : String × String}
    (h : r.bindingIssues b = []) : b.1 ≠ nodeBinding := by
  intro hb
  unfold bindingIssues at h
  rw [if_pos hb] at h
  cases h

theorem names_of_templateIssues {r : Rule} {template : String}
    (htemplate : r.operation.template? = some template) (h : r.templateIssues = [])
    {long : Bool} {name : Text} (hname : .hole long name ∈ pieces (Text.ofString template)) :
    name = Text.ofString nodeBinding ∨ ∃ b ∈ r.bindings, name = Text.ofString b.1 := by
  unfold templateIssues at h
  rw [htemplate] at h
  obtain ⟨-, hunbound⟩ := List.append_eq_nil_iff.mp h
  rw [List.map_eq_nil_iff, List.filter_eq_nil_iff] at hunbound
  -- the check looks at names as strings; that loses nothing, names being plain letters
  have hstring : Text.ofString name.toStr = name :=
    Text.ofString_toStr (isUtf8_of_hole_mem_pieces hname)
  have hlisted : name ∈ ({ source := Text.ofString template } : Template).placeholders :=
    Template.mem_placeholders_iff.mpr ⟨long, hname⟩
  have hbound := hunbound _ (List.mem_map_of_mem hlisted)
  rw [Bool.not_eq_true', Bool.not_eq_false, binds_iff] at hbound
  rcases hbound with hnode | ⟨b, hb, hnamed⟩
  · left
    rw [← hstring, hnode]
  · right
    refine ⟨b, hb, ?_⟩
    rw [← hstring, hnamed]

theorem checked_of_issues_eq_nil {r : Rule} {earlier : List String}
    (h : r.issues earlier = []) : r.Checked := by
  unfold issues at h
  simp only [List.append_eq_nil_iff, List.flatMap_eq_nil_iff] at h
  obtain ⟨⟨-, hbindings⟩, htemplate⟩ := h
  exact {
    unreserved := fun b hb => unreserved_of_bindingIssues (hbindings b hb)
    names := fun hsome _ _ hname => names_of_templateIssues hsome htemplate hname }

end Rule

theorem checked_of_issuesAmong_eq_nil {rules : List Rule} {earlier : List String}
    (h : issuesAmong earlier rules = []) {r : Rule} (hr : r ∈ rules) : r.Checked := by
  induction rules generalizing earlier with
  | nil => cases hr
  | cons first rest ih =>
      obtain ⟨hfirst, hrest⟩ := List.append_eq_nil_iff.mp h
      rcases List.mem_cons.mp hr with rfl | hr
      · exact Rule.checked_of_issues_eq_nil hfirst
      · exact ih hrest hr

/-- **The rules of a file without issues are checked.** -/
theorem RuleFile.checked_of_issues_eq_nil {f : RuleFile} (h : f.issues = []) {r : Rule}
    (hr : r ∈ f.rules) : r.Checked :=
  checked_of_issuesAmong_eq_nil (List.append_eq_nil_iff.mp h).2 hr

/-! ## §2. No template is to blame. -/

/-- If it fails, it is not because of a template. -/
def SparesTemplates {α : Type} (x : Except SelectionError α) : Prop :=
  ∀ cause, x ≠ .error (.template cause)

namespace SparesTemplates

variable {α β : Type}

theorem ok (a : α) : SparesTemplates (.ok a) := by
  intro cause h
  cases h

theorem of_error {e : SelectionError} (h : SparesTemplates (.error e : Except SelectionError α)) :
    SparesTemplates (.error e : Except SelectionError β) := by
  intro cause heq
  cases heq
  exact h cause rfl

theorem bind {x : Except SelectionError α} {f : α → Except SelectionError β}
    (hx : SparesTemplates x) (hf : ∀ a, SparesTemplates (f a)) : SparesTemplates (x >>= f) := by
  cases x with
  | ok a => exact hf a
  | error e => exact hx.of_error

theorem map {x : Except SelectionError α} (hx : SparesTemplates x) (f : α → β) :
    SparesTemplates (f <$> x) := by
  rw [map_eq_pure_bind]
  exact hx.bind fun a => ok (f a)

end SparesTemplates

theorem sparesTemplates_search (d : Document) (scope : Node) (q : QueryText) :
    SparesTemplates (d.search scope q) := by
  cases q with
  | pattern source =>
      rw [Document.search]
      refine SparesTemplates.bind ?_ fun p => .ok _
      cases Pattern.compile d.parser d.lang source <;> intro cause h <;> cases h
  | tree source =>
      rw [Document.search]
      refine SparesTemplates.bind ?_ fun q => ?_
      · cases TreeQuery.compile d.lang source <;> intro cause h <;> cases h
      · cases q.search d.text scope <;> intro cause h <;> cases h

namespace Selection

variable {tier : Tier}

theorem sparesTemplates_filter (p : Node → Bool) (s : Selection tier) :
    SparesTemplates (s.filter p) := by
  cases s with
  | many ns => exact .ok _
  | single n =>
      unfold Selection.filter filterWith
      dsimp only
      split
      · exact .ok _
      · intro cause h
        cases h

theorem sparesTemplates_mapM_parentOf (ns : List Node) : SparesTemplates (ns.mapM parentOf) := by
  induction ns with
  | nil => exact .ok []
  | cons n ns ih =>
      rw [List.mapM_cons]
      refine SparesTemplates.bind ?_ fun up => ih.bind fun ups => .ok _
      unfold parentOf
      split <;> intro cause h <;> cases h

theorem sparesTemplates_parent (s : Selection tier) : SparesTemplates s.parent := by
  cases s with
  | many ns => exact (sparesTemplates_mapM_parentOf ns).map _
  | single n =>
      refine SparesTemplates.map ?_ _
      unfold parentOf
      split <;> intro cause h <;> cases h

theorem sparesTemplates_climb (levels : Nat) (s : Selection tier) :
    SparesTemplates (s.climb levels) := by
  induction levels generalizing s with
  | zero => exact .ok s
  | succ levels ih => exact s.sparesTemplates_parent.bind ih

end Selection

namespace Rule

variable {r : Rule} {d : Document} {n : Node} {template : String}

theorem sparesTemplates_narrow (r : Rule) (s : Selection .root) : SparesTemplates (r.narrow s) := by
  unfold narrow Selection.first Selection.last Selection.unique
  intro cause h
  repeat' split at h
  all_goals cases h

theorem sparesTemplates_targets (r : Rule) (d : Document) : SparesTemplates (r.targets d).1 := by
  refine SparesTemplates.bind ((sparesTemplates_search d d.root r.query).map _) fun found => ?_
  refine SparesTemplates.bind (found.sparesTemplates_filter _) fun kept => ?_
  exact (r.sparesTemplates_narrow kept).bind fun chosen => chosen.sparesTemplates_climb r.parent

theorem sparesTemplates_bindAll (n : Node) (bindings : List (String × String)) (t : Template)
    (d : Document) : SparesTemplates (bindAll n bindings t d).1 := by
  induction bindings generalizing t d with
  | nil => exact .ok _
  | cons binding rest ih =>
      have hspares : SparesTemplates (d.queryInside n (.pattern binding.2)).1 :=
        (sparesTemplates_search d n (.pattern binding.2)).map _
      cases hfound : (d.queryInside n (.pattern binding.2)).1 with
      | error e =>
          rw [hfound] at hspares
          rw [bindAll_of_error hfound]
          exact hspares.of_error
      | ok found =>
          rw [bindAll_of_ok hfound]
          cases found.nodes.head? with
          | none => exact .ok none
          | some m => exact ih _ _

/-- Where all names of the template are bound, filling it in does not fail because of it. -/
theorem sparesTemplates_render
    (hnames : ∀ long name, .hole long name ∈ pieces (Text.ofString template) →
      name = Text.ofString nodeBinding ∨ ∃ b ∈ r.bindings, name = Text.ofString b.1) :
    SparesTemplates (r.render template d n).1 := by
  rw [render_eq]
  have hspares := sparesTemplates_bindAll n r.bindings
    (({ source := Text.ofString template } : Template).bind (Text.ofString nodeBinding)
      (n.text d.text)) d
  split
  next e herr =>
      rw [herr] at hspares
      exact hspares.of_error
  next => exact .ok none
  next t hbound =>
      obtain ⟨-, hsource, hbindings⟩ := of_bindAll_eq_some hbound
      have hbuild : ∃ text, t.build = .ok text := by
        rw [Template.exists_build_iff, hsource]
        intro long name hmem
        rw [hbindings]
        simpa [Template.bind] using hnames long name hmem
      obtain ⟨text, htext⟩ := hbuild
      rw [htext]
      exact .ok (some text)

end Rule

/-- Scheduling fails because the callback does. -/
theorem exists_of_scheduleNodes_error {σ : Type} {intent : Intent} {callback : Callback σ}
    {ns : List Node} {queue : List Edit} {state : σ} {e : SelectionError}
    (h : (scheduleNodes intent callback ns queue state).error = some e) :
    ∃ state' n, (callback state' n).1 = .error e := by
  induction ns generalizing queue state with
  | nil => cases h
  | cons n ns ih =>
      rw [scheduleNodes] at h
      cases hanswer : callback state n with
      | mk outcome state' =>
          rw [hanswer] at h
          cases outcome with
          | error cause =>
              cases h
              exact ⟨state, n, by rw [hanswer]⟩
          | ok payload => exact ih h

namespace Rule

variable {r : Rule} {d : Document}

/-- **A rule that is checked does not fail because of its template.** -/
theorem Checked.sparesTemplates_queue (h : r.Checked) (d : Document) :
    SparesTemplates (r.queue d).1 := by
  have htargets := r.sparesTemplates_targets d
  unfold queue
  generalize r.targets d = answer at htargets ⊢
  obtain ⟨e | sel, d'⟩ := answer
  · exact htargets.of_error
  -- whatever the operation, an error of it comes from filling the template in
  have hgo : ∀ intent template, r.operation.template? = some template →
      SparesTemplates (d'.schedule sel intent (r.render template) d').1 := by
    intro intent template htemplate cause herr
    unfold Document.schedule at herr
    dsimp only at herr
    split at herr
    next e he =>
        cases herr
        obtain ⟨d'', n, hfails⟩ := exists_of_scheduleNodes_error he
        exact sparesTemplates_render (h.names htemplate) cause hfails
    next => cases herr
  show SparesTemplates (r.operate d' sel).1
  unfold operate
  split
  next => exact .ok ()
  next template hop => exact hgo .prepend template (by rw [hop]; rfl)
  next template hop => exact hgo .append template (by rw [hop]; rfl)
  next template hop => exact hgo .replace template (by rw [hop]; rfl)

theorem Checked.apply_ne_template (h : r.Checked) (d : Document) (cause : TemplateError) :
    (r.apply d).1 ≠ .error (.selection (.template cause)) := by
  intro herr
  rcases r.apply_cases d with ⟨e, hqueue, happly⟩ | ⟨e, -, -, happly⟩ | ⟨-, -, happly⟩
  · rw [happly] at herr
    cases herr
    exact h.sparesTemplates_queue d cause hqueue
  · rw [happly] at herr
    cases herr
  · rw [happly] at herr
    cases herr

end Rule

theorem applyRules_ne_template {rules : List Rule} (h : ∀ r ∈ rules, r.Checked) (d : Document)
    (cause : TemplateError) : (applyRules rules d).1 ≠ .error (.selection (.template cause)) := by
  intro herr
  obtain ⟨before, r, after, rfl, -, hfails⟩ := exists_first_failure herr
  exact (h r (by simp)).apply_ne_template _ cause hfails

/-! ## §3. What a template is filled with. -/

/-- The text is that of the first node that the pattern finds inside the node. -/
def Document.FirstInside (d : Document) (n : Node) (pattern : String) (text : Text) : Prop :=
  ∃ found m, (d.queryInside n (.pattern pattern)).1 = .ok found
    ∧ found.nodes.head? = some m ∧ text = m.text d.text

theorem Document.Seen.search {d d' : Document} (h : d.Seen d') (scope : Node) (q : QueryText) :
    d'.search scope q = d.search scope q := by
  rcases h with rfl | rfl
  · rfl
  · cases q <;> rfl

theorem Document.Seen.firstInside {d d' : Document} (h : d.Seen d') {n : Node} {pattern : String}
    {text : Text} (hfirst : d'.FirstInside n pattern text) : d.FirstInside n pattern text := by
  obtain ⟨found, m, hfound, hhead, htext⟩ := hfirst
  refine ⟨found, m, ?_, hhead, ?_⟩
  · rw [← hfound]
    show _ <$> d.search n _ = _ <$> d'.search n _
    rw [h.search]
  · rw [htext, h.frame.1]

namespace Rule

variable {r : Rule} {d : Document} {n : Node} {template : String}

/-- What is bound to the names, one after the other, was found inside the node. -/
theorem bindings_of_bindAll_eq_some {bindings : List (String × String)} {t t' : Template}
    (h : (bindAll n bindings t d).1 = .ok (some t')) :
    ∃ values, t'.bindings = values ++ t.bindings
      ∧ ∀ v ∈ values, ∃ b ∈ bindings, v.1 = Text.ofString b.1 ∧ d.FirstInside n b.2 v.2 := by
  induction bindings generalizing t d with
  | nil =>
      cases h
      exact ⟨[], rfl, by simp⟩
  | cons binding rest ih =>
      cases hfound : (d.queryInside n (.pattern binding.2)).1 with
      | error e =>
          rw [bindAll_of_error hfound] at h
          cases h
      | ok found =>
          rw [bindAll_of_ok hfound] at h
          cases hhead : found.nodes.head? with
          | none =>
              rw [hhead] at h
              cases h
          | some m =>
              rw [hhead] at h
              obtain ⟨values, hvalues, horigin⟩ := ih h
              refine ⟨values ++ [(Text.ofString binding.1, m.text d.text)], ?_, ?_⟩
              · rw [hvalues, List.append_assoc]
                rfl
              · intro v hv
                rcases List.mem_append.mp hv with hv | hv
                · obtain ⟨b, hb, hname, hfirst⟩ := horigin v hv
                  exact ⟨b, List.mem_cons_of_mem binding hb, hname,
                    (d.seen_consulted _).firstInside hfirst⟩
                · obtain rfl := List.mem_singleton.mp hv
                  exact ⟨binding, List.mem_cons_self, rfl, found, m, hfound, hhead, rfl⟩

/-- The text is the template with every placeholder replaced: that of the node by the
text of the node, and any other by the text of the first node that a pattern bound to
its name finds inside the node. -/
def FilledIn (r : Rule) (d : Document) (n : Node) (template : String) (text : Text) : Prop :=
  ∃ value : Text → Text, text = substituted value (Text.ofString template)
    ∧ value (Text.ofString nodeBinding) = n.text d.text
    ∧ ∀ long name, .hole long name ∈ pieces (Text.ofString template) →
        name ≠ Text.ofString nodeBinding →
        ∃ b ∈ r.bindings, name = Text.ofString b.1 ∧ d.FirstInside n b.2 (value name)

theorem FilledIn.seen {d' : Document} {text : Text} (h : r.FilledIn d' n template text)
    (hseen : d.Seen d') : r.FilledIn d n template text := by
  obtain ⟨value, htext, hnode, hothers⟩ := h
  refine ⟨value, htext, ?_, ?_⟩
  · rw [hnode, hseen.frame.1]
  · intro long name hname hne
    obtain ⟨b, hb, heq, hfirst⟩ := hothers long name hname hne
    exact ⟨b, hb, heq, hseen.firstInside hfirst⟩

theorem valueOf_node {values : List (Text × Text)} {t : Template} {own : Text}
    (hvalues : t.bindings = values ++ [(Text.ofString nodeBinding, own)])
    (hother : ∀ v ∈ values, v.1 ≠ Text.ofString nodeBinding) :
    t.valueOf (Text.ofString nodeBinding) = own := by
  have hnone : values.lookup (Text.ofString nodeBinding) = none := by
    rw [List.lookup_eq_none_iff]
    intro v hv
    exact bne_iff_ne.mpr (hother v hv).symm
  unfold Template.valueOf
  rw [hvalues, List.lookup_append, hnone]
  simp

theorem valueOf_mem {values : List (Text × Text)} {t : Template} {name own : Text}
    (hvalues : t.bindings = values ++ [(Text.ofString nodeBinding, own)])
    (hne : name ≠ Text.ofString nodeBinding) (hname : name ∈ t.bindings.map Prod.fst) :
    (name, t.valueOf name) ∈ values := by
  obtain ⟨text, htext⟩ := (@Template.exists_fill_hole_iff t false name).mpr hname
  unfold Template.valueOf
  cases hlookup : t.bindings.lookup name with
  | none =>
      rw [Template.fill, hlookup] at htext
      cases htext
  | some value =>
      obtain ⟨before, after, hsplit, -⟩ := List.lookup_eq_some_iff.mp hlookup
      have hmem : (name, value) ∈ values ++ [(Text.ofString nodeBinding, own)] := by
        rw [← hvalues, hsplit]
        simp
      rcases List.mem_append.mp hmem with hmem | hmem
      · exact hmem
      · obtain ⟨rfl, -⟩ := Prod.mk.inj (List.mem_singleton.mp hmem)
        exact absurd rfl hne

theorem Checked.filledIn (h : r.Checked) {text : Text}
    (hrender : (r.render template d n).1 = .ok (some text)) :
    r.FilledIn d n template text := by
  rw [render_eq] at hrender
  split at hrender
  next => cases hrender
  next => cases hrender
  next t hbound =>
      obtain ⟨-, hsource, -⟩ := of_bindAll_eq_some hbound
      obtain ⟨values, hvalues, horigin⟩ := bindings_of_bindAll_eq_some hbound
      have hbuild : t.build = .ok text := by
        cases hb : t.build with
        | error e =>
            rw [hb] at hrender
            cases hrender
        | ok text' =>
            rw [hb] at hrender
            cases hrender
            rfl
      have hother : ∀ v ∈ values, v.1 ≠ Text.ofString nodeBinding := by
        intro v hv hnode
        obtain ⟨b, hb, hname, -⟩ := horigin v hv
        exact h.unreserved b hb (Text.ofString_inj.mp (hname.symm.trans hnode))
      refine ⟨t.valueOf, ?_, valueOf_node hvalues hother, ?_⟩
      · rw [Template.eq_substituted_of_build hbuild, hsource]
        rfl
      · intro long name hname hne
        have hbound : name ∈ t.bindings.map Prod.fst :=
          Template.exists_build_iff.mp ⟨text, hbuild⟩ long name (hsource ▸ hname)
        obtain ⟨b, hb, heq, hfirst⟩ := horigin _ (valueOf_mem hvalues hne hbound)
        exact ⟨b, hb, heq, hfirst⟩

end Rule

/-! ## §4. What is queued. -/

/-- What an operation does to a node. -/
def Operation.intent : Operation → Intent
  | .remove => .remove
  | .prepend _ => .prepend
  | .append _ => .append
  | .replace _ => .replace

theorem Operation.edit?_none {op : Operation} {template : String}
    (h : op.template? = some template) (n : Node) : op.intent.edit? n none = none := by
  cases op with
  | remove => cases h
  | prepend t => rfl
  | append t => rfl
  | replace t => rfl

/-- What scheduling adds to the queue: edits for nodes it goes through, with what the
callback gives for them in a state that has property `P`. -/
theorem exists_edits_scheduleNodes {σ : Type} (intent : Intent) {callback : Callback σ}
    {P : σ → Prop} (hP : ∀ state n, P state → P (callback state n).2) (ns : List Node)
    (queue : List Edit) {state : σ} (hstate : P state) :
    ∃ edits, (scheduleNodes intent callback ns queue state).queue = queue ++ edits
      ∧ ∀ e ∈ edits, ∃ state' n payload, P state' ∧ n ∈ ns
          ∧ (callback state' n).1 = .ok payload ∧ e ∈ intent.edit? n payload := by
  induction ns generalizing queue state with
  | nil => exact ⟨[], (List.append_nil queue).symm, by simp⟩
  | cons n ns ih =>
      have hnext := hP state n hstate
      rw [scheduleNodes]
      cases hanswer : callback state n with
      | mk outcome state' =>
          rw [hanswer] at hnext
          cases outcome with
          | error e => exact ⟨[], (List.append_nil queue).symm, by simp⟩
          | ok payload =>
              obtain ⟨edits, hqueue, horigin⟩ := ih (queue ++ (intent.edit? n payload).toList) hnext
              refine ⟨(intent.edit? n payload).toList ++ edits, ?_, ?_⟩
              · rw [← List.append_assoc]
                exact hqueue
              · intro e he
                rcases List.mem_append.mp he with he | he
                · exact ⟨state, n, payload, hstate, List.mem_cons_self, by rw [hanswer],
                    Option.mem_toList.mp he⟩
                · obtain ⟨s, m, p, hs, hm, hp, he⟩ := horigin e he
                  exact ⟨s, m, p, hs, List.mem_cons_of_mem n hm, hp, he⟩

namespace Rule

variable {r : Rule} {d : Document}

theorem operate_of_template {template : String} (htemplate : r.operation.template? = some template)
    (d : Document) (sel : Selection .root) :
    (r.operate d sel).2.queue
      = (scheduleNodes r.operation.intent (r.render template) sel.nodes d.queue d).queue := by
  unfold operate
  cases hop : r.operation with
  | remove =>
      rw [hop] at htemplate
      cases htemplate
  | prepend t =>
      rw [hop] at htemplate
      cases htemplate
      rfl
  | append t =>
      rw [hop] at htemplate
      cases htemplate
      rfl
  | replace t =>
      rw [hop] at htemplate
      cases htemplate
      rfl

theorem text_queue (r : Rule) (d : Document) : (r.queue d).2.text = d.text := by
  have hseen : d.Seen (r.targets d).2 := d.seen_consulted r.query
  unfold queue
  generalize r.targets d = answer at hseen ⊢
  obtain ⟨e | sel, d'⟩ := answer
  · exact hseen.frame.1
  · rw [← hseen.frame.1]
    dsimp only
    unfold operate
    split <;> rfl

/-- **What a checked rule queues** are edits for the nodes it is after, with its template
filled in for them. -/
theorem Checked.exists_edits_queue (h : r.Checked) {template : String}
    (htemplate : r.operation.template? = some template) (d : Document) :
    ∃ edits, (r.queue d).2.queue = d.queue ++ edits
      ∧ ∀ e ∈ edits, ∃ sel n text, (r.targets d).1 = .ok sel ∧ n ∈ sel.nodes
          ∧ e ∈ r.operation.intent.edit? n (some text) ∧ r.FilledIn d n template text := by
  have hseen : d.Seen (r.targets d).2 := d.seen_consulted r.query
  unfold queue
  cases htargets : r.targets d with
  | mk outcome d' =>
      rw [htargets] at hseen
      have hqueue : d'.queue = d.queue := hseen.frame.2.2.2
      cases outcome with
      | error e => exact ⟨[], by simpa using hqueue, by simp⟩
      | ok sel =>
          -- the template is filled in on `d'`, or on it with the view made
          obtain ⟨edits, hedits, horigin⟩ := exists_edits_scheduleNodes r.operation.intent
            (fun s n hs => hs.trans (r.seen_render template s n)) sel.nodes d'.queue
            (Document.Seen.refl d')
          refine ⟨edits, ?_, ?_⟩
          · dsimp only
            rw [operate_of_template htemplate, hedits, hqueue]
          · intro e he
            obtain ⟨s, n, payload, hs, hn, hrender, he⟩ := horigin e he
            cases payload with
            | none =>
                rw [Operation.edit?_none htemplate] at he
                cases he
            | some text =>
                exact ⟨sel, n, text, rfl, hn, he,
                  (h.filledIn hrender).seen (hseen.trans hs)⟩

end Rule

theorem Document.splicedText_of_commit {d : Document} {tally : Tally}
    (h : d.commitWithTally.1 = .ok tally) : splicedText d.text d.queue = .ok d.commit.2.text := by
  have hend := commitWithTally_cases d
  unfold commit splicedText
  generalize d.commitWithTally = result at h hend ⊢
  cases hend with
  | empty hq =>
      rw [hq]
      rfl
  | fault hq cause hs => cases h
  | unparsable hq s hs ht => cases h
  | done hq s tree hs ht =>
      rw [hs]
      rfl

/-- The text after a rule is the one before it with what is queued spliced in. -/
theorem Rule.splicedText_of_apply {r : Rule} {d : Document} (h : (r.apply d).1 = .ok ()) :
    splicedText d.text (r.queue d).2.queue = .ok (r.apply d).2.text := by
  rcases r.apply_cases d with ⟨e, -, happly⟩ | ⟨e, -, -, happly⟩ | ⟨-, ⟨tally, htally⟩, happly⟩
  · rw [happly] at h
    cases h
  · rw [happly] at h
    cases h
  · rw [happly, ← r.text_queue d]
    exact Document.splicedText_of_commit htally

/-! ## §5. Checked rules. -/

/-- **CHECKED RULES FILL THEIR TEMPLATES IN.**  A rule file has no issues.

  (1) Running its rules on a document does not fail because of a template; in particular,
      no placeholder is ever found unbound.
  (2) Take one of its rules that has a template, and the document when its turn comes.
      Each edit that it queues is for one of the nodes it has come to, found, kept,
      narrowed down and climbed from; and the new text is the template in which every
      placeholder of the node, in either spelling, has become the text of that node, and
      every other one the text of the first node that its pattern finds inside.
  (3) If the rule ends well, the text after it is the one before it with these edits, and
      whatever had been waiting before them, spliced in. -/
theorem checked_rules_fill_templates (f : RuleFile) (hf : f.issues = []) (d : Document) :
    (∀ cause, (applyRules f.rules d).1 ≠ .error (.selection (.template cause)))
    ∧ ∀ before r after d' template, f.rules = before ++ r :: after →
        applyRules before d = (.ok (), d') → r.operation.template? = some template →
        ∃ edits, (r.queue d').2.queue = d'.queue ++ edits
          ∧ (∀ e ∈ edits, ∃ sel n text, (r.targets d').1 = .ok sel ∧ n ∈ sel.nodes
              ∧ e ∈ r.operation.intent.edit? n (some text) ∧ r.FilledIn d' n template text)
          ∧ ((r.apply d').1 = .ok () →
              splicedText d'.text (d'.queue ++ edits) = .ok (r.apply d').2.text) := by
  have hchecked : ∀ r ∈ f.rules, r.Checked := fun r hr => RuleFile.checked_of_issues_eq_nil hf hr
  refine ⟨applyRules_ne_template hchecked d, ?_⟩
  intro before r after d' template hsplit _ htemplate
  have hr : r.Checked := hchecked r (by rw [hsplit]; simp)
  obtain ⟨edits, hqueue, horigin⟩ := hr.exists_edits_queue htemplate d'
  refine ⟨edits, hqueue, horigin, ?_⟩
  intro hok
  rw [← hqueue]
  exact Rule.splicedText_of_apply hok

/-- A rule that names the node in either spelling, and a node inside it. -/
def tripleRule : Rule :=
  { id := "triple"
    query := .pattern "a"
    operation := .replace "$NODE$$$NODE-$X"
    bindings := [("X", "a")] }

/-- The name `a` becomes itself twice, the node being named in either spelling, and then
what the pattern `a` finds inside it. -/
theorem checked_rules_fill_templates_tripled :
    ({ rules := [tripleRule] } : RuleFile).issues = []
    ∧ (∃ sel n text, (tripleRule.targets nameDocument).1 = .ok sel ∧ n ∈ sel.nodes
        ∧ (⟨0, 1, [97, 97, 45, 97]⟩ : Edit) ∈ Intent.replace.edit? n (some text)
        ∧ tripleRule.FilledIn nameDocument n "$NODE$$$NODE-$X" text)
    ∧ splicedText [97] [⟨0, 1, [97, 97, 45, 97]⟩]
        = .ok (tripleRule.apply nameDocument).2.text := by
  obtain ⟨-, hrule⟩ := checked_rules_fill_templates { rules := [tripleRule] } rfl nameDocument
  obtain ⟨edits, hqueue, horigin, hspliced⟩ :=
    hrule [] tripleRule [] nameDocument "$NODE$$$NODE-$X" rfl rfl rfl
  obtain rfl : [⟨0, 1, [97, 97, 45, 97]⟩] = edits := hqueue
  exact ⟨rfl, horigin _ (List.mem_singleton_self _), hspliced rfl⟩

end StructuralEdit
