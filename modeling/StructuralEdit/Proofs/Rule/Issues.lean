/-
  StructuralEdit.Proofs.Rule.Issues
  ─────────────────────────────────
  **THE CHECK OF A RULE FILE IS EXACT.**

  The issues of a rule file list its flaws (`RuleFile.listing_issues`).  So there are none
  exactly if nothing is wrong with the file, and what that means can be said field by field
  (`RuleFile.Sound`).  What is left is to count: the ids that have been met are handed on
  from rule to rule, and an id that is used m times is told m - 1 times
  (`count_repeatedId_issuesAmong`).
-/
import StructuralEdit.Proofs.Rule.Flaws
import StructuralEdit.Rule.Load

namespace StructuralEdit

namespace RuleFile

variable {f : RuleFile}

/-! ## §1. Rule files without flaws. -/

/-- Nothing is wrong with a rule file. -/
structure Sound (f : RuleFile) : Prop where
  rules : f.rules ≠ []
  /-- The language, if one is given, is known. -/
  language : ∀ name, f.info.lang = some name → ∃ lang, Language.ofName? name = some lang
  globs : ∀ source ∈ f.info.includes ++ f.info.excludes, ∃ glob, Glob.compile source = .ok glob
  ids : ∀ r ∈ f.rules, isBlank r.id = false
  distinctIds : (f.rules.map Rule.id).Nodup
  queries : ∀ r ∈ f.rules, isBlank r.query.source = false
  bindingPatterns : ∀ r ∈ f.rules, ∀ b ∈ r.bindings, isBlank b.2 = false
  bindingNames : ∀ r ∈ f.rules, ∀ b ∈ r.bindings, b.1 ≠ nodeBinding
  templates : ∀ r ∈ f.rules, r.operation.template? ≠ some ""
  /-- Every placeholder is the node's own or bound. -/
  placeholders : ∀ r ∈ f.rules, ∀ source, r.operation.template? = some source →
    ∀ long name, .hole long name ∈ pieces (Text.ofString source) →
      name = Text.ofString nodeBinding ∨ ∃ b ∈ r.bindings, name = Text.ofString b.1

theorem nodup_ids_of_forall_split {rules : List Rule}
    (h : ∀ before r after, rules = before ++ r :: after → r.id ∉ before.map Rule.id) :
    (rules.map Rule.id).Nodup := by
  induction rules using List.reverseRecOn with
  | nil => exact .nil
  | append_singleton rules r ih =>
      have hinit : (rules.map Rule.id).Nodup :=
        ih fun before s after heq => h before s (after ++ [r]) (by rw [heq]; simp)
      rw [List.map_append, List.nodup_append]
      refine ⟨hinit, List.pairwise_singleton _ _, fun a ha b hb heq => h rules r [] rfl ?_⟩
      rw [List.map_singleton, List.mem_singleton] at hb
      rwa [← hb, ← heq]

theorem Sound.not_flawed (hf : f.Sound) (place : Place) (issue : Issue) :
    ¬ f.Flawed place issue := by
  intro h
  cases h with
  | noRules hempty => exact hf.rules hempty
  | unknownLanguage hlang hunknown =>
      obtain ⟨lang, hlang⟩ := hf.language _ hlang
      rw [hunknown] at hlang
      cases hlang
  | @badGlob before after source cause hsplit hcause =>
      have hmem : source ∈ f.info.includes ++ f.info.excludes := by rw [hsplit]; simp
      obtain ⟨glob, hglob⟩ := hf.globs source hmem
      rw [hcause] at hglob
      cases hglob
  | @inRule before after r spot issue hsplit hflaw =>
      have hr : r ∈ f.rules := by simp [hsplit]
      cases hflaw with
      | blankId hblank => exact absurd (hf.ids r hr) (by simp [hblank])
      | repeatedId _ hmem =>
          have hnodup := hf.distinctIds
          rw [hsplit, List.map_append, List.nodup_append] at hnodup
          exact hnodup.2.2 _ hmem r.id (by simp) rfl
      | blankQuery hblank => exact absurd (hf.queries r hr) (by simp [hblank])
      | reservedName hsplit hname => exact hf.bindingNames r hr _ (by simp [hsplit]) hname
      | @blankBinding before after b hsplit hblank =>
          have hmem : b ∈ r.bindings := by simp [hsplit]
          exact absurd (hf.bindingPatterns r hr b hmem) (by simp [hblank])
      | emptyTemplate hsource => exact hf.templates r hr hsource
      | @unbound source before after long name hsource hsplit _ hnode hbound =>
          have hmem : .hole long name ∈ pieces (Text.ofString source) := by simp [hsplit]
          rcases hf.placeholders r hr source hsource long name hmem with h | ⟨b, hb, h⟩
          · exact hnode h
          · exact hbound b hb h

/-- Where some piece is a placeholder of a name, one is the first. -/
theorem exists_first_hole {ps : List Piece} {long : Bool} {name : Text}
    (h : .hole long name ∈ ps) :
    ∃ before long' after, ps = before ++ .hole long' name :: after
      ∧ ∀ long'', .hole long'' name ∉ before := by
  have hsome : (ps.find? (Template.placeholders.holeName · == some name)).isSome = true :=
    List.find?_isSome.mpr ⟨.hole long name, h, beq_self_eq_true _⟩
  obtain ⟨p, hp⟩ := Option.isSome_iff_exists.mp hsome
  obtain ⟨hname, before, after, hsplit, hbefore⟩ := List.find?_eq_some_iff_append.mp hp
  cases p with
  | plain b => cases hname
  | hole long' name' =>
      cases beq_iff_eq.mp hname
      refine ⟨before, long', after, hsplit, fun long'' hmem => ?_⟩
      have hnot := hbefore _ hmem
      rw [show Template.placeholders.holeName (.hole long'' name) = some name from rfl,
        beq_self_eq_true] at hnot
      cases hnot

theorem sound_of_not_flawed (h : ∀ place issue, ¬ f.Flawed place issue) : f.Sound := by
  have hrule : ∀ r ∈ f.rules, ∃ before, ∀ spot issue, ¬ r.Flawed before spot issue := by
    intro r hr
    obtain ⟨before, after, hsplit⟩ := List.append_of_mem hr
    exact ⟨before, fun spot issue hflaw => h _ _ (.inRule hsplit hflaw)⟩
  have hids : ∀ r ∈ f.rules, isBlank r.id = false := by
    intro r hr
    obtain ⟨before, hnone⟩ := hrule r hr
    rw [← Bool.not_eq_true]
    exact fun hblank => hnone _ _ (.blankId hblank)
  refine ⟨fun hempty => h _ _ (.noRules hempty), fun name hlang => ?_, fun source hsource => ?_,
    hids, ?_, fun r hr => ?_, fun r hr b hb => ?_, fun r hr b hb hname => ?_,
    fun r hr hempty => ?_, fun r hr source hsource long name hmem => ?_⟩
  · rw [← Option.isSome_iff_exists, ← Option.ne_none_iff_isSome]
    exact fun hunknown => h _ _ (.unknownLanguage hlang hunknown)
  · obtain ⟨before, after, hsplit⟩ := List.append_of_mem hsource
    cases hcompile : Glob.compile source with
    | ok glob => exact ⟨glob, rfl⟩
    | error cause => exact absurd (.badGlob hsplit hcompile) (h _ _)
  · refine nodup_ids_of_forall_split fun before r after hsplit hmem => ?_
    have hr : r ∈ f.rules := by simp [hsplit]
    exact h _ _ (.inRule hsplit (.repeatedId (hids r hr) hmem))
  · obtain ⟨before, hnone⟩ := hrule r hr
    rw [← Bool.not_eq_true]
    exact fun hblank => hnone _ _ (.blankQuery hblank)
  · obtain ⟨before, hnone⟩ := hrule r hr
    obtain ⟨bs, bs', hsplit⟩ := List.append_of_mem hb
    rw [← Bool.not_eq_true]
    exact fun hblank => hnone _ _ (.blankBinding hsplit hblank)
  · obtain ⟨before, hnone⟩ := hrule r hr
    obtain ⟨bs, bs', hsplit⟩ := List.append_of_mem hb
    exact hnone _ _ (.reservedName hsplit hname)
  · obtain ⟨before, hnone⟩ := hrule r hr
    exact hnone _ _ (.emptyTemplate hempty)
  · obtain ⟨before, hnone⟩ := hrule r hr
    obtain ⟨ps, long', ps', hsplit, hfirst⟩ := exists_first_hole hmem
    refine Classical.byContradiction fun hunbound => ?_
    obtain ⟨hnode, hbound⟩ := not_or.mp hunbound
    exact hnone _ _ (.unbound hsource hsplit hfirst hnode fun b hb heq => hbound ⟨b, hb, heq⟩)

end RuleFile

/-! ## §2. How often an id is told. -/

/-- The issue is about the id of a rule. -/
def Issue.isAboutId : Issue → Bool
  | .repeatedId _ | .missing _ .id => true
  | _ => false

namespace Rule

variable (r : Rule) (ids : List String)

/-- The id has a check of its own, and no other tells an issue about it. -/
theorem count_issues_of_isAboutId {i : Issue} (hi : i.isAboutId = true) :
    (r.issues ids).count i = (r.idIssues ids).count i := by
  have hquery : i ∉ r.queryIssues := by
    grind [queryIssues, Issue.isAboutId]
  have hbindings : i ∉ r.bindings.flatMap r.bindingIssues := by
    grind [bindingIssues, Issue.isAboutId]
  have htemplate : i ∉ r.templateIssues := by
    grind [templateIssues, Issue.isAboutId]
  unfold issues
  rw [List.count_append, List.count_append, List.count_append, List.count_eq_zero.mpr hquery,
      List.count_eq_zero.mpr hbindings, List.count_eq_zero.mpr htemplate]
  rfl

theorem count_repeatedId_issues (id : String) :
    (r.issues ids).count (.repeatedId id)
      = if isBlank r.id = false ∧ r.id = id ∧ id ∈ ids then 1 else 0 := by
  rw [count_issues_of_isAboutId r ids rfl, idIssues]
  by_cases hid : r.id = id
  · cases isBlank r.id <;> by_cases hmem : id ∈ ids <;> simp [hid, hmem]
  · cases isBlank r.id <;> by_cases hmem : r.id ∈ ids <;> simp [hid, hmem]

theorem count_missingId_issues :
    (r.issues ids).count (.missing none .id) = if isBlank r.id then 1 else 0 := by
  rw [count_issues_of_isAboutId r ids rfl, idIssues]
  split
  next => rfl
  next => split <;> rfl

end Rule

/-- An id that has been used before is told every time, another one every time but the
first. -/
theorem count_repeatedId_issuesAmong {id : String} (hid : isBlank id = false) (ids : List String)
    (rules : List Rule) :
    (issuesAmong ids rules).count (.repeatedId id)
      = if id ∈ ids then (rules.map Rule.id).count id else (rules.map Rule.id).count id - 1 := by
  induction rules generalizing ids with
  | nil => simp [issuesAmong]
  | cons r rules ih =>
      -- after the first rule its id is among those met, whether or not it was before
      rw [issuesAmong, List.count_append, Rule.count_repeatedId_issues, ih, List.map_cons,
          List.count_cons]
      by_cases hr : r.id = id
      · subst hr
        by_cases hmem : r.id ∈ ids <;> simp [hid, hmem]
        omega
      · have hmem : id ∈ r.id :: ids ↔ id ∈ ids := by simp [Ne.symm hr]
        simp [hr, hmem]

theorem count_missingId_issuesAmong (ids : List String) (rules : List Rule) :
    (issuesAmong ids rules).count (.missing none .id) = rules.countP (isBlank ·.id) := by
  induction rules generalizing ids with
  | nil => rfl
  | cons r rules ih =>
      rw [issuesAmong, List.count_append, Rule.count_missingId_issues, ih, List.countP_cons,
          Nat.add_comm]

namespace RuleFile

variable {f : RuleFile}

theorem issues_eq_nil_iff : f.issues = [] ↔ f.Sound :=
  (listing_issues f).eq_nil_iff.trans ⟨sound_of_not_flawed, Sound.not_flawed⟩

/-- What is told of the file as a whole is not about the id of a rule. -/
theorem count_issues_of_isAboutId {i : Issue} (hi : i.isAboutId = true) :
    f.issues.count i = (issuesAmong [] f.rules).count i := by
  have hrules : i ∉ (if f.rules.isEmpty then [Issue.noRules] else []) := by
    grind [Issue.isAboutId]
  have hlanguage : i ∉ f.languageIssues := by
    grind [languageIssues, Issue.isAboutId]
  have hglobs : i ∉ (f.info.includes ++ f.info.excludes).flatMap globIssues := by
    grind [globIssues, Issue.isAboutId]
  unfold issues
  rw [List.count_append, List.count_append, List.count_append, List.count_eq_zero.mpr hrules,
      List.count_eq_zero.mpr hlanguage, List.count_eq_zero.mpr hglobs]
  simp

theorem repeatedId_not_mem_issues {id : String} (hid : isBlank id = true) :
    .repeatedId id ∉ f.issues := by
  intro h
  obtain ⟨place, hflaw⟩ := (listing_issues f).mem_iff.mp h
  cases hflaw with
  | inRule _ hflaw =>
      cases hflaw with
      | repeatedId hblank =>
          rw [hblank] at hid
          cases hid

end RuleFile

/-! ## §3. The check is exact. -/

/-- **THE CHECK OF A RULE FILE IS EXACT.**  For every rule file

1. there are no issues exactly if nothing is wrong with it; a text that reads as the file is
   loaded in that case, and otherwise refused with the issues;
2. the issues are those of its flaws, each told once and in the order of their places: the
   file first, then rule after rule; a name that is not bound is one flaw of its rule,
   however often the template has it;
3. an id that is used m times is told m - 1 times, unless it is blank, and then never;
4. the ids that are told as missing are as many as are blank. -/
theorem rule_file_issues_exact (f : RuleFile) :
    ((f.issues = [] ↔ f.Sound)
      ∧ ∀ path source, RuleFile.ofToml? source = some f →
          (f.Sound → RuleFile.parse path source = .ok f)
          ∧ (¬ f.Sound → RuleFile.parse path source = .error (.invalid path f.issues)))
    ∧ (∃ told : List (Place × Issue), told.map Prod.snd = f.issues
        ∧ told.Pairwise (fun a b => a.1.Before b.1)
        ∧ ∀ place issue, (place, issue) ∈ told ↔ f.Flawed place issue)
    ∧ (∀ id, f.issues.count (.repeatedId id)
        = if isBlank id then 0 else (f.rules.map Rule.id).count id - 1)
    ∧ f.issues.count (.missing none .id) = f.rules.countP (isBlank ·.id) := by
  refine ⟨⟨RuleFile.issues_eq_nil_iff, fun path source hsource => ?_⟩, RuleFile.listing_issues f,
    fun id => ?_, ?_⟩
  · unfold RuleFile.parse
    rw [hsource, ← RuleFile.issues_eq_nil_iff]
    constructor
    · intro hnone
      simp [hnone]
    · intro hsome
      simp [hsome]
  · split
    next hblank => exact List.count_eq_zero.mpr (RuleFile.repeatedId_not_mem_issues hblank)
    next hblank =>
        rw [RuleFile.count_issues_of_isAboutId rfl,
            count_repeatedId_issuesAmong (Bool.not_eq_true _ ▸ hblank)]
        simp
  · rw [RuleFile.count_issues_of_isAboutId rfl, count_missingId_issuesAmong]

/-- An id three times, another one blank, names without a pattern, and an unknown language. -/
def faultyRules : RuleFile :=
  let rule : Rule := { id := "r", query := .pattern "a", operation := .remove }
  { info := { lang := some "none", excludes := ["a", "["] }
    rules := [
      { rule with operation := .replace "$X $$$Y $NODE $X", bindings := [("Y", "y")] },
      { rule with id := " ", operation := .append "", bindings := [("NODE", "")] },
      rule, { rule with query := .tree "" }] }

/-- Every flaw is told, and none twice: `$X` is one flaw, and of the three ids two are. -/
theorem rule_file_issues_exact_faulty :
    faultyRules.issues = [.unknownLanguage "none", .badGlob "[" ⟨0, .set⟩,
      .unboundName (some "r") "X", .missing none .id, .reservedName none, .missing none .binding,
      .missing none .template, .repeatedId "r", .repeatedId "r", .missing (some "r") .pattern]
    ∧ ¬ faultyRules.Sound
    ∧ faultyRules.issues.count (.repeatedId "r") = 3 - 1
    ∧ ∃ place, faultyRules.Flawed place (.unboundName (some "r") "X") := by
  obtain ⟨⟨hsound, -⟩, ⟨told, htold, -, hmem⟩, hcount, -⟩ := rule_file_issues_exact faultyRules
  have hissues : faultyRules.issues = [.unknownLanguage "none", .badGlob "[" ⟨0, .set⟩,
      .unboundName (some "r") "X", .missing none .id, .reservedName none, .missing none .binding,
      .missing none .template, .repeatedId "r", .repeatedId "r",
      .missing (some "r") .pattern] := by
    decide +kernel
  refine ⟨hissues, fun h => ?_, (hcount "r").trans (by decide +kernel), ?_⟩
  · rw [hsound.mpr h] at hissues
    cases hissues
  · have hunbound : .unboundName (some "r") "X" ∈ told.map Prod.snd := by
      rw [htold, hissues]
      decide
    obtain ⟨⟨place, issue⟩, hin, rfl⟩ := List.mem_map.mp hunbound
    exact ⟨place, (hmem place _).mp hin⟩

end StructuralEdit
