/-
  StructuralEdit.Proofs.Rule.Flaws
  ────────────────────────────────
  **THE ISSUES OF A RULE FILE ARE ITS FLAWS.**

  A flaw is something wrong at some PLACE of a rule file, and is told by one issue.  Which
  flaws there are is said for each kind by itself, with no word of how the others are
  looked for (`Rule.Flawed`, `RuleFile.Flawed`).  Places are ordered:

      file      no rules  <  language  <  glob 0  <  glob 1  <  …
      rule 0    id  <  query  <  binding 0  <  binding 1  <  …  <  template  <  placeholders
      rule 1    …

  The check goes along the places in this order and tells each flaw once, so that its
  issues are a LISTING of the flaws (`RuleFile.listing_issues`).  Listings can be put
  together from those of the parts (`Listing.append`, `Listing.along`), which is how the
  check works too.
-/
import Mathlib.Data.List.Induction
import StructuralEdit.Proofs.Rule.Checked

namespace StructuralEdit

/-! ## §1. Listings. -/

/-- The issues tell the flaws `R`, each once, in the order of the places. -/
def Listing {π : Type} (key : π → List Nat) (R : π → Issue → Prop) (issues : List Issue) :
    Prop :=
  ∃ told : List (π × Issue), told.map Prod.snd = issues
    ∧ told.Pairwise (fun a b => key a.1 < key b.1)
    ∧ ∀ place issue, (place, issue) ∈ told ↔ R place issue

namespace Listing

variable {π ρ : Type} {key : π → List Nat} {R R' : π → Issue → Prop} {issues issues' : List Issue}

theorem congr (h : Listing key R issues) (hR : ∀ place issue, R place issue ↔ R' place issue) :
    Listing key R' issues := by
  obtain ⟨told, hissues, horder, hmem⟩ := h
  exact ⟨told, hissues, horder, fun place issue => (hmem place issue).trans (hR place issue)⟩

/-- No flaws, no issues. -/
theorem nil (h : ∀ place issue, ¬ R place issue) : Listing key R [] :=
  ⟨[], rfl, .nil, fun place issue => by simp [h place issue]⟩

/-- At most one flaw. -/
theorem guarded (key : π → List Nat) (c : Prop) [Decidable c] (place₀ : π) (issue₀ : Issue) :
    Listing key (fun place issue => c ∧ place = place₀ ∧ issue = issue₀)
      (if c then [issue₀] else []) := by
  split
  next hc => exact ⟨[(place₀, issue₀)], rfl, List.pairwise_singleton _ _, by simp [hc]⟩
  next hc => exact nil fun place issue h => hc h.1

/-- Flaws of one kind and then those of another. -/
theorem append (h : Listing key R issues) (h' : Listing key R' issues')
    (hbefore : ∀ {place issue place' issue'}, R place issue → R' place' issue' →
      key place < key place') :
    Listing key (fun place issue => R place issue ∨ R' place issue) (issues ++ issues') := by
  obtain ⟨told, rfl, horder, hmem⟩ := h
  obtain ⟨told', rfl, horder', hmem'⟩ := h'
  refine ⟨told ++ told', List.map_append, List.pairwise_append.mpr ⟨horder, horder', ?_⟩, ?_⟩
  · intro a ha b hb
    exact hbefore ((hmem a.1 a.2).mp ha) ((hmem' b.1 b.2).mp hb)
  · intro place issue
    rw [List.mem_append, hmem, hmem']

/-- The flaws of the next part of the places. -/
theorem next {part : π → Nat} (hpart : ∀ {a b}, part a < part b → key a < key b) {n : Nat}
    (h : Listing key (fun place issue => part place < n ∧ R place issue) issues)
    (h' : Listing key (fun place issue => part place = n ∧ R place issue) issues') :
    Listing key (fun place issue => part place < n + 1 ∧ R place issue) (issues ++ issues') := by
  refine (h.append h' ?_).congr fun place issue => ?_
  · rintro a _ b _ ⟨ha, -⟩ ⟨hb, -⟩
    exact hpart (by omega)
  · rw [← or_and_right, Nat.lt_succ_iff_lt_or_eq]

/-- Places within a part as places of the whole. -/
theorem embed {key' : ρ → List Nat} (h : Listing key R issues) (e : π → ρ)
    (hkey : ∀ {a b}, key a < key b → key' (e a) < key' (e b)) :
    Listing key' (fun place issue => ∃ a, place = e a ∧ R a issue) issues := by
  obtain ⟨told, rfl, horder, hmem⟩ := h
  refine ⟨told.map (Prod.map e id), ?_, ?_, fun place issue => ?_⟩
  · rw [List.map_map]
    rfl
  · exact List.pairwise_map.mpr (horder.imp hkey)
  · rw [List.mem_map]
    constructor
    · rintro ⟨⟨a, i⟩, hai, heq⟩
      cases heq
      exact ⟨a, rfl, (hmem a i).mp hai⟩
    · rintro ⟨a, rfl, ha⟩
      exact ⟨(a, issue), (hmem a issue).mpr ha, rfl⟩

/-- **Going along a list**: if what is told grows by the flaws of each element in view of
those before it, and these lie behind the flaws of those, then all flaws of all elements
are told. -/
theorem along {α : Type} (all : List α → List Issue) {one : List α → α → List Issue}
    {R : List α → α → π → Issue → Prop} (hnil : all [] = [])
    (hsnoc : ∀ before x, all (before ++ [x]) = all before ++ one before x)
    (hone : ∀ before x, Listing key (R before x) (one before x))
    (hbefore : ∀ {before x place issue before' x' place' issue'},
      before.length < before'.length → R before x place issue → R before' x' place' issue' →
        key place < key place') (xs : List α) :
    Listing key
      (fun place issue => ∃ before x after, xs = before ++ x :: after ∧ R before x place issue)
      (all xs) := by
  induction xs using List.reverseRecOn with
  | nil =>
      rw [hnil]
      exact nil fun place issue ⟨before, x, after, h, _⟩ => by simp at h
  | append_singleton xs x ih =>
      rw [hsnoc]
      -- the elements of the longer list are those of the shorter one, and `x` after all of them
      refine (ih.append (hone xs x) ?_).congr fun place issue => ?_
      · rintro place issue place' issue' ⟨before, y, after, rfl, hy⟩ hx
        exact hbefore (by simp) hy hx
      · constructor
        · rintro (⟨before, y, after, rfl, hy⟩ | hx)
          · exact ⟨before, y, after ++ [x], by simp, hy⟩
          · exact ⟨xs, x, [], rfl, hx⟩
        · rintro ⟨before, y, after, heq, hy⟩
          rcases List.eq_nil_or_concat after with rfl | ⟨after, z, rfl⟩
          · obtain ⟨rfl, hxy⟩ := List.append_inj' heq rfl
            cases hxy
            exact Or.inr hy
          · left
            rw [List.concat_eq_append, ← List.cons_append, ← List.append_assoc] at heq
            obtain ⟨rfl, -⟩ := List.append_inj' heq rfl
            exact ⟨before, y, after, rfl, hy⟩

/-- The same, where what is told of an element does not depend on those before it. -/
theorem alongEach {α : Type} {one : α → List Issue} {R : List α → α → π → Issue → Prop}
    (hone : ∀ before x, Listing key (R before x) (one x))
    (hbefore : ∀ {before x place issue before' x' place' issue'},
      before.length < before'.length → R before x place issue → R before' x' place' issue' →
        key place < key place') (xs : List α) :
    Listing key
      (fun place issue => ∃ before x after, xs = before ++ x :: after ∧ R before x place issue)
      (xs.flatMap one) :=
  along (·.flatMap one) rfl (fun _ _ => by rw [List.flatMap_append, List.flatMap_singleton]) hone
    hbefore xs

theorem eq_nil_iff (h : Listing key R issues) :
    issues = [] ↔ ∀ place issue, ¬ R place issue := by
  obtain ⟨told, rfl, -, hmem⟩ := h
  rw [List.map_eq_nil_iff, List.eq_nil_iff_forall_not_mem]
  simp only [Prod.forall, hmem]

theorem mem_iff (h : Listing key R issues) {issue : Issue} :
    issue ∈ issues ↔ ∃ place, R place issue := by
  obtain ⟨told, rfl, -, hmem⟩ := h
  simp only [List.mem_map, Prod.exists, hmem, exists_eq_right]

end Listing

/-! ## §2. The flaws of a rule. -/

/-- A place of a rule. -/
inductive Spot where
  | id
  | query
  /-- The name of the k-th binding. -/
  | bindingName (k : Nat)
  | bindingPattern (k : Nat)
  | template
  /-- The k-th piece of the template. -/
  | placeholder (k : Nat)
  deriving DecidableEq, Repr

namespace Spot

/-- The part of the rule that the place belongs to. -/
def part : Spot → Nat
  | .id => 0
  | .query => 1
  | .bindingName _ | .bindingPattern _ => 2
  | .template => 3
  | .placeholder _ => 4

/-- Where the place comes in the order of places. -/
def key : Spot → List Nat
  | .id => [0]
  | .query => [1]
  | .bindingName k => [2, k, 0]
  | .bindingPattern k => [2, k, 1]
  | .template => [3]
  | .placeholder k => [4, k]

theorem part_lt (s : Spot) : s.part < 5 := by
  cases s <;> simp [part]

theorem key_lt_of_part_lt {a b : Spot} (h : a.part < b.part) : a.key < b.key := by
  cases a <;> cases b <;> simp_all [part, key, List.cons_lt_cons_iff]

end Spot

namespace Rule

/-- What is wrong with a rule that comes after others, and how it is told. -/
inductive Flawed (earlier : List Rule) (r : Rule) : Spot → Issue → Prop where
  -- a blank id is missing, and then it does not matter who else has it
  | blankId : isBlank r.id = true → Flawed earlier r .id (.missing none .id)
  | repeatedId : isBlank r.id = false → r.id ∈ earlier.map Rule.id →
      Flawed earlier r .id (.repeatedId r.id)
  | blankQuery : isBlank r.query.source = true →
      Flawed earlier r .query (.missing r.knownId .pattern)
  | reservedName {before after : List (String × String)} {b : String × String} :
      r.bindings = before ++ b :: after → b.1 = nodeBinding →
      Flawed earlier r (.bindingName before.length) (.reservedName r.knownId)
  | blankBinding {before after : List (String × String)} {b : String × String} :
      r.bindings = before ++ b :: after → isBlank b.2 = true →
      Flawed earlier r (.bindingPattern before.length) (.missing r.knownId .binding)
  | emptyTemplate : r.operation.template? = some "" →
      Flawed earlier r .template (.missing r.knownId .template)
  /-- It is told where the name stands first. -/
  | unbound {source : String} {before after : List Piece} {long : Bool} {name : Text} :
      r.operation.template? = some source →
      pieces (Text.ofString source) = before ++ .hole long name :: after →
      (∀ long', .hole long' name ∉ before) →
      name ≠ Text.ofString nodeBinding → (∀ b ∈ r.bindings, name ≠ Text.ofString b.1) →
      Flawed earlier r (.placeholder before.length) (.unboundName r.knownId name.toStr)

variable {r : Rule} {earlier : List Rule}

theorem listing_idIssues {ids : List String} (hids : ∀ id, id ∈ ids ↔ id ∈ earlier.map Rule.id) :
    Listing Spot.key (fun spot issue => spot.part = 0 ∧ r.Flawed earlier spot issue)
      (r.idIssues ids) := by
  have heq : r.idIssues ids = (if isBlank r.id = true then [.missing none .id] else [])
      ++ (if isBlank r.id = false ∧ r.id ∈ earlier.map Rule.id then [.repeatedId r.id]
        else []) := by
    unfold idIssues
    simp only [List.contains_iff_mem, hids]
    cases isBlank r.id <;> simp
  rw [heq]
  refine ((Listing.guarded Spot.key _ .id _).append (Listing.guarded _ _ .id _) ?_).congr
    fun spot issue => ⟨?_, ?_⟩
  · -- both are told of one place, but never of one rule
    rintro _ _ _ _ ⟨hblank, -⟩ ⟨⟨hnot, -⟩, -⟩
    rw [hblank] at hnot
    cases hnot
  · rintro (⟨hblank, rfl, rfl⟩ | ⟨⟨hblank, hmem⟩, rfl, rfl⟩)
    · exact ⟨rfl, .blankId hblank⟩
    · exact ⟨rfl, .repeatedId hblank hmem⟩
  · rintro ⟨hpart, h⟩
    cases h with
    | blankId hblank => exact Or.inl ⟨hblank, rfl, rfl⟩
    | repeatedId hblank hmem => exact Or.inr ⟨⟨hblank, hmem⟩, rfl, rfl⟩
    | _ => cases hpart

theorem listing_queryIssues :
    Listing Spot.key (fun spot issue => spot.part = 1 ∧ r.Flawed earlier spot issue)
      r.queryIssues := by
  refine (Listing.guarded Spot.key _ .query _).congr fun spot issue => ⟨?_, ?_⟩
  · rintro ⟨hblank, rfl, rfl⟩
    exact ⟨rfl, .blankQuery hblank⟩
  · rintro ⟨hpart, h⟩
    cases h with
    | blankQuery hblank => exact ⟨hblank, rfl, rfl⟩
    | _ => cases hpart

theorem listing_bindingIssues :
    Listing Spot.key (fun spot issue => spot.part = 2 ∧ r.Flawed earlier spot issue)
      (r.bindings.flatMap r.bindingIssues) := by
  have hone : ∀ (before : List (String × String)) (b : String × String), Listing Spot.key
      (fun spot issue =>
        (b.1 = nodeBinding ∧ spot = .bindingName before.length ∧ issue = .reservedName r.knownId)
        ∨ (isBlank b.2 = true ∧ spot = .bindingPattern before.length
          ∧ issue = .missing r.knownId .binding)) (r.bindingIssues b) := by
    intro before b
    refine (Listing.guarded _ _ _ _).append (Listing.guarded _ _ _ _) ?_
    rintro _ _ _ _ ⟨-, rfl, -⟩ ⟨-, rfl, -⟩
    simp [Spot.key, List.cons_lt_cons_iff]
  have halong := Listing.alongEach hone
    (by
      rintro before b spot issue before' b' spot' issue' hlt
        (⟨-, rfl, -⟩ | ⟨-, rfl, -⟩) (⟨-, rfl, -⟩ | ⟨-, rfl, -⟩) <;>
        simp [Spot.key, List.cons_lt_cons_iff, hlt]) r.bindings
  refine halong.congr fun spot issue => ⟨?_, ?_⟩
  · rintro ⟨before, b, after, hsplit, ⟨hname, rfl, rfl⟩ | ⟨hblank, rfl, rfl⟩⟩
    · exact ⟨rfl, .reservedName hsplit hname⟩
    · exact ⟨rfl, .blankBinding hsplit hblank⟩
  · rintro ⟨hpart, h⟩
    cases h with
    | reservedName hsplit hname => exact ⟨_, _, _, hsplit, Or.inl ⟨hname, rfl, rfl⟩⟩
    | blankBinding hsplit hblank => exact ⟨_, _, _, hsplit, Or.inr ⟨hblank, rfl, rfl⟩⟩
    | _ => cases hpart

/-- Names read as strings are bound exactly if they are bound as they stand. -/
theorem binds_toStr_eq_false_iff {name : Text} (hname : name.IsUtf8) :
    r.binds name.toStr = false
      ↔ name ≠ Text.ofString nodeBinding ∧ ∀ b ∈ r.bindings, name ≠ Text.ofString b.1 := by
  have hstring : ∀ s : String, name.toStr = s ↔ name = Text.ofString s := by
    intro s
    rw [← Text.ofString_inj, Text.ofString_toStr hname]
  rw [← Bool.not_eq_true, binds_iff]
  simp only [hstring, not_or, not_exists, not_and, ne_eq]

/-- The issues with names that the pieces have and the rule does not bind. -/
def unboundIssues (r : Rule) (ps : List Piece) : List Issue :=
  (((namesAmong ps).map Text.toStr).filter (!r.binds ·)).map (.unboundName r.knownId)

/-- The issue that a piece adds to those of the pieces before it: it is a placeholder with a
new name, and nothing is bound to that. -/
def unboundIssuesAt (r : Rule) (before : List Piece) : Piece → List Issue
  | .plain _ => []
  | .hole _ name =>
      if name ∉ namesAmong before ∧ r.binds name.toStr = false
      then [.unboundName r.knownId name.toStr] else []

theorem unboundIssues_concat (before : List Piece) (p : Piece) :
    r.unboundIssues (before ++ [p]) = r.unboundIssues before ++ r.unboundIssuesAt before p := by
  cases p with
  | plain b =>
      have hnames : namesAmong (before ++ [.plain b]) = namesAmong before := by
        unfold namesAmong
        rw [List.filterMap_append]
        exact congrArg _ (List.append_nil _)
      unfold unboundIssues
      rw [hnames, unboundIssuesAt, List.append_nil]
  | hole long name =>
      have hnames : namesAmong (before ++ [.hole long name])
          = if name ∈ namesAmong before then namesAmong before
            else namesAmong before ++ [name] := by
        unfold namesAmong
        simp [Template.placeholders.holeName, List.foldl_append]
      unfold unboundIssues unboundIssuesAt
      rw [hnames]
      by_cases hnew : name ∈ namesAmong before
      · simp [hnew]
      · cases hbinds : r.binds name.toStr <;> simp [hnew, hbinds]

theorem listing_unboundIssuesAt (before : List Piece) (p : Piece) :
    Listing Spot.key
      (fun spot issue => ∃ long name, p = .hole long name
        ∧ (name ∉ namesAmong before ∧ r.binds name.toStr = false)
        ∧ spot = .placeholder before.length ∧ issue = .unboundName r.knownId name.toStr)
      (r.unboundIssuesAt before p) := by
  cases p with
  | plain b => exact Listing.nil (by simp)
  | hole long name =>
      refine (Listing.guarded Spot.key _ (.placeholder before.length) _).congr
        fun spot issue => ?_
      simp only [Piece.hole.injEq, existsAndEq, true_and]

theorem listing_unboundIssues {source : String} (hsource : r.operation.template? = some source) :
    Listing Spot.key (fun spot issue => spot.part = 4 ∧ r.Flawed earlier spot issue)
      (r.unboundIssues (pieces (Text.ofString source))) := by
  have halong := Listing.along r.unboundIssues rfl unboundIssues_concat listing_unboundIssuesAt
    (by
      rintro before p spot issue before' p' spot' issue' hlt ⟨_, _, -, -, rfl, -⟩
        ⟨_, _, -, -, rfl, -⟩
      simp [Spot.key, List.cons_lt_cons_iff, hlt]) (pieces (Text.ofString source))
  have hutf8 : ∀ {before after long name},
      pieces (Text.ofString source) = before ++ .hole long name :: after → name.IsUtf8 := by
    intro before after long name hsplit
    have hmem : .hole long name ∈ pieces (Text.ofString source) := by simp [hsplit]
    exact isUtf8_of_hole_mem_pieces hmem
  refine halong.congr fun spot issue => ⟨?_, ?_⟩
  · rintro ⟨before, _, after, hsplit, long, name, rfl, ⟨hnew, hbinds⟩, rfl, rfl⟩
    obtain ⟨hnode, hbound⟩ := (binds_toStr_eq_false_iff (hutf8 hsplit)).mp hbinds
    exact ⟨rfl, .unbound hsource hsplit (fun long' h => hnew (mem_namesAmong_iff.mpr ⟨long', h⟩))
      hnode hbound⟩
  · rintro ⟨hpart, h⟩
    cases h with
    | @unbound source' before after long name hsource' hsplit hnew hnode hbound =>
        rw [hsource] at hsource'
        cases hsource'
        refine ⟨before, _, after, hsplit, long, name, rfl, ⟨fun h => ?_, ?_⟩, rfl, rfl⟩
        · obtain ⟨long', h⟩ := mem_namesAmong_iff.mp h
          exact hnew long' h
        · exact (binds_toStr_eq_false_iff (hutf8 hsplit)).mpr ⟨hnode, hbound⟩
    | _ => cases hpart

/-- The flaws of the template come last. -/
theorem listing_append_templateIssues {issues : List Issue}
    (h : Listing Spot.key (fun spot issue => spot.part < 3 ∧ r.Flawed earlier spot issue) issues) :
    Listing Spot.key (r.Flawed earlier) (issues ++ r.templateIssues) := by
  unfold templateIssues
  cases hsource : r.operation.template? with
  | none =>
      rw [List.append_nil]
      -- without a template there is nothing to be wrong with it
      refine h.congr fun spot issue => ⟨And.right, fun hflaw => ⟨?_, hflaw⟩⟩
      cases hflaw with
      | emptyTemplate h | unbound h =>
          rw [hsource] at h
          cases h
      | _ => simp [Spot.part]
  | some source =>
      have hempty : Listing Spot.key
          (fun spot issue => spot.part = 3 ∧ r.Flawed earlier spot issue)
          (if source.isEmpty then [.missing r.knownId .template] else []) := by
        refine (Listing.guarded Spot.key _ .template _).congr fun spot issue => ⟨?_, ?_⟩
        · rintro ⟨hempty, rfl, rfl⟩
          rw [String.isEmpty_iff] at hempty
          exact ⟨rfl, .emptyTemplate (hempty ▸ hsource)⟩
        · rintro ⟨hpart, hflaw⟩
          cases hflaw with
          | emptyTemplate hsource' =>
              rw [hsource] at hsource'
              cases hsource'
              exact ⟨rfl, rfl, rfl⟩
          | _ => cases hpart
      have hall := (h.next Spot.key_lt_of_part_lt hempty).next Spot.key_lt_of_part_lt
        (listing_unboundIssues hsource)
      rw [List.append_assoc] at hall
      exact hall.congr fun spot issue =>
        ⟨And.right, fun hflaw => ⟨spot.part_lt, hflaw⟩⟩

/-- **The issues of a rule list its flaws.** -/
theorem listing_issues {ids : List String} (hids : ∀ id, id ∈ ids ↔ id ∈ earlier.map Rule.id) :
    Listing Spot.key (r.Flawed earlier) (r.issues ids) := by
  have hnone : Listing Spot.key (fun spot issue => spot.part < 0 ∧ r.Flawed earlier spot issue)
      [] := Listing.nil (by simp)
  have hfront := ((hnone.next Spot.key_lt_of_part_lt (listing_idIssues hids)).next
    Spot.key_lt_of_part_lt listing_queryIssues).next Spot.key_lt_of_part_lt listing_bindingIssues
  exact listing_append_templateIssues hfront

end Rule

/-! ## §3. The flaws of a rule file. -/

/-- A place of a rule file. -/
inductive Place where
  /-- The list of rules. -/
  | rules
  | language
  /-- The k-th glob, of those that must match and then of those that must not. -/
  | glob (k : Nat)
  /-- A place of the i-th rule. -/
  | rule (i : Nat) (spot : Spot)
  deriving DecidableEq, Repr

namespace Place

/-- The part of the file that the place belongs to. -/
def part : Place → Nat
  | .rules => 0
  | .language => 1
  | .glob _ => 2
  | .rule _ _ => 3

/-- Where the place comes in the order of places. -/
def key : Place → List Nat
  | .rules => [0]
  | .language => [1]
  | .glob k => [2, k]
  | .rule i spot => 3 :: i :: spot.key

theorem part_lt (p : Place) : p.part < 4 := by
  cases p <;> simp [part]

theorem key_lt_of_part_lt {a b : Place} (h : a.part < b.part) : a.key < b.key := by
  cases a <;> cases b <;> simp_all [part, key, List.cons_lt_cons_iff]

/-- The place comes earlier: file before rules, rules in their order. -/
def Before (a b : Place) : Prop :=
  a.key < b.key

end Place

theorem issuesAmong_concat (ids : List String) (rules : List Rule) (r : Rule) :
    issuesAmong ids (rules ++ [r])
      = issuesAmong ids rules ++ r.issues ((rules.map Rule.id).reverse ++ ids) := by
  induction rules generalizing ids with
  | nil => simp [issuesAmong]
  | cons first rules ih => simp [issuesAmong, ih]

namespace RuleFile

/-- What is wrong with a rule file, and how it is told. -/
inductive Flawed (f : RuleFile) : Place → Issue → Prop where
  | noRules : f.rules = [] → Flawed f .rules .noRules
  | unknownLanguage {name : String} : f.info.lang = some name → Language.ofName? name = none →
      Flawed f .language (.unknownLanguage name)
  | badGlob {before after : List String} {source : String} {cause : GlobError} :
      f.info.includes ++ f.info.excludes = before ++ source :: after →
      Glob.compile source = .error cause → Flawed f (.glob before.length) (.badGlob source cause)
  | inRule {before after : List Rule} {r : Rule} {spot : Spot} {issue : Issue} :
      f.rules = before ++ r :: after → r.Flawed before spot issue →
      Flawed f (.rule before.length spot) issue

variable {f : RuleFile}

theorem listing_languageIssues :
    Listing Place.key (fun place issue => place.part = 1 ∧ f.Flawed place issue)
      f.languageIssues := by
  have hone : Listing Place.key
      (fun place issue => ∃ name, f.info.lang = some name ∧ Language.ofName? name = none
        ∧ place = .language ∧ issue = .unknownLanguage name) f.languageIssues := by
    unfold languageIssues
    cases f.info.lang with
    | none => exact Listing.nil (by simp)
    | some name =>
        have hissue : (if (Language.ofName? name).isSome then [] else [.unknownLanguage name])
            = if Language.ofName? name = none then [Issue.unknownLanguage name] else [] := by
          cases Language.ofName? name <;> rfl
        dsimp only
        rw [hissue]
        refine (Listing.guarded Place.key _ .language _).congr fun place issue => ?_
        simp only [Option.some.injEq, exists_eq_left']
  refine hone.congr fun place issue => ⟨?_, ?_⟩
  · rintro ⟨name, hlang, hunknown, rfl, rfl⟩
    exact ⟨rfl, .unknownLanguage hlang hunknown⟩
  · rintro ⟨hpart, h⟩
    cases h with
    | unknownLanguage hlang hunknown => exact ⟨_, hlang, hunknown, rfl, rfl⟩
    | _ => cases hpart

theorem listing_globIssues :
    Listing Place.key (fun place issue => place.part = 2 ∧ f.Flawed place issue)
      ((f.info.includes ++ f.info.excludes).flatMap globIssues) := by
  have hone : ∀ (before : List String) (source : String), Listing Place.key
      (fun place issue => ∃ cause, Glob.compile source = .error cause
        ∧ place = .glob before.length ∧ issue = .badGlob source cause) (globIssues source) := by
    intro before source
    unfold globIssues
    cases Glob.compile source with
    | ok g => exact Listing.nil (by simp)
    | error cause =>
        refine (Listing.guarded Place.key True (.glob before.length) (.badGlob source cause)).congr
          fun place issue => ?_
        simp
  have halong := Listing.alongEach hone
    (by
      rintro before source place issue before' source' place' issue' hlt ⟨_, -, rfl, -⟩
        ⟨_, -, rfl, -⟩
      simp [Place.key, List.cons_lt_cons_iff, hlt]) (f.info.includes ++ f.info.excludes)
  refine halong.congr fun place issue => ⟨?_, ?_⟩
  · rintro ⟨before, source, after, hsplit, cause, hcause, rfl, rfl⟩
    exact ⟨rfl, .badGlob hsplit hcause⟩
  · rintro ⟨hpart, h⟩
    cases h with
    | badGlob hsplit hcause => exact ⟨_, _, _, hsplit, _, hcause, rfl, rfl⟩
    | _ => cases hpart

theorem listing_issuesAmong :
    Listing Place.key (fun place issue => place.part = 3 ∧ f.Flawed place issue)
      (issuesAmong [] f.rules) := by
  have hone : ∀ (before : List Rule) (r : Rule), Listing Place.key
      (fun place issue => ∃ spot, place = .rule before.length spot ∧ r.Flawed before spot issue)
      (r.issues ((before.map Rule.id).reverse ++ [])) := by
    intro before r
    have hrule : Listing Spot.key (r.Flawed before)
        (r.issues ((before.map Rule.id).reverse ++ [])) := Rule.listing_issues fun id => by simp
    refine hrule.embed _ fun hlt => ?_
    simp [Place.key, hlt]
  have halong := Listing.along (issuesAmong []) rfl (issuesAmong_concat []) hone
    (by
      rintro before r place issue before' r' place' issue' hlt ⟨_, rfl, -⟩ ⟨_, rfl, -⟩
      simp [Place.key, List.cons_lt_cons_iff, hlt]) f.rules
  refine halong.congr fun place issue => ⟨?_, ?_⟩
  · rintro ⟨before, r, after, hsplit, spot, rfl, hflaw⟩
    exact ⟨rfl, .inRule hsplit hflaw⟩
  · rintro ⟨hpart, h⟩
    cases h with
    | inRule hsplit hflaw => exact ⟨_, _, _, hsplit, _, rfl, hflaw⟩
    | _ => cases hpart

/-- **The issues of a rule file list its flaws.** -/
theorem listing_issues (f : RuleFile) : Listing Place.key f.Flawed f.issues := by
  have hnone : Listing Place.key (fun place issue => place.part < 0 ∧ f.Flawed place issue) [] :=
    Listing.nil (by simp)
  have hrules : Listing Place.key (fun place issue => place.part = 0 ∧ f.Flawed place issue)
      (if f.rules.isEmpty then [.noRules] else []) := by
    refine (Listing.guarded Place.key _ .rules _).congr fun place issue => ⟨?_, ?_⟩
    · rintro ⟨hempty, rfl, rfl⟩
      exact ⟨rfl, .noRules (List.isEmpty_iff.mp hempty)⟩
    · rintro ⟨hpart, h⟩
      cases h with
      | noRules hempty => exact ⟨List.isEmpty_iff.mpr hempty, rfl, rfl⟩
      | _ => cases hpart
  have hall := (((hnone.next Place.key_lt_of_part_lt hrules).next Place.key_lt_of_part_lt
    listing_languageIssues).next Place.key_lt_of_part_lt listing_globIssues).next
    Place.key_lt_of_part_lt listing_issuesAmong
  exact hall.congr fun place issue => ⟨And.right, fun h => ⟨place.part_lt, h⟩⟩

end RuleFile

end StructuralEdit
