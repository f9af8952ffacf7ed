/-
  StructuralEdit.Proofs.Template.Substitution
  ───────────────────────────────────────────
  **A TEMPLATE IS FILLED IN AT ONE STROKE.**

  Building goes piece by piece, and stops at the first placeholder that nothing is bound to.
  Seen from the spans of the placeholders it is one substitution into the ORIGINAL source,

      source[0 .. s₁] ++ v₁ ++ source[e₁ .. s₂] ++ v₂ ++ … ++ vₖ ++ source[eₖ ..]

  with the value last bound to its name for each span (`Template.build_eq_ok_iff`).  No value
  is ever scanned, being no part of that source.  Listing the names goes over the same spans
  and keeps each name where it is first seen (`Template.pairwise_placeholders`).
-/
import StructuralEdit.Proofs.Rule.Atomic
import StructuralEdit.Proofs.Splice.Substitution
import StructuralEdit.Proofs.Template.Occurrences

namespace StructuralEdit

/-! ## §1. The names, in order. -/

/-- `a` stands in the list before any `b`, and is not `b`. -/
def ComesBefore (names : List Text) (a b : Text) : Prop :=
  ∃ earlier later, names = earlier ++ a :: later ∧ b ∉ earlier ∧ b ≠ a

theorem ComesBefore.append {names : List Text} {a b : Text} (h : ComesBefore names a b)
    (more : List Text) : ComesBefore (names ++ more) a b := by
  obtain ⟨earlier, later, rfl, hb, hne⟩ := h
  exact ⟨earlier, later ++ more, by simp, hb, hne⟩

theorem comesBefore_concat {names : List Text} {a b : Text} (ha : a ∈ names) (hb : b ∉ names) :
    ComesBefore (names ++ [b]) a b := by
  obtain ⟨earlier, later, rfl⟩ := List.append_of_mem ha
  refine ComesBefore.append ⟨earlier, later, rfl, ?_, ?_⟩ [b]
  · intro h
    exact hb (List.mem_append_left _ h)
  · rintro rfl
    exact hb ha

/-- **Collecting what has not been seen yet keeps the order of first sight.** -/
theorem pairwise_foldl_new (names past : List Text) {seen : List Text}
    (hseen : ∀ n, n ∈ seen ↔ n ∈ past) (hpair : seen.Pairwise (ComesBefore past)) :
    (names.foldl (fun seen n => if seen.contains n then seen else seen ++ [n]) seen).Pairwise
      (ComesBefore (past ++ names)) := by
  -- `past` are the names that have been gone through, `seen` what was kept of them
  induction names generalizing past seen with
  | nil => simpa using hpair
  | cons n names ih =>
      have hstay : seen.Pairwise (ComesBefore (past ++ [n])) := hpair.imp fun h => h.append [n]
      rw [List.foldl_cons, List.append_cons]
      by_cases hn : n ∈ past
      · rw [if_pos (List.contains_iff_mem.mpr ((hseen n).mpr hn))]
        refine ih (past ++ [n]) (fun m => ?_) hstay
        rw [hseen m]
        grind
      · have hnew : ¬ seen.contains n = true := by
          rw [List.contains_iff_mem, hseen n]
          exact hn
        rw [if_neg hnew]
        refine ih (past ++ [n]) (fun m => ?_) ?_
        · rw [List.mem_append, List.mem_append, hseen m]
        · refine List.pairwise_append.mpr ⟨hstay, List.pairwise_singleton _ _, ?_⟩
          intro a ha b hb
          rw [List.mem_singleton.mp hb]
          exact comesBefore_concat ((hseen a).mp ha) hn

theorem map_name_occurrencesFrom (i : Nat) (ps : List Piece) :
    (occurrencesFrom i ps).map Occurrence.name = ps.filterMap Template.placeholders.holeName := by
  induction ps generalizing i with
  | nil => rfl
  | cons p ps ih =>
      cases p with
      | plain b => exact ih (i + 1)
      | hole long name =>
          show name :: (occurrencesFrom _ ps).map Occurrence.name = name :: _
          rw [ih]

/-- Where the placeholders are parted at one of them, the others lie on the side that their
start tells. -/
theorem IsPlaceholder.earlier_or_later {source : Text} {o o' : Occurrence}
    {earlier later : List Occurrence} (h : IsPlaceholder source o')
    (hsplit : occurrences source = earlier ++ o :: later) :
    (o' ∈ earlier ∧ o'.start < o.start) ∨ o' = o ∨ (o' ∈ later ∧ o.start < o'.start) := by
  have hpair := pairwise_occurrences source
  rw [hsplit, List.pairwise_append, List.pairwise_cons] at hpair
  obtain ⟨-, ⟨hlater, -⟩, hearlier⟩ := hpair
  rw [← mem_occurrences_iff, hsplit, List.mem_append, List.mem_cons] at h
  rcases h with h | rfl | h
  · exact Or.inl ⟨h, hearlier o' h o List.mem_cons_self⟩
  · exact Or.inr (Or.inl rfl)
  · exact Or.inr (Or.inr ⟨h, hlater o' h⟩)

/-- Some placeholder of name `a` stands before every one of name `b`. -/
def AppearsBefore (source : Text) (a b : Text) : Prop :=
  ∃ o, IsPlaceholder source o ∧ o.name = a
    ∧ ∀ o', IsPlaceholder source o' → o'.name = b → o.start < o'.start

theorem appearsBefore_of_comesBefore {source a b : Text}
    (h : ComesBefore ((occurrences source).map Occurrence.name) a b) :
    AppearsBefore source a b := by
  obtain ⟨earlier, later, hsplit, hb, hne⟩ := h
  obtain ⟨os, os', hos, rfl, hlater⟩ := List.map_eq_append_iff.mp hsplit
  obtain ⟨o, os'', rfl, rfl, -⟩ := List.map_eq_cons_iff.mp hlater
  refine ⟨o, mem_occurrences_iff.mp (hos ▸ by simp), rfl, fun o' ho' hname => ?_⟩
  rcases ho'.earlier_or_later hos with ⟨hearlier, -⟩ | rfl | ⟨-, hlt⟩
  · exact absurd (List.mem_map.mpr ⟨o', hearlier, hname⟩) hb
  · exact absurd hname.symm hne
  · exact hlt

namespace Template

theorem placeholders_eq (t : Template) :
    t.placeholders = ((occurrences t.source).map Occurrence.name).foldl
      (fun seen n => if seen.contains n then seen else seen ++ [n]) [] := by
  unfold placeholders occurrences
  rw [map_name_occurrencesFrom]

/-- **The names are listed in order of first appearance.** -/
theorem pairwise_placeholders (t : Template) :
    t.placeholders.Pairwise (AppearsBefore t.source) := by
  rw [placeholders_eq]
  refine (pairwise_foldl_new _ [] (fun n => Iff.rfl) List.Pairwise.nil).imp fun h => ?_
  exact appearsBefore_of_comesBefore h

theorem mem_placeholders_iff_exists {t : Template} {name : Text} :
    name ∈ t.placeholders ↔ ∃ o, IsPlaceholder t.source o ∧ o.name = name := by
  rw [placeholders_eq, mem_foldl_new_iff]
  simp only [List.not_mem_nil, false_or, List.mem_map, mem_occurrences_iff]

end Template

/-! ## §2. Values in place of spans. -/

/-- Put the value of its name in place of a placeholder. -/
def Occurrence.edit (value : Text → Text) (o : Occurrence) : Edit :=
  ⟨o.start, o.stop, value o.name⟩

/-- **Filling in the pieces is one substitution into the source.** -/
theorem substituteFrom_occurrencesFrom {source : Text} (value : Text → Text) (skip : Nat) (t : Text)
    {i : Nat} (ht : source.drop i = t) :
    substituteFrom source (i + skip)
        ((occurrencesFrom (i + skip) (piecesFrom skip t)).map (Occurrence.edit value))
      = (piecesFrom skip t).flatMap (Piece.filled value) := by
  -- along the scanner: what has been read is copied or replaced, what is skipped is neither
  fun_induction piecesFrom skip t generalizing i with
  | case1 skip =>
      show source.drop (i + skip) = []
      rw [← List.drop_drop, ht, List.drop_nil]
  | case2 skip b t ih =>
      have htail := drop_succ_of_cons ht
      rw [show i + (skip + 1) = i + 1 + skip by omega]
      exact ih htail
  | case3 b t p hp ih =>
      have htail := drop_succ_of_cons ht
      have hpos := p.spelling_length_pos
      have hnext : i + 1 + (p.spelling.length - 1) = i + p.spelling.length := by omega
      have ih := ih htail
      obtain ⟨long, rest, rfl⟩ := exists_nameAt_of_holeAt hp
      rw [hnext] at ih
      -- the span starts where the text has been read to, so nothing is copied before it
      have hempty : source.slice i i = [] := by
        unfold Text.slice
        rw [Nat.sub_self, List.take_zero]
      show source.slice i i ++ value (nameAt rest) ++ substituteFrom source _ _ = value _ ++ _
      rw [hempty, List.nil_append, Nat.add_zero]
      exact congrArg (value (nameAt rest) ++ ·) ih
  | case4 b t hp ih =>
      have htail := drop_succ_of_cons ht
      have hbyte : source.slice i (i + 1) = [b] := by
        unfold Text.slice
        rw [ht, Nat.add_sub_cancel_left]
        rfl
      have hlater : ∀ d ∈ (occurrencesFrom (i + 1) (piecesFrom 0 t)).map (Occurrence.edit value),
          i + 1 ≤ d.pos := by
        intro d hd
        obtain ⟨o, ho, rfl⟩ := List.mem_map.mp hd
        exact ((pairwise_occurrencesFrom (i + 1) _).2 o ho).1
      show substituteFrom source i ((occurrencesFrom (i + 1) _).map _) = [b] ++ _
      rw [substituteFrom_split source (Nat.le_succ i) hlater, hbyte]
      exact congrArg ([b] ++ ·) (ih htail)

theorem substituted_eq_substitute (value : Text → Text) (source : Text) :
    substituted value source
      = substitute source ((occurrences source).map (Occurrence.edit value)) :=
  (substituteFrom_occurrencesFrom value 0 source List.drop_zero).symm

/-! ## §3. What is bound. -/

namespace Template

/-- Bind one value after another. -/
def bindAll (t : Template) (binds : List (Text × Text)) : Template :=
  binds.foldl (fun t b => t.bind b.1 b.2) t

@[simp]
theorem source_bindAll (t : Template) (binds : List (Text × Text)) :
    (t.bindAll binds).source = t.source := by
  unfold bindAll
  induction binds generalizing t with
  | nil => rfl
  | cons b binds ih => exact ih (t.bind b.1 b.2)

theorem bindings_bindAll (t : Template) (binds : List (Text × Text)) :
    (t.bindAll binds).bindings = binds.reverse ++ t.bindings := by
  unfold bindAll
  induction binds generalizing t with
  | nil => rfl
  | cons b binds ih =>
      rw [List.foldl_cons, ih (t.bind b.1 b.2), List.reverse_cons, List.append_assoc]
      rfl

/-- From nothing bound, the bindings are the calls, the latest first. -/
theorem bindings_bindAll_new (source : Text) (binds : List (Text × Text)) :
    (bindAll { source } binds).bindings = binds.reverse := by
  rw [bindings_bindAll, List.append_nil]

/-- The value bound to the name by the last call for it. -/
def LastBound (binds : List (Text × Text)) (name value : Text) : Prop :=
  ∃ before after, binds = before ++ (name, value) :: after ∧ name ∉ after.map Prod.fst

theorem lookup_reverse_eq_some_iff {binds : List (Text × Text)} {name value : Text} :
    binds.reverse.lookup name = some value ↔ LastBound binds name value := by
  rw [List.lookup_eq_some_iff]
  constructor
  · intro ⟨later, earlier, hsplit, hlater⟩
    refine ⟨earlier.reverse, later.reverse, ?_, ?_⟩
    · rw [← List.reverse_reverse binds, hsplit]
      simp
    · intro hmem
      obtain ⟨b, hb, rfl⟩ := List.mem_map.mp hmem
      simpa using hlater b (List.mem_reverse.mp hb)
  · rintro ⟨before, after, rfl, hafter⟩
    refine ⟨after.reverse, before.reverse, by simp, fun b hb => ?_⟩
    rw [List.mem_reverse] at hb
    have hne : name ≠ b.1 := by
      rintro rfl
      exact hafter (List.mem_map.mpr ⟨b, hb, rfl⟩)
    simpa using hne

theorem lookup_eq_some_valueOf {t : Template} {name : Text} (h : name ∈ t.bindings.map Prod.fst) :
    t.bindings.lookup name = some (t.valueOf name) := by
  cases hlookup : t.bindings.lookup name with
  | none =>
      have hfill : ∃ text, t.fill (.hole false name) = .ok text := exists_fill_hole_iff.mpr h
      obtain ⟨text, htext⟩ := hfill
      rw [fill, hlookup] at htext
      cases htext
  | some value =>
      unfold valueOf
      rw [hlookup]
      rfl

/-- What is bound to a name depends on the calls for that name only. -/
theorem lookup_filter_eq (bindings : List (Text × Text)) (name : Text) :
    (bindings.filter (·.1 == name)).lookup name = bindings.lookup name := by
  induction bindings with
  | nil => rfl
  | cons b bindings ih =>
      by_cases hb : b.1 = name
      · subst hb
        rw [List.filter_cons_of_pos (by simp), List.lookup_cons, List.lookup_cons, ih]
      · have hne : (name == b.1) = false := by simpa using Ne.symm hb
        rw [List.filter_cons_of_neg (by simpa using hb), ih, List.lookup_cons, hne]

end Template

/-! ## §4. What is built. -/

theorem map_eq_error_iff {ε α β : Type} {x : Except ε α} {f : α → β} {e : ε} :
    (do let a ← x; pure (f a)) = Except.error e ↔ x = .error e := by
  cases x with
  | ok a => simp [bind, Except.bind, pure, Except.pure]
  | error e' => simp [bind, Except.bind]

namespace Template

theorem fill_hole_of_unbound {t : Template} {name : Text} (long : Bool)
    (h : name ∉ t.bindings.map Prod.fst) : t.fill (.hole long name) = .error (.unbound name.toStr) := by
  rw [fill]
  split
  next value hvalue =>
      obtain ⟨before, after, hsplit, -⟩ := List.lookup_eq_some_iff.mp hvalue
      rw [hsplit] at h
      simp at h
  next => rfl

/-- **The first piece that cannot be filled in is the first unbound placeholder.** -/
theorem mapM_fill_eq_error_iff {t : Template} {ps : List Piece} {e : TemplateError} (i : Nat) :
    ps.mapM t.fill = .error e
      ↔ ∃ o, (occurrencesFrom i ps).find? (fun o => decide (o.name ∉ t.bindings.map Prod.fst)) = some o
        ∧ e = .unbound o.name.toStr := by
  -- both sides stop at the same piece, since a plain one never fails
  induction ps generalizing i with
  | nil => simp [occurrencesFrom, pure, Except.pure]
  | cons p ps ih =>
      rw [List.mapM_cons]
      cases p with
      | plain b => exact map_eq_error_iff.trans (ih (i + 1))
      | hole long name =>
          by_cases hbound : name ∈ t.bindings.map Prod.fst
          · obtain ⟨text, htext⟩ := exists_fill_hole_iff.mpr hbound
            rw [htext, occurrencesFrom, List.find?_cons_of_neg (by simpa using hbound)]
            exact map_eq_error_iff.trans (ih _)
          · rw [fill_hole_of_unbound long hbound, occurrencesFrom,
                List.find?_cons_of_pos (by simpa using hbound)]
            constructor
            · intro h
              cases h
              exact ⟨_, rfl, rfl⟩
            · rintro ⟨o, ho, rfl⟩
              cases ho
              rfl

/-- The first placeholder of a source that nothing is bound to. -/
@[mk_iff]
structure FirstUnbound (source : Text) (binds : List (Text × Text)) (o : Occurrence) : Prop where
  placeholder : IsPlaceholder source o
  unbound : o.name ∉ binds.map Prod.fst
  first : ∀ o', IsPlaceholder source o' → o'.start < o.start → o'.name ∈ binds.map Prod.fst

theorem find?_occurrences_eq_some_iff {source : Text} {binds : List (Text × Text)} {o : Occurrence} :
    (occurrences source).find? (fun o => decide (o.name ∉ binds.map Prod.fst)) = some o
      ↔ FirstUnbound source binds o := by
  rw [List.find?_eq_some_iff_append]
  constructor
  · rintro ⟨hunbound, earlier, later, hsplit, hearlier⟩
    refine ⟨mem_occurrences_iff.mp (hsplit ▸ by simp), by simpa using hunbound, ?_⟩
    intro o' ho' hlt
    rcases ho'.earlier_or_later hsplit with ⟨hmem, -⟩ | rfl | ⟨-, hgt⟩
    · simpa using hearlier o' hmem
    · omega
    · omega
  · rintro ⟨hplace, hunbound, hfirst⟩
    obtain ⟨earlier, later, hsplit⟩ := List.append_of_mem (mem_occurrences_iff.mpr hplace)
    refine ⟨by simpa using hunbound, earlier, later, hsplit, fun o' ho' => ?_⟩
    have hmem : o' ∈ occurrences source := hsplit ▸ List.mem_append_left _ ho'
    have hpair := pairwise_occurrences source
    rw [hsplit] at hpair
    have hlt := (List.pairwise_append.mp hpair).2.2 o' ho' o List.mem_cons_self
    simpa using hfirst o' (mem_occurrences_iff.mp hmem) hlt

/-- **No text is built just if a placeholder is unbound, and the first one is named.** -/
theorem build_eq_error_iff {t : Template} {e : TemplateError} :
    t.build = .error e ↔ ∃ o, FirstUnbound t.source t.bindings o ∧ e = .unbound o.name.toStr := by
  unfold build
  rw [map_eq_error_iff, mapM_fill_eq_error_iff 0]
  simp only [← find?_occurrences_eq_some_iff]
  rfl

theorem substituted_congr {value value' : Text → Text} {source : Text}
    (h : ∀ long name, .hole long name ∈ pieces source → value name = value' name) :
    substituted value source = substituted value' source := by
  unfold substituted
  rw [List.flatMap_def, List.flatMap_def]
  congr 1
  refine List.map_congr_left fun p hp => ?_
  cases p with
  | plain b => rfl
  | hole long name => exact h long name hp

theorem exists_build_iff_placeholders {t : Template} :
    (∃ text, t.build = .ok text) ↔ ∀ name ∈ t.placeholders, name ∈ t.bindings.map Prod.fst := by
  rw [exists_build_iff]
  constructor
  · intro h name hname
    obtain ⟨long, hmem⟩ := mem_placeholders_iff.mp hname
    exact h long name hmem
  · intro h long name hmem
    exact h name (mem_placeholders_iff.mpr ⟨long, hmem⟩)

/-- **What is built is the source with the bound value in place of every span.** -/
theorem build_eq_ok_iff {t : Template} {text : Text} :
    t.build = .ok text ↔ ∃ value : Text → Text,
      (∀ name ∈ t.placeholders, t.bindings.lookup name = some (value name))
      ∧ text = substitute t.source ((occurrences t.source).map (Occurrence.edit value)) := by
  constructor
  · intro h
    have hbound := exists_build_iff_placeholders.mp ⟨text, h⟩
    refine ⟨t.valueOf, fun name hname => lookup_eq_some_valueOf (hbound name hname), ?_⟩
    rw [eq_substituted_of_build h, substituted_eq_substitute]
  · rintro ⟨value, hvalue, rfl⟩
    have hbound : ∀ name ∈ t.placeholders, name ∈ t.bindings.map Prod.fst := by
      intro name hname
      obtain ⟨before, after, hsplit, -⟩ := List.lookup_eq_some_iff.mp (hvalue name hname)
      rw [hsplit]
      simp
    obtain ⟨text, htext⟩ := exists_build_iff_placeholders.mpr hbound
    have hcongr : substituted t.valueOf t.source = substituted value t.source := by
      refine substituted_congr fun long name hmem => ?_
      unfold valueOf
      rw [hvalue name (mem_placeholders_iff.mpr ⟨long, hmem⟩)]
      rfl
    rw [htext, eq_substituted_of_build htext, hcongr, substituted_eq_substitute]

/-- What is built depends on what the names are bound to only. -/
theorem build_congr {t t' : Template} (hsource : t.source = t'.source)
    (hlookup : ∀ name, t.bindings.lookup name = t'.bindings.lookup name) : t.build = t'.build := by
  have hfill : t.fill = t'.fill := by
    funext p
    cases p with
    | plain b => rfl
    | hole long name => rw [fill, fill, hlookup name]
  unfold build
  rw [hsource, hfill]

end Template

/-! ## §5. Templates as a whole. -/

/-- **Templates are filled in at one stroke.**  Whatever is bound, in whatever order: the
names that are listed are those of the placeholders, each once, in order of first appearance.
A text is built just if all of them are bound, and it is the source with the value last bound
in place of every placeholder.  Otherwise the first unbound placeholder is the error. -/
theorem templates_substitute_at_once (source : Text) (hsource : source.IsUtf8)
    (binds : List (Text × Text)) :
    let t := Template.bindAll { source } binds
    -- the names
    (∀ name, name ∈ t.placeholders ↔ ∃ o, IsPlaceholder source o ∧ o.name = name)
    ∧ t.placeholders.Nodup
    ∧ t.placeholders.Pairwise (AppearsBefore source)
    -- the spans
    ∧ (∀ o, o ∈ occurrences source ↔ IsPlaceholder source o)
    ∧ (occurrences source).Pairwise (fun a b => a.stop ≤ b.start)
    ∧ (∀ o, IsPlaceholder source o →
        source.isBoundary o.start = true ∧ source.isBoundary o.stop = true)
    -- the text, or the error
    ∧ ((∃ text, t.build = .ok text) ↔ ∀ name ∈ t.placeholders, name ∈ binds.map Prod.fst)
    ∧ (∀ text, t.build = .ok text ↔ ∃ value : Text → Text,
        (∀ name ∈ t.placeholders, Template.LastBound binds name (value name))
        ∧ text = substitute source ((occurrences source).map (Occurrence.edit value)))
    ∧ (∀ e, t.build = .error e ↔ ∃ o, Template.FirstUnbound source binds o
        ∧ e = .unbound o.name.toStr ∧ Text.ofString o.name.toStr = o.name)
    -- the order of the calls for different names
    ∧ ∀ binds', (∀ name, binds'.filter (·.1 == name) = binds.filter (·.1 == name)) →
        (Template.bindAll { source } binds').build = t.build := by
  intro t
  have hsame : t.source = source := Template.source_bindAll _ binds
  have hbindings : t.bindings = binds.reverse := Template.bindings_bindAll_new source binds
  have hkeys : ∀ name, name ∈ t.bindings.map Prod.fst ↔ name ∈ binds.map Prod.fst := by
    intro name
    rw [hbindings, List.map_reverse, List.mem_reverse]
  have horder : t.placeholders.Pairwise (AppearsBefore source) := hsame ▸ t.pairwise_placeholders
  refine ⟨fun name => ?_, ?_, horder, fun o => mem_occurrences_iff,
    (pairwise_occurrencesFrom 0 (pieces source)).1, fun o ho => ho.isBoundary hsource,
    ?_, fun text => ?_, fun e => ?_, fun binds' hbinds' => ?_⟩
  · rw [Template.mem_placeholders_iff_exists, hsame]
  · refine horder.imp fun {a b} ⟨o, ho, hname, hfirst⟩ heq => ?_
    exact Nat.lt_irrefl _ (hfirst o ho (hname.trans heq))
  · simp only [Template.exists_build_iff_placeholders, hkeys]
  · simp only [Template.build_eq_ok_iff, hsame, hbindings, Template.lookup_reverse_eq_some_iff]
  · have hfirst : ∀ o, Template.FirstUnbound source t.bindings o
        ↔ Template.FirstUnbound source binds o := by
      intro o
      simp only [Template.firstUnbound_iff, hkeys]
    rw [Template.build_eq_error_iff, hsame]
    constructor
    · rintro ⟨o, ho, rfl⟩
      exact ⟨o, (hfirst o).mp ho, rfl, Text.ofString_toStr ho.placeholder.isUtf8_name⟩
    · rintro ⟨o, ho, rfl, -⟩
      exact ⟨o, (hfirst o).mpr ho, rfl⟩
  · refine Template.build_congr ((Template.source_bindAll _ binds').trans hsame.symm) fun name => ?_
    rw [Template.bindings_bindAll_new, hbindings, ← Template.lookup_filter_eq,
        ← Template.lookup_filter_eq binds.reverse, List.filter_reverse, List.filter_reverse,
        hbinds' name]

/-- In `é$$$$A$B-$A` the first dollar is plain, the next span is `$$$A`, and `$B` follows at
once; `A` is bound twice, and what is bound looks like placeholders. -/
theorem templates_substitute_at_once_adjacent :
    let source := Text.ofString "é$$$$A$B-$A"
    let a := Text.ofString "A"
    let b := Text.ofString "B"
    let binds := [(b, Text.ofString "$A"), (a, Text.ofString "1"), (a, Text.ofString "$$$B")]
    let binds' := [(a, Text.ofString "1"), (b, Text.ofString "$A"), (a, Text.ofString "$$$B")]
    source.IsUtf8
    ∧ (∀ name, binds'.filter (·.1 == name) = binds.filter (·.1 == name))
    ∧ (Template.bindAll { source } binds).placeholders = [a, b]
    ∧ occurrences source = [⟨3, 7, a⟩, ⟨7, 9, b⟩, ⟨10, 12, a⟩]
    ∧ (∃ value : Text → Text, Template.LastBound binds a (value a)
      ∧ Template.LastBound binds b (value b)
      ∧ Text.ofString "é$$$$B$A-$$$B"
        = substitute source ((occurrences source).map (Occurrence.edit value)))
    ∧ (Template.bindAll { source } binds').build = .ok (Text.ofString "é$$$$B$A-$$$B") := by
  intro source a b binds binds'
  have hutf8 : source.IsUtf8 := ⟨"é$$$$A$B-$A", rfl⟩
  have horder : ∀ name, binds'.filter (·.1 == name) = binds.filter (·.1 == name) := by
    intro name
    by_cases ha : a = name
    · subst ha
      decide
    · have hne : (a == name) = false := beq_false_of_ne ha
      simp [binds, binds', List.filter_cons, hne]
  obtain ⟨-, -, -, -, -, -, -, hok, -, hsame⟩ := templates_substitute_at_once source hutf8 binds
  have hnames : (Template.bindAll { source } binds).placeholders = [a, b] := by decide +kernel
  have hbuild : (Template.bindAll { source } binds).build = .ok (Text.ofString "é$$$$B$A-$$$B") := by
    decide +kernel
  obtain ⟨value, hvalue, htext⟩ := (hok _).mp hbuild
  rw [hnames] at hvalue
  exact ⟨hutf8, horder, hnames, by decide +kernel, ⟨value, hvalue a (by simp), hvalue b (by simp),
    htext⟩, (hsame binds' horder).trans hbuild⟩

end StructuralEdit
