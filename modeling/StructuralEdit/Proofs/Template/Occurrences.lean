/-
  StructuralEdit.Proofs.Template.Occurrences
  ──────────────────────────────────────────
  **WHERE THE PLACEHOLDERS OF A SOURCE STAND.**

  The scanner reads a source from left to right and decides at every dollar sign whether a
  placeholder starts there; what it has passed over it never looks at again.  Where the
  placeholders stand can be said without it, by looking at the source around them only:

      $NAME       a name as long as it can be, one dollar in front of it, and in front of
                  that dollar not two more
      $$$NAME     a name as long as it can be, three dollars in front of it

  (`IsPlaceholder`).  The scanner finds these and no others (`mem_occurrences_iff`).  What
  carries the induction is that no long placeholder reaches over the place the scanner has
  come to (`Uncut`): else its last dollar and its name would be taken for a short one.
-/
import StructuralEdit.Proofs.Template.Placeholders

namespace StructuralEdit

/-! ## §1. Plain letters. -/

theorem Text.IsUtf8.tail_of_ascii {b : UInt8} {t : Text} (h : IsUtf8 (b :: t)) (hb : b < 128) :
    IsUtf8 t := by
  obtain ⟨cs, hcs⟩ := isUtf8_iff.mp h
  cases cs with
  | nil => cases hcs
  | cons c cs =>
      have hcons : ofChars (c :: cs) = String.utf8EncodeChar c ++ ofChars cs := rfl
      rw [hcons] at hcs
      have hlead : ∀ m < 0x40, ¬ UInt8.ofNat (m + 0xc0) < 128 := by decide
      -- only the encodings of one byte start below 128
      revert hcs
      fun_cases String.utf8EncodeChar c with
      | case1 v h1 =>
          intro hcs
          exact isUtf8_iff.mpr ⟨cs, (List.cons.inj hcs).2⟩
      | case2 v h1 h2 =>
          intro hcs
          rw [(List.cons.inj hcs).1] at hb
          exact absurd hb (hlead _ (by omega))
      | case3 v h1 h2 h3 =>
          intro hcs
          rw [(List.cons.inj hcs).1, show 0xe0 = 0x20 + 0xc0 from rfl, ← Nat.add_assoc] at hb
          exact absurd hb (hlead _ (by omega))
      | case4 v h1 h2 h3 =>
          intro hcs
          rw [(List.cons.inj hcs).1, show 0xf0 = 0x30 + 0xc0 from rfl, ← Nat.add_assoc] at hb
          exact absurd hb (hlead _ (by omega))

theorem Text.IsUtf8.drop_ascii {a t : Text} (ha : ∀ b ∈ a, b < 128) (h : IsUtf8 (a ++ t)) :
    IsUtf8 t := by
  induction a with
  | nil => exact h
  | cons b a ih =>
      obtain ⟨hb, ha⟩ := List.forall_mem_cons.mp ha
      exact ih ha (h.tail_of_ascii hb)

/-- Plain letters end between two characters if they start there. -/
theorem Text.IsUtf8.isBoundary_add_ascii {source a after : Text} {i : Nat} (h : source.IsUtf8)
    (hi : source.isBoundary i = true) (hdrop : source.drop i = a ++ after)
    (ha : ∀ b ∈ a, b < 128) : source.isBoundary (i + a.length) = true := by
  -- what follows plain letters in a text is text again
  have hafter : after.IsUtf8 := drop_ascii ha (hdrop ▸ h.drop hi)
  have hcut : source = source.take i ++ a ++ after := by
    rw [List.append_assoc, ← hdrop, List.take_append_drop]
  have hlength : i + a.length = (source.take i ++ a).length := by
    rw [List.length_append, List.length_take, Nat.min_eq_left (Text.le_length_of_isBoundary hi)]
  have hend := hafter.isBoundary_append (source.take i ++ a)
  rwa [← hcut, ← hlength] at hend

/-- A dollar stands between two characters. -/
theorem Text.isBoundary_of_dollar {source : Text} {i : Nat} (h : source[i]? = some dollar) :
    source.isBoundary i = true := by
  by_cases h0 : i = 0
  · rw [h0, Text.isBoundary_zero]
  · rw [Text.isBoundary_of_getElem? (by omega) h]
    rfl

/-! ## §2. Names and signs. -/

/-- A name: a first byte that can start one, then bytes that can go on with it. -/
def IsName : Text → Prop
  | [] => False
  | b :: rest => isNameStart b = true ∧ ∀ c ∈ rest, isNamePart c = true

/-- No name goes on into this text. -/
def EndsName (after : Text) : Prop :=
  ∀ b ∈ after.head?, isNamePart b = false

theorem IsName.isNamePart {name : Text} (hname : IsName name) {b : UInt8} (hb : b ∈ name) :
    isNamePart b = true := by
  cases name with
  | nil => cases hb
  | cons first rest =>
      obtain ⟨hfirst, hrest⟩ := hname
      rcases List.mem_cons.mp hb with rfl | hb
      · unfold StructuralEdit.isNamePart
        rw [hfirst]
        rfl
      · exact hrest b hb

theorem IsName.ne_nil {name : Text} (hname : IsName name) : name ≠ [] := by
  rintro rfl
  exact hname

/-- No byte of a name is a dollar. -/
theorem IsName.ne_dollar {name : Text} (hname : IsName name) {b : UInt8} (hb : b ∈ name) :
    b ≠ dollar := by
  rintro rfl
  exact absurd (hname.isNamePart hb) (by decide)

theorem nameAt_append {name after : Text} (hname : IsName name) (hafter : EndsName after) :
    nameAt (name ++ after) = name := by
  cases name with
  | nil => exact hname.elim
  | cons b rest =>
      obtain ⟨hb, hrest⟩ := hname
      have hstop : after.takeWhile isNamePart = [] := by
        cases after with
        | nil => rfl
        | cons c after => rw [List.takeWhile_cons, hafter c rfl, if_neg Bool.false_ne_true]
      show (if isNameStart b then b :: (rest ++ after).takeWhile isNamePart else []) = _
      rw [if_pos hb, List.takeWhile_append_of_pos hrest, hstop, List.append_nil]

theorem exists_append_of_nameAt {t : Text} (h : nameAt t ≠ []) :
    IsName (nameAt t) ∧ ∃ after, t = nameAt t ++ after ∧ EndsName after := by
  cases t with
  | nil => exact absurd rfl h
  | cons b rest =>
      by_cases hb : isNameStart b = true
      · have hname : nameAt (b :: rest) = b :: rest.takeWhile isNamePart := if_pos hb
        rw [hname]
        refine ⟨⟨hb, fun c hc => List.all_eq_true.mp List.all_takeWhile c hc⟩,
          rest.dropWhile isNamePart, ?_, ?_⟩
        · rw [List.cons_append, List.takeWhile_append_dropWhile]
        · intro c hc
          have hnot := List.head?_dropWhile_not isNamePart rest
          rw [Option.mem_def.mp hc] at hnot
          exact hnot
      · exact absurd (if_neg hb) h

/-- **A placeholder at the front of a text is its sign, then a name as long as it can be.** -/
theorem holeAt_eq_some_iff {t : Text} {p : Piece} :
    holeAt t = some p ↔ ∃ long name after, p = .hole long name ∧ IsName name ∧ EndsName after
      ∧ t = p.spelling ++ after := by
  constructor
  · intro h
    unfold holeAt at h
    by_cases hlong : [dollar, dollar, dollar].isPrefixOf t = true
    · rw [if_pos hlong] at h
      obtain ⟨hcond, heq⟩ := Option.ite_none_right_eq_some.mp h
      obtain ⟨rest, rfl⟩ := List.isPrefixOf_iff_prefix.mp hlong
      have hne : nameAt rest ≠ [] := by simpa using hcond
      obtain ⟨hname, after, hrest, hafter⟩ := exists_append_of_nameAt hne
      refine ⟨true, nameAt rest, after, (Option.some.inj heq).symm, hname, hafter, ?_⟩
      rw [← Option.some.inj heq]
      show dollar :: dollar :: dollar :: rest = dollar :: dollar :: dollar :: (nameAt rest ++ after)
      rw [← hrest]
    · rw [if_neg hlong] at h
      obtain ⟨hcond, heq⟩ := Option.ite_none_right_eq_some.mp h
      obtain ⟨hhead, hne⟩ : t.head? = some dollar ∧ nameAt (t.drop 1) ≠ [] := by simpa using hcond
      obtain ⟨rest, rfl⟩ := List.head?_eq_some_iff.mp hhead
      obtain ⟨hname, after, hrest, hafter⟩ := exists_append_of_nameAt hne
      refine ⟨false, nameAt rest, after, (Option.some.inj heq).symm, hname, hafter, ?_⟩
      rw [← Option.some.inj heq]
      show dollar :: rest = dollar :: (nameAt rest ++ after)
      exact congrArg (dollar :: ·) hrest
  · rintro ⟨long, name, after, rfl, hname, hafter, rfl⟩
    have hnameAt := nameAt_append hname hafter
    have hne := hname.ne_nil
    cases long with
    | true =>
        show (if _ && !(nameAt (name ++ after)).isEmpty then
          some (Piece.hole true (nameAt (name ++ after))) else none) = _
        rw [hnameAt]
        simpa [Piece.spelling] using hne
    | false =>
        -- a name does not start with a dollar, so there is no longer sign
        have hshort : [dollar, dollar, dollar].isPrefixOf (dollar :: (name ++ after)) = false := by
          cases name with
          | nil => exact absurd rfl hne
          | cons b rest =>
              have hb := hname.ne_dollar List.mem_cons_self
              simp [List.isPrefixOf, hb.symm]
        unfold holeAt
        simp [Piece.spelling, hshort, hnameAt, hne]

theorem holeAt_eq_hole_iff {t name : Text} {long : Bool} :
    holeAt t = some (.hole long name) ↔ ∃ after, IsName name ∧ EndsName after
      ∧ t = (Piece.hole long name).spelling ++ after := by
  rw [holeAt_eq_some_iff]
  constructor
  · rintro ⟨_, _, after, heq, hname, hafter, ht⟩
    cases heq
    exact ⟨after, hname, hafter, ht⟩
  · rintro ⟨after, hname, hafter, ht⟩
    exact ⟨long, name, after, rfl, hname, hafter, ht⟩

/-- Inside a name no placeholder starts. -/
theorem IsName.drop_ne_dollar_cons {name : Text} (hname : IsName name) (after rest : Text) {j : Nat}
    (hj : j < name.length) : (name ++ after).drop j ≠ dollar :: rest := by
  intro h
  rw [List.drop_append_of_le_length (Nat.le_of_lt hj), List.drop_eq_getElem_cons hj,
      List.cons_append] at h
  exact hname.ne_dollar (List.getElem_mem hj) (List.cons.inj h).1

theorem IsName.append_ne_dollar_cons {name : Text} (hname : IsName name) (after rest : Text) :
    name ++ after ≠ dollar :: rest :=
  hname.drop_ne_dollar_cons after rest (List.length_pos_iff.mpr hname.ne_nil)

theorem Piece.spelling_hole_eq_cons (long : Bool) (name : Text) :
    ∃ rest, (Piece.hole long name).spelling = dollar :: rest := by
  cases long with
  | true => exact ⟨_, rfl⟩
  | false => exact ⟨_, rfl⟩

theorem Piece.length_spelling_short (name : Text) :
    (Piece.hole false name).spelling.length = 1 + name.length := by
  simp only [Piece.spelling, List.length_cons]
  omega

theorem Piece.length_spelling_long (name : Text) :
    (Piece.hole true name).spelling.length = 3 + name.length := by
  simp only [Piece.spelling, List.length_cons]
  omega

theorem IsName.lt_of_mem_spelling {name : Text} (hname : IsName name) (long : Bool) :
    ∀ b ∈ (Piece.hole long name).spelling, b < 128 := by
  have hletter : ∀ b ∈ name, b < 128 := fun b hb => lt_of_isNamePart (hname.isNamePart hb)
  have hdollar : dollar < 128 := by decide
  cases long with
  | true =>
      simp only [Piece.spelling, List.forall_mem_cons]
      exact ⟨hdollar, hdollar, hdollar, hletter⟩
  | false => exact List.forall_mem_cons.mpr ⟨hdollar, hletter⟩

/-- **Inside a placeholder another one starts at one place only**: at the last of three
dollars, and a short one. -/
theorem holeAt_drop_inside {t : Text} {p q : Piece} (hp : holeAt t = some p) {k : Nat}
    (hk : 0 < k) (hkp : k < p.spelling.length) (hq : holeAt (t.drop k) = some q) :
    k = 2 ∧ (∃ name, p = .hole true name) ∧ ∃ name, q = .hole false name := by
  obtain ⟨long, name, after, rfl, hname, -, rfl⟩ := holeAt_eq_some_iff.mp hp
  obtain ⟨long', name', after', rfl, hname', -, hdrop⟩ := holeAt_eq_some_iff.mp hq
  obtain ⟨rest, hrest⟩ := Piece.spelling_hole_eq_cons long' name'
  cases long with
  | false =>
      -- behind the one dollar there is only the name
      obtain ⟨j, rfl⟩ := Nat.exists_eq_succ_of_ne_zero (by omega : k ≠ 0)
      rw [hrest] at hdrop
      exact absurd hdrop (hname.drop_ne_dollar_cons after _ (Nat.lt_of_succ_lt_succ hkp))
  | true =>
      match k with
      | 1 =>
          -- two dollars and a name: too few for a long sign, and no name after a short one
          cases long' with
          | false => exact absurd (List.cons.inj hdrop).2.symm (hname'.append_ne_dollar_cons after' _)
          | true =>
              have htail := (List.cons.inj (List.cons.inj hdrop).2).2
              exact absurd htail (hname.append_ne_dollar_cons after _)
      | 2 =>
          refine ⟨rfl, ⟨name, rfl⟩, ?_⟩
          cases long' with
          | false => exact ⟨name', rfl⟩
          | true => exact absurd (List.cons.inj hdrop).2 (hname.append_ne_dollar_cons after _)
      | j + 3 =>
          rw [hrest] at hdrop
          have hj : j < name.length := by
            rw [Piece.length_spelling_long] at hkp
            omega
          exact absurd hdrop (hname.drop_ne_dollar_cons after _ hj)

/-! ## §3. Where placeholders stand. -/

/-- A place of a source at which a name stands for a value: the bytes `[start, stop)`. -/
structure Occurrence where
  start : Nat
  stop : Nat
  name : Text
  deriving DecidableEq, Repr

/-- The placeholders of a source, told from the bytes around them. -/
inductive IsPlaceholder : Text → Occurrence → Prop where
  /-- `$NAME`; with two dollars more in front of it, it would be a long one. -/
  | short {before name after : Text} (hname : IsName name) (hafter : EndsName after)
      (hbefore : ¬ [dollar, dollar] <:+ before) :
      IsPlaceholder (before ++ dollar :: (name ++ after))
        ⟨before.length, before.length + 1 + name.length, name⟩
  /-- `$$$NAME`, whatever is in front of it. -/
  | long {before name after : Text} (hname : IsName name) (hafter : EndsName after) :
      IsPlaceholder (before ++ dollar :: dollar :: dollar :: (name ++ after))
        ⟨before.length, before.length + 3 + name.length, name⟩

/-- The placeholders among the pieces of a source that stand from offset `i` on. -/
def occurrencesFrom : Nat → List Piece → List Occurrence
  | _, [] => []
  | i, .plain _ :: ps => occurrencesFrom (i + 1) ps
  | i, .hole long name :: ps =>
      let stop := i + (Piece.hole long name).spelling.length
      ⟨i, stop, name⟩ :: occurrencesFrom stop ps

/-- The placeholders of a source, from left to right. -/
def occurrences (source : Text) : List Occurrence :=
  occurrencesFrom 0 (pieces source)

theorem Piece.spelling_length_pos (p : Piece) : 0 < p.spelling.length := by
  cases p with
  | plain b => exact Nat.one_pos
  | hole long name =>
      obtain ⟨rest, hrest⟩ := Piece.spelling_hole_eq_cons long name
      rw [hrest, List.length_cons]
      omega

/-- Placeholders follow one another without overlap. -/
theorem pairwise_occurrencesFrom (i : Nat) (ps : List Piece) :
    (occurrencesFrom i ps).Pairwise (fun a b => a.stop ≤ b.start)
      ∧ ∀ o ∈ occurrencesFrom i ps, i ≤ o.start ∧ o.start < o.stop := by
  induction ps generalizing i with
  | nil => exact ⟨List.Pairwise.nil, by simp [occurrencesFrom]⟩
  | cons p ps ih =>
      cases p with
      | plain b =>
          obtain ⟨hpair, hfrom⟩ := ih (i + 1)
          refine ⟨hpair, fun o ho => ?_⟩
          have := hfrom o ho
          omega
      | hole long name =>
          have hpos := Piece.spelling_length_pos (.hole long name)
          obtain ⟨hpair, hfrom⟩ := ih (i + (Piece.hole long name).spelling.length)
          refine ⟨List.pairwise_cons.mpr ⟨fun o ho => (hfrom o ho).1, hpair⟩, ?_⟩
          intro o ho
          rcases List.mem_cons.mp ho with rfl | ho
          · exact ⟨Nat.le_refl i, by simpa using hpos⟩
          · have := hfrom o ho
            omega

/-- A placeholder of a source is one at the front of what is left there, unless the scanner
could not come to it. -/
theorem isPlaceholder_iff {source name : Text} {start stop : Nat} :
    IsPlaceholder source ⟨start, stop, name⟩
      ↔ ∃ long, holeAt (source.drop start) = some (.hole long name)
        ∧ stop = start + (Piece.hole long name).spelling.length
        ∧ (long = false → ¬ [dollar, dollar] <:+ source.take start) := by
  constructor
  · intro h
    cases h with
    | @short before name after hname hafter hbefore =>
        refine ⟨false, ?_, ?_, fun _ => ?_⟩
        · rw [List.drop_left]
          exact holeAt_eq_hole_iff.mpr ⟨after, hname, hafter, rfl⟩
        · rw [Piece.length_spelling_short, Nat.add_assoc]
        · rwa [List.take_left]
    | @long before name after hname hafter =>
        refine ⟨true, ?_, ?_, fun h => by cases h⟩
        · rw [List.drop_left]
          exact holeAt_eq_hole_iff.mpr ⟨after, hname, hafter, rfl⟩
        · rw [Piece.length_spelling_long, Nat.add_assoc]
  · rintro ⟨long, hhole, rfl, hbefore⟩
    obtain ⟨after, hname, hafter, hdrop⟩ := holeAt_eq_hole_iff.mp hhole
    have hlength : (source.take start).length = start := by
      have hpos := Piece.spelling_length_pos (.hole long name)
      have := congrArg List.length hdrop
      rw [List.length_drop, List.length_append] at this
      rw [List.length_take]
      omega
    rw [← List.take_append_drop start source, hdrop]
    generalize source.take start = before at hbefore hlength
    subst hlength
    cases long with
    | false =>
        rw [Piece.length_spelling_short, ← Nat.add_assoc]
        exact .short hname hafter (hbefore rfl)
    | true =>
        rw [Piece.length_spelling_long, ← Nat.add_assoc]
        exact .long hname hafter

/-! ## §4. What the scanner finds. -/

/-- No long placeholder that starts before offset `i` reaches over it. -/
def Uncut (source : Text) (i : Nat) : Prop :=
  ∀ j < i, ∀ name, holeAt (source.drop j) = some (.hole true name) →
    j + (Piece.hole true name).spelling.length ≤ i

theorem Uncut.succ {source : Text} {i : Nat} (h : Uncut source i)
    (hnone : holeAt (source.drop i) = none) : Uncut source (i + 1) := by
  intro j hj name hhole
  by_cases hji : j = i
  · subst hji
    rw [hnone] at hhole
    cases hhole
  · have := h j (by omega) name hhole
    omega

theorem Uncut.add {source : Text} {i : Nat} {p : Piece} (h : Uncut source i)
    (hp : holeAt (source.drop i) = some p) : Uncut source (i + p.spelling.length) := by
  intro j hj name hhole
  by_cases hji : j < i
  · have := h j hji name hhole
    omega
  · obtain ⟨k, rfl⟩ := Nat.exists_eq_add_of_le (Nat.le_of_not_lt hji)
    by_cases hk : k = 0
    · subst hk
      rw [Nat.add_zero, hp] at hhole
      cases hhole
      exact Nat.le_refl _
    · -- only a short one could start inside the placeholder that has been read
      rw [← List.drop_drop] at hhole
      obtain ⟨-, -, _, hshort⟩ := holeAt_drop_inside hp (by omega) (by omega) hhole
      cases hshort

/-- Where no long placeholder is cut, a short one is not the end of a long one. -/
theorem Uncut.not_dollars {source : Text} {i : Nat} {name : Text} (h : Uncut source i)
    (hhole : holeAt (source.drop i) = some (.hole false name)) :
    ¬ [dollar, dollar] <:+ source.take i := by
  rintro ⟨before, hbefore⟩
  obtain ⟨after, hname, hafter, hdrop⟩ := holeAt_eq_hole_iff.mp hhole
  have hsource : source = before ++ dollar :: dollar :: dollar :: (name ++ after) := by
    rw [← List.take_append_drop i source, ← hbefore, hdrop, List.append_assoc]
    rfl
  have hlength : before.length + 2 = i := by
    have htake := congrArg List.length hbefore
    have hrest := congrArg List.length hdrop
    rw [List.length_drop, List.length_append, Piece.length_spelling_short] at hrest
    simp only [List.length_append, List.length_take, List.length_cons, List.length_nil] at htake
    omega
  have hlong : holeAt (source.drop before.length) = some (.hole true name) := by
    rw [hsource, List.drop_left]
    exact holeAt_eq_hole_iff.mpr ⟨after, hname, hafter, rfl⟩
  have hreach := h before.length (by omega) name hlong
  have hpos := List.length_pos_iff.mpr hname.ne_nil
  rw [Piece.length_spelling_long] at hreach
  omega

theorem IsPlaceholder.start_lt {source : Text} {o : Occurrence} (h : IsPlaceholder source o) :
    o.start < source.length := by
  cases h with
  | short => simp
  | long => simp

theorem IsPlaceholder.isUtf8_name {source : Text} {o : Occurrence} (h : IsPlaceholder source o) :
    o.name.IsUtf8 := by
  have hname : IsName o.name := by
    cases h with
    | short hname => exact hname
    | long hname => exact hname
  exact Text.isUtf8_of_ascii fun b hb => lt_of_isNamePart (hname.isNamePart hb)

/-- No placeholder starts inside another one. -/
theorem IsPlaceholder.not_inside {source : Text} {o : Occurrence} (h : IsPlaceholder source o)
    {i : Nat} {p : Piece} (hp : holeAt (source.drop i) = some p) (hi : i < o.start) :
    i + p.spelling.length ≤ o.start := by
  obtain ⟨long, hhole, -, hbefore⟩ := isPlaceholder_iff.mp h
  obtain ⟨k, hk⟩ := Nat.exists_eq_add_of_le (Nat.le_of_lt hi)
  rw [hk] at hhole hbefore hi ⊢
  rcases Nat.lt_or_ge (i + k) (i + p.spelling.length) with hinside | hpast
  case inr => exact hpast
  rw [← List.drop_drop] at hhole
  obtain ⟨rfl, ⟨name, rfl⟩, _, hshort⟩ := holeAt_drop_inside hp (by omega) (by omega) hhole
  cases hshort
  -- at the last of three dollars, the other two are right in front
  obtain ⟨after, -, -, hdrop⟩ := holeAt_eq_hole_iff.mp hp
  refine absurd ⟨source.take i, ?_⟩ (hbefore rfl)
  rw [List.take_add, hdrop]
  rfl

theorem drop_succ_of_cons {source t : Text} {i : Nat} {b : UInt8} (h : source.drop i = b :: t) :
    source.drop (i + 1) = t := by
  rw [← List.drop_drop, h]
  rfl

/-- **What is found from a place on are the placeholders that start there or later.** -/
theorem mem_occurrencesFrom_iff {source : Text} {o : Occurrence} (skip : Nat) (t : Text) {i : Nat}
    (ht : source.drop i = t) (huncut : Uncut source (i + skip)) :
    o ∈ occurrencesFrom (i + skip) (piecesFrom skip t)
      ↔ IsPlaceholder source o ∧ i + skip ≤ o.start := by
  -- along the scanner; `i + skip` is the place it has come to, and `Uncut` holds there
  fun_induction piecesFrom skip t generalizing i with
  | case1 skip =>
      constructor
      · intro h
        cases h
      · rintro ⟨h, hle⟩
        have hlt := h.start_lt
        have hend := List.drop_eq_nil_iff.mp ht
        omega
  | case2 skip b t ih =>
      have htail := drop_succ_of_cons ht
      rw [show i + (skip + 1) = i + 1 + skip by omega] at huncut ⊢
      exact ih htail huncut
  | case3 b t p hp ih =>
      -- a placeholder starts here; the scanner goes on behind it
      rw [← ht] at hp
      have htail := drop_succ_of_cons ht
      have hpos := p.spelling_length_pos
      have hnext : i + 1 + (p.spelling.length - 1) = i + p.spelling.length := by omega
      have ih := ih htail (hnext ▸ huncut.add hp)
      obtain ⟨long, rest, rfl⟩ := exists_nameAt_of_holeAt hp
      rw [hnext] at ih
      show o ∈ _ :: occurrencesFrom _ _ ↔ _
      rw [List.mem_cons, Nat.add_zero, ih]
      constructor
      · rintro (rfl | ⟨ho, hle⟩)
        · refine ⟨isPlaceholder_iff.mpr ⟨long, hp, rfl, ?_⟩, Nat.le_refl i⟩
          rintro rfl
          exact huncut.not_dollars hp
        · exact ⟨ho, by omega⟩
      · rintro ⟨ho, hle⟩
        rcases Nat.eq_or_lt_of_le hle with heq | hlt
        · -- two placeholders that start at one place are one
          obtain ⟨long', hp', hstop, -⟩ := isPlaceholder_iff.mp ho
          rw [← heq, hp] at hp'
          obtain ⟨rfl, hname⟩ := Piece.hole.inj (Option.some.inj hp')
          left
          obtain ⟨start, stop, name⟩ := o
          simp only at heq hstop hname
          subst heq hname hstop
          rfl
        · exact Or.inr ⟨ho, ho.not_inside hp hlt⟩
  | case4 b t hp ih =>
      -- none starts here, by the scanner's test and so by the bytes around
      rw [← ht] at hp
      have htail := drop_succ_of_cons ht
      show o ∈ occurrencesFrom (i + 1) _ ↔ _
      rw [Nat.add_zero, ih htail (huncut.succ hp)]
      constructor
      · rintro ⟨ho, hle⟩
        exact ⟨ho, by omega⟩
      · rintro ⟨ho, hle⟩
        refine ⟨ho, Nat.lt_of_le_of_ne hle ?_⟩
        rintro rfl
        obtain ⟨_, hhole, -⟩ := isPlaceholder_iff.mp ho
        rw [hp] at hhole
        cases hhole

theorem mem_occurrences_iff {source : Text} {o : Occurrence} :
    o ∈ occurrences source ↔ IsPlaceholder source o := by
  have huncut : Uncut source (0 + 0) := fun j hj => absurd hj (Nat.not_lt_zero j)
  unfold occurrences pieces
  rw [mem_occurrencesFrom_iff 0 source List.drop_zero huncut]
  exact and_iff_left (Nat.zero_le _)

/-- Placeholders are found from left to right. -/
theorem pairwise_occurrences (source : Text) :
    (occurrences source).Pairwise fun a b => a.start < b.start := by
  obtain ⟨hpair, hfrom⟩ := pairwise_occurrencesFrom 0 (pieces source)
  refine hpair.imp_of_mem fun {a b} ha _ hab => ?_
  have := (hfrom a ha).2
  omega

/-- A placeholder starts and ends between two characters, being made of plain letters. -/
theorem IsPlaceholder.isBoundary {source : Text} {o : Occurrence} (h : IsPlaceholder source o)
    (hsource : source.IsUtf8) :
    source.isBoundary o.start = true ∧ source.isBoundary o.stop = true := by
  obtain ⟨long, hhole, hstop, -⟩ := isPlaceholder_iff.mp h
  obtain ⟨after, hname, -, hdrop⟩ := holeAt_eq_hole_iff.mp hhole
  have hstart : source.isBoundary o.start = true := by
    obtain ⟨rest, hrest⟩ := Piece.spelling_hole_eq_cons long o.name
    refine Text.isBoundary_of_dollar ?_
    rw [← Nat.add_zero o.start, ← List.getElem?_drop, hdrop, hrest]
    rfl
  exact ⟨hstart, hstop ▸ hsource.isBoundary_add_ascii hstart hdrop (hname.lt_of_mem_spelling long)⟩

end StructuralEdit
