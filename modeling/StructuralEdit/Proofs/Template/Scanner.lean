/-
  StructuralEdit.Proofs.Template.Scanner
  ──────────────────────────────────────
  **SCANNING BY OFFSETS: NO CHARACTER IS CUT, NO PLACEHOLDER IS MISSED.**

  The pieces of a source are cut off its front, byte by byte, and nobody asks where characters
  end.  A scanner that goes through a string by OFFSETS has to ask.  It takes three slices at
  every dollar sign,

      from the dollar on         to see whether the sign is `$` or `$$$`
      from behind the sign on    to see how long the name is
      the name

  and each of them is refused if it would cut a character.  `scan` is this scanner.  On a text
  none of its slices is refused, since it only ever steps over plain letters, and what it finds
  are the placeholders among the pieces (`scan_eq`).
-/
import StructuralEdit.Proofs.Template.Occurrences

namespace StructuralEdit

/-! ## §1. The scanner. -/

/-- The bytes of `[start, stop)`, if both ends stand between two characters. -/
def Text.slice? (t : Text) (start stop : Nat) : Option Text :=
  if start ≤ stop && t.isBoundary start && t.isBoundary stop then some (t.slice start stop)
  else none

/-- How many dollars in front of a text are one sign. -/
def signLength (t : Text) : Nat :=
  if [dollar, dollar, dollar].isPrefixOf t then 3 else 1

/-- The placeholders that start at offset `i` or later; nothing if a slice is refused. -/
def scanFrom (source : Text) (i : Nat) : Option (List Occurrence) :=
  if _ : i < source.length then
    if source[i] = dollar then do
      let rest ← source.slice? i source.length
      let nameStart := i + signLength rest
      let behind ← source.slice? nameStart source.length
      let stop := nameStart + (nameAt behind).length
      if _ : nameStart < stop then do
        let name ← source.slice? nameStart stop
        let later ← scanFrom source stop
        return ⟨i, stop, name⟩ :: later
      else scanFrom source (i + 1)
    else scanFrom source (i + 1)
  else some []
termination_by source.length - i

/-- The placeholders of a source, from left to right; nothing if a slice is refused. -/
def scan (source : Text) : Option (List Occurrence) :=
  scanFrom source 0

/-! ## §2. No slice is refused. -/

theorem Text.slice?_eq {t : Text} {start stop : Nat} (hle : start ≤ stop)
    (hstart : t.isBoundary start = true) (hstop : t.isBoundary stop = true) :
    t.slice? start stop = some (t.slice start stop) := by
  unfold slice?
  rw [if_pos (by simp [hle, hstart, hstop])]

theorem Text.slice?_length {t : Text} {start : Nat} (hstart : t.isBoundary start = true) :
    t.slice? start t.length = some (t.drop start) := by
  rw [slice?_eq (le_length_of_isBoundary hstart) hstart t.isBoundary_length]
  unfold slice
  rw [← List.length_drop, List.take_length]

/-- A sign is dollars and nothing else. -/
theorem exists_sign {t : Text} (h : t.head? = some dollar) :
    ∃ sign rest, t = sign ++ rest ∧ sign.length = signLength t ∧ ∀ b ∈ sign, b = dollar := by
  unfold signLength
  by_cases hlong : [dollar, dollar, dollar].isPrefixOf t = true
  · obtain ⟨rest, rfl⟩ := List.isPrefixOf_iff_prefix.mp hlong
    exact ⟨_, rest, rfl, by rw [if_pos hlong]; rfl, by simp⟩
  · obtain ⟨rest, rfl⟩ := List.head?_eq_some_iff.mp h
    exact ⟨[dollar], rest, rfl, by rw [if_neg hlong]; rfl, by simp⟩

/-- At a dollar the scanner and the cutting into pieces look for a name at the same place. -/
theorem holeAt_of_dollar {t : Text} (h : t.head? = some dollar) :
    holeAt t
      = if nameAt (t.drop (signLength t)) = [] then none
        else some (.hole (signLength t == 3) (nameAt (t.drop (signLength t)))) := by
  unfold holeAt signLength
  rw [h]
  by_cases hlong : [dollar, dollar, dollar].isPrefixOf t = true
  · rw [if_pos hlong, if_pos hlong]
    simp
  · rw [if_neg hlong, if_neg hlong]
    simp

theorem length_spelling_sign (t name : Text) :
    (Piece.hole (signLength t == 3) name).spelling.length = signLength t + name.length := by
  unfold signLength
  split
  next => exact Piece.length_spelling_long name
  next => exact Piece.length_spelling_short name

theorem nameAt_isPrefix (t : Text) : nameAt t <+: t := by
  by_cases hname : nameAt t = []
  · rw [hname]
    exact List.nil_prefix
  · obtain ⟨-, after, hafter, -⟩ := exists_append_of_nameAt hname
    exact ⟨after, hafter.symm⟩

/-- What has been read is skipped. -/
theorem piecesFrom_eq (skip : Nat) (t : Text) : piecesFrom skip t = piecesFrom 0 (t.drop skip) := by
  induction t generalizing skip with
  | nil => rw [List.drop_nil, piecesFrom, piecesFrom]
  | cons b t ih =>
      cases skip with
      | zero => rfl
      | succ skip => exact ih skip

section

variable {source : Text} {i : Nat}

/-- **The three slices at a dollar are not refused.** -/
theorem slices_at_dollar (hsource : source.IsUtf8) (hdollar : source[i]? = some dollar) :
    let nameStart := i + signLength (source.drop i)
    let name := nameAt (source.drop nameStart)
    source.slice? i source.length = some (source.drop i)
      ∧ source.slice? nameStart source.length = some (source.drop nameStart)
      ∧ source.slice? nameStart (nameStart + name.length) = some name := by
  intro nameStart name
  have hhead : (source.drop i).head? = some dollar := by rw [List.head?_drop, hdollar]
  have hi := Text.isBoundary_of_dollar hdollar
  have hsign : source.isBoundary nameStart = true := by
    obtain ⟨sign, rest, hdrop, hlength, hdollars⟩ := exists_sign hhead
    have hplain : ∀ b ∈ sign, b < 128 := fun b hb => hdollars b hb ▸ by decide
    have hend := hsource.isBoundary_add_ascii hi hdrop hplain
    rwa [hlength] at hend
  obtain ⟨after, hafter⟩ := nameAt_isPrefix (source.drop nameStart)
  have hstop : source.isBoundary (nameStart + name.length) = true := by
    refine hsource.isBoundary_add_ascii hsign hafter.symm fun b hb => ?_
    exact lt_of_isNamePart (isNamePart_of_mem_nameAt hb)
  refine ⟨Text.slice?_length hi, Text.slice?_length hsign, ?_⟩
  rw [Text.slice?_eq (Nat.le_add_right _ _) hsign hstop]
  unfold Text.slice
  rw [Nat.add_sub_cancel_left, ← hafter, List.take_left]

theorem scanFrom_of_dollar (hsource : source.IsUtf8) (hdollar : source[i]? = some dollar) :
    let nameStart := i + signLength (source.drop i)
    let name := nameAt (source.drop nameStart)
    scanFrom source i
      = if name = [] then scanFrom source (i + 1)
        else (scanFrom source (nameStart + name.length)).map
          (⟨i, nameStart + name.length, name⟩ :: ·) := by
  intro nameStart name
  obtain ⟨hi, hbyte⟩ := List.getElem?_eq_some_iff.mp hdollar
  obtain ⟨hrest, hbehind, hslice⟩ := slices_at_dollar hsource hdollar
  rw [scanFrom, dif_pos hi, if_pos hbyte]
  simp only [hrest, hbehind, hslice, Option.bind_eq_bind, Option.bind_some]
  by_cases hname : name = []
  · have hempty : ¬ nameStart < nameStart + name.length := by simp [hname]
    rw [if_pos hname, dif_neg hempty]
  · have hpos := List.length_pos_iff.mpr hname
    rw [if_neg hname, dif_pos (Nat.lt_add_of_pos_right hpos)]
    cases scanFrom source (nameStart + name.length) <;> rfl

/-! ## §3. What is found. -/

theorem occurrencesFrom_of_none (hi : i < source.length) (hnone : holeAt (source.drop i) = none) :
    occurrencesFrom i (piecesFrom 0 (source.drop i))
      = occurrencesFrom (i + 1) (piecesFrom 0 (source.drop (i + 1))) := by
  rw [List.drop_eq_getElem_cons hi] at hnone ⊢
  rw [piecesFrom, hnone]
  rfl

theorem occurrencesFrom_of_hole {long : Bool} {name : Text}
    (hhole : holeAt (source.drop i) = some (.hole long name)) :
    let stop := i + (Piece.hole long name).spelling.length
    occurrencesFrom i (piecesFrom 0 (source.drop i))
      = ⟨i, stop, name⟩ :: occurrencesFrom stop (piecesFrom 0 (source.drop stop)) := by
  intro stop
  have hpos := Piece.spelling_length_pos (.hole long name)
  have hi : i < source.length := by
    obtain ⟨after, -, -, hdrop⟩ := holeAt_eq_hole_iff.mp hhole
    have hlength := congrArg List.length hdrop
    rw [List.length_drop, List.length_append] at hlength
    omega
  rw [List.drop_eq_getElem_cons hi] at hhole ⊢
  rw [piecesFrom, hhole]
  show _ :: occurrencesFrom stop (piecesFrom (_ - 1) _) = _
  have hnext : i + 1 + ((Piece.hole long name).spelling.length - 1) = stop := by omega
  rw [piecesFrom_eq, List.drop_drop, hnext]

/-- **The scanner refuses nothing, and finds the placeholders among the pieces.** -/
theorem scanFrom_eq (hsource : source.IsUtf8) (i : Nat) :
    scanFrom source i = some (occurrencesFrom i (piecesFrom 0 (source.drop i))) := by
  -- on the bytes that are left; every step leaves fewer
  induction hleft : source.length - i using Nat.strongRecOn generalizing i with
  | ind left ih =>
      by_cases hi : i < source.length
      case neg =>
        rw [scanFrom, dif_neg hi, List.drop_eq_nil_of_le (Nat.le_of_not_lt hi)]
        rfl
      by_cases hbyte : source[i] = dollar
      case neg =>
        have hnone : holeAt (source.drop i) = none := by
          unfold holeAt
          simp [hbyte, List.head?_drop, List.getElem?_eq_getElem hi]
        rw [scanFrom, dif_pos hi, if_neg hbyte, occurrencesFrom_of_none hi hnone]
        exact ih _ (by omega) (i + 1) rfl
      have hdollar : source[i]? = some dollar := by rw [List.getElem?_eq_getElem hi, hbyte]
      have hhole := holeAt_of_dollar (t := source.drop i) (by rw [List.head?_drop, hdollar])
      rw [List.drop_drop] at hhole
      rw [scanFrom_of_dollar hsource hdollar]
      by_cases hname : nameAt (source.drop (i + signLength (source.drop i))) = []
      · rw [if_pos hname] at hhole ⊢
        rw [occurrencesFrom_of_none hi hhole]
        exact ih _ (by omega) (i + 1) rfl
      · have hpos := List.length_pos_iff.mpr hname
        rw [if_neg hname] at hhole ⊢
        rw [occurrencesFrom_of_hole hhole, length_spelling_sign, ← Nat.add_assoc,
            ih _ (by omega) _ rfl]
        rfl

theorem scan_eq (hsource : source.IsUtf8) : scan source = some (occurrences source) := by
  unfold scan
  rw [scanFrom_eq hsource, List.drop_zero]
  rfl

end

/-! ## §4. How a placeholder reads. -/

theorem suffix_concat_iff {α : Type} {xs ys : List α} {x : α} :
    xs ++ [x] <:+ ys ++ [x] ↔ xs <:+ ys := by
  constructor
  · rintro ⟨before, h⟩
    rw [← List.append_assoc] at h
    exact ⟨before, List.append_cancel_right h⟩
  · rintro ⟨before, rfl⟩
    exact ⟨before, by rw [List.append_assoc]⟩

/-- A placeholder reads as its sign, then its name as long as it can be; and its sign is the long
one if three dollars stand in front of the name. -/
theorem IsPlaceholder.reads {source : Text} {o : Occurrence} (h : IsPlaceholder source o) :
    IsName o.name ∧ EndsName (source.drop o.stop) ∧ o.stop ≤ source.length
      ∧ ∃ long, source.slice o.start o.stop = (Piece.hole long o.name).spelling
        ∧ (long = true ↔ [dollar, dollar, dollar] <:+ source.take (o.stop - o.name.length)) := by
  obtain ⟨long, hhole, hstop, hbefore⟩ := isPlaceholder_iff.mp h
  obtain ⟨after, hname, hafter, hdrop⟩ := holeAt_eq_hole_iff.mp hhole
  have hrest : source.drop o.stop = after := by
    rw [hstop, ← List.drop_drop, hdrop, List.drop_left]
  have hlength : o.stop ≤ source.length := by
    have := congrArg List.length hdrop
    have hlt := h.start_lt
    rw [List.length_drop, List.length_append] at this
    omega
  refine ⟨hname, hrest ▸ hafter, hlength, long, ?_, ?_⟩
  · unfold Text.slice
    rw [hdrop, hstop, Nat.add_sub_cancel_left, List.take_left]
  · -- what stands in front of the name are the bytes before the placeholder and its sign
    cases long with
    | true =>
        rw [Piece.length_spelling_long] at hstop
        have hfront : source.take (o.stop - o.name.length)
            = source.take o.start ++ [dollar, dollar, dollar] := by
          rw [show o.stop - o.name.length = o.start + 3 by omega, List.take_add, hdrop]
          rfl
        exact iff_of_true rfl (hfront ▸ List.suffix_append _ _)
    | false =>
        rw [Piece.length_spelling_short] at hstop
        have hfront : source.take (o.stop - o.name.length) = source.take o.start ++ [dollar] := by
          rw [show o.stop - o.name.length = o.start + 1 by omega, List.take_add, hdrop]
          rfl
        refine iff_of_false Bool.false_ne_true ?_
        rw [hfront]
        exact fun hthree => hbefore rfl (suffix_concat_iff.mp hthree)

/-- **A dollar in front of a name is part of a placeholder.** -/
theorem exists_isPlaceholder {source : Text} {i : Nat} {b : UInt8}
    (hdollar : source[i]? = some dollar) (hb : source[i + 1]? = some b)
    (hstart : isNameStart b = true) :
    ∃ o, IsPlaceholder source o ∧ o.start ≤ i ∧ i < o.stop := by
  have hne : nameAt (source.drop (i + 1)) ≠ [] := by
    obtain ⟨rest, hrest⟩ := List.head?_eq_some_iff.mp ((List.head?_drop ..).trans hb)
    rw [hrest, nameAt, if_pos hstart]
    exact List.cons_ne_nil _ _
  obtain ⟨hname, after, hdrop, hafter⟩ := exists_append_of_nameAt hne
  generalize nameAt (source.drop (i + 1)) = name at hname hdrop
  obtain ⟨hi, hbyte⟩ := List.getElem?_eq_some_iff.mp hdollar
  have hsource : source = source.take i ++ dollar :: (name ++ after) := by
    rw [← hdrop, ← hbyte, ← List.drop_eq_getElem_cons hi, List.take_append_drop]
  have hlength : (source.take i).length = i := List.length_take_of_le (Nat.le_of_lt hi)
  generalize source.take i = before at hsource hlength
  by_cases htwo : [dollar, dollar] <:+ before
  · -- the last of three dollars
    obtain ⟨earlier, rfl⟩ := htwo
    rw [List.length_append, List.length_cons, List.length_singleton] at hlength
    have hlong : IsPlaceholder source
        ⟨earlier.length, earlier.length + 3 + name.length, name⟩ := by
      rw [hsource, List.append_assoc]
      exact .long hname hafter
    exact ⟨_, hlong, by dsimp only; omega, by dsimp only; omega⟩
  · have hshort : IsPlaceholder source
        ⟨before.length, before.length + 1 + name.length, name⟩ := by
      rw [hsource]
      exact .short hname hafter htwo
    exact ⟨_, hshort, by dsimp only; omega, by dsimp only; omega⟩

/-! ## §5. The scanner as a whole. -/

/-- **NO CHARACTER IS CUT, NO PLACEHOLDER IS MISSED.**  Whatever the text:

  (1) the scanner comes to its end, and none of its slices is refused;
  (2) it finds the placeholders among the pieces of the source, each of them a span within the
      source that is not empty, from left to right and without overlap;
  (3) every span reads `$NAME` or `$$$NAME`, with a name that does not go on behind it, and it is
      read as `$$$NAME` just if three dollars or more stand in front of the name;
  (4) every dollar that a name could follow is in one of the spans. -/
theorem scan_exact (source : Text) (hsource : source.IsUtf8) :
    ∃ spans, scan source = some spans
      ∧ spans = occurrencesFrom 0 (pieces source)
      ∧ (∀ o ∈ spans, o.start < o.stop ∧ o.stop ≤ source.length)
      ∧ spans.Pairwise (fun a b => a.stop ≤ b.start)
      ∧ (∀ o ∈ spans, IsName o.name ∧ EndsName (source.drop o.stop)
          ∧ ∃ long, source.slice o.start o.stop = (Piece.hole long o.name).spelling
            ∧ (long = true
                ↔ [dollar, dollar, dollar] <:+ source.take (o.stop - o.name.length)))
      ∧ ∀ i b, source[i]? = some dollar → source[i + 1]? = some b → isNameStart b = true →
          ∃ o ∈ spans, o.start ≤ i ∧ i < o.stop := by
  obtain ⟨hpair, hfrom⟩ := pairwise_occurrencesFrom 0 (pieces source)
  refine ⟨occurrences source, scan_eq hsource, rfl, fun o ho => ?_, hpair, fun o ho => ?_,
    fun i b hdollar hb hstart => ?_⟩
  · obtain ⟨-, -, hlength, -⟩ := (mem_occurrences_iff.mp ho).reads
    exact ⟨(hfrom o ho).2, hlength⟩
  · obtain ⟨hname, hends, -, hreads⟩ := (mem_occurrences_iff.mp ho).reads
    exact ⟨hname, hends, hreads⟩
  · obtain ⟨o, ho, hspan⟩ := exists_isPlaceholder hdollar hb hstart
    exact ⟨o, mem_occurrences_iff.mpr ho, hspan⟩

/-- In `é$$$$A_1$$B$9$` the first of four dollars and the first of two are plain, and so are those
that no name follows. -/
theorem scan_exact_runs :
    let source := Text.ofString "é$$$$A_1$$B$9$"
    source.IsUtf8
    ∧ scan source = some [⟨3, 9, Text.ofString "A_1"⟩, ⟨10, 12, Text.ofString "B"⟩]
    ∧ ∃ o : Occurrence, IsName o.name ∧ EndsName (source.drop o.stop)
        ∧ o.start ≤ 5 ∧ 5 < o.stop := by
  intro source
  have hsource : source.IsUtf8 := ⟨_, rfl⟩
  obtain ⟨spans, hscan, hspans, -, -, hreads, hall⟩ := scan_exact source hsource
  obtain ⟨o, ho, hspan⟩ := hall 5 65 (by decide) (by decide) (by decide)
  obtain ⟨hname, hends, -⟩ := hreads o ho
  exact ⟨hsource, hscan.trans (by rw [hspans]; decide +kernel), o, hname, hends, hspan⟩

end StructuralEdit
