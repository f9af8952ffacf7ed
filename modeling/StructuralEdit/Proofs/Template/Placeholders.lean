/-
  StructuralEdit.Proofs.Template.Placeholders
  ───────────────────────────────────────────
  **WHAT A TEMPLATE NAMES AND WHAT IT BECOMES.**

  The same cutting into pieces serves two readers.  `placeholders` lists the names, for
  whoever wants to know beforehand what has to be bound; `build` puts values in.  Here is
  what the one can rely on about the other:

      a name is listed         ↔   some piece is a placeholder of that name
      a name                       is plain letters, so nothing is lost when it is
                                   read as a string and back (`isUtf8_of_hole_mem_pieces`)
      what is built            =   the source with a value in place of every placeholder
                                   (`substituted`), never cut again
-/
import StructuralEdit.Proofs.CharacterBoundary
import StructuralEdit.Proofs.Selection.Nodes

namespace StructuralEdit

/-! ## §1. Texts as strings. -/

namespace Text

theorem ofString_toStr {t : Text} (h : t.IsUtf8) : ofString t.toStr = t := by
  obtain ⟨s, rfl⟩ := h
  have hbytes : (⟨(ofString s).toArray⟩ : ByteArray) = s.toByteArray := by
    unfold ofString
    rw [Array.toArray_toList]
  unfold toStr decode
  rw [hbytes, String.fromUTF8?, dif_pos s.isValidUTF8]
  rfl

theorem ofString_inj {s s' : String} : ofString s = ofString s' ↔ s = s' := by
  unfold ofString
  constructor
  · intro h
    rw [← String.toByteArray_inj]
    exact ByteArray.ext (Array.toList_inj.mp h)
  · intro h
    rw [h]

theorem isUtf8_of_ascii {t : Text} (h : ∀ b ∈ t, b < 128) : t.IsUtf8 := by
  have hone : ∀ n < 128, String.utf8EncodeChar (Char.ofNat n) = [UInt8.ofNat n] := by decide
  refine isUtf8_iff.mpr ⟨t.map fun b => Char.ofNat b.toNat, ?_⟩
  induction t with
  | nil => rfl
  | cons b t ih =>
      obtain ⟨hb, ht⟩ := List.forall_mem_cons.mp h
      have hbyte := hone b.toNat (UInt8.lt_iff_toNat_lt.mp hb)
      rw [UInt8.ofNat_toNat] at hbyte
      show b :: t = String.utf8EncodeChar (Char.ofNat b.toNat) ++ ofChars _
      rw [hbyte, ← ih ht]
      rfl

end Text

/-! ## §2. The names of placeholders. -/

/-- Names are written in plain letters. -/
theorem lt_of_isNamePart {b : UInt8} (hb : isNamePart b = true) : b < 128 := by
  unfold isNamePart isNameStart at hb
  simp only [Bool.or_eq_true, beq_iff_eq, Bool.and_eq_true, decide_eq_true_eq] at hb
  grind

theorem isNamePart_of_mem_nameAt {t : Text} {b : UInt8} (h : b ∈ nameAt t) :
    isNamePart b = true := by
  unfold nameAt at h
  split at h
  next => cases h
  next first rest =>
      split at h
      next hfirst =>
          rcases List.mem_cons.mp h with rfl | h
          · unfold isNamePart
            rw [hfirst]
            rfl
          · exact List.all_eq_true.mp List.all_takeWhile b h
      next => cases h

theorem exists_nameAt_of_holeAt {t : Text} {p : Piece} (h : holeAt t = some p) :
    ∃ long rest, p = .hole long (nameAt rest) := by
  unfold holeAt at h
  generalize (if [dollar, dollar, dollar].isPrefixOf t then (true, t.drop 3)
    else (false, t.drop 1)) = sign at h
  obtain ⟨long, rest⟩ := sign
  obtain ⟨-, heq⟩ := Option.ite_none_right_eq_some.mp h
  exact ⟨long, rest, (Option.some.inj heq).symm⟩

theorem exists_nameAt_of_mem_piecesFrom {long : Bool} {name : Text} {skip : Nat} {t : Text}
    (h : .hole long name ∈ piecesFrom skip t) : ∃ rest, name = nameAt rest := by
  -- along the recursion of the scanner: only where a placeholder is found one is added
  fun_induction piecesFrom skip t with
  | case1 => cases h
  | case2 skip b t ih => exact ih h
  | case3 b t p hp ih =>
      rcases List.mem_cons.mp h with rfl | h
      · obtain ⟨_, rest, heq⟩ := exists_nameAt_of_holeAt hp
        cases heq
        exact ⟨rest, rfl⟩
      · exact ih h
  | case4 b t hp ih =>
      rcases List.mem_cons.mp h with heq | h
      · cases heq
      · exact ih h

/-- **A name can be read as a string and back**, being made of plain letters. -/
theorem isUtf8_of_hole_mem_pieces {long : Bool} {name source : Text}
    (h : .hole long name ∈ pieces source) : name.IsUtf8 := by
  obtain ⟨rest, rfl⟩ := exists_nameAt_of_mem_piecesFrom h
  exact Text.isUtf8_of_ascii fun b hb => lt_of_isNamePart (isNamePart_of_mem_nameAt hb)

/-- Collecting what has not been seen yet loses nothing. -/
theorem mem_foldl_new_iff {name : Text} {names seen : List Text} :
    name ∈ names.foldl (fun seen n => if seen.contains n then seen else seen ++ [n]) seen
      ↔ name ∈ seen ∨ name ∈ names := by
  induction names generalizing seen with
  | nil => simp
  | cons n names ih =>
      rw [List.foldl_cons, ih]
      by_cases hn : seen.contains n = true
      · rw [if_pos hn]
        rw [List.contains_iff_mem] at hn
        constructor
        · rintro (h | h)
          · exact Or.inl h
          · exact Or.inr (List.mem_cons_of_mem n h)
        · rintro (h | h)
          · exact Or.inl h
          · rcases List.mem_cons.mp h with rfl | h
            · exact Or.inl hn
            · exact Or.inr h
      · rw [if_neg hn, List.mem_append, List.mem_singleton, List.mem_cons, or_assoc]

theorem mem_filterMap_holeName_iff {ps : List Piece} {name : Text} :
    name ∈ ps.filterMap Template.placeholders.holeName ↔ ∃ long, .hole long name ∈ ps := by
  rw [List.mem_filterMap]
  constructor
  · rintro ⟨p, hp, hname⟩
    cases p with
    | plain b => cases hname
    | hole long name' =>
        cases hname
        exact ⟨long, hp⟩
  · intro ⟨long, h⟩
    exact ⟨_, h, rfl⟩

/-- The names of the placeholders among some pieces, in order of first appearance. -/
def namesAmong (ps : List Piece) : List Text :=
  (ps.filterMap Template.placeholders.holeName).foldl
    (fun seen name => if seen.contains name then seen else seen ++ [name]) []

theorem mem_namesAmong_iff {ps : List Piece} {name : Text} :
    name ∈ namesAmong ps ↔ ∃ long, .hole long name ∈ ps := by
  unfold namesAmong
  rw [mem_foldl_new_iff, mem_filterMap_holeName_iff]
  simp only [List.not_mem_nil, false_or]

/-- **The names that are listed are those of the placeholders.** -/
theorem Template.mem_placeholders_iff {t : Template} {name : Text} :
    name ∈ t.placeholders ↔ ∃ long, .hole long name ∈ pieces t.source :=
  mem_namesAmong_iff

/-! ## §3. What is built. -/

/-- What takes the place of a piece, given a value for each name. -/
def Piece.filled (value : Text → Text) : Piece → Text
  | .plain b => [b]
  | .hole _ name => value name

/-- A source with a value in place of every placeholder. -/
def substituted (value : Text → Text) (source : Text) : Text :=
  (pieces source).flatMap (Piece.filled value)

theorem eq_map_of_mapM_eq_ok {ε α β : Type} {f : α → Except ε β} {g : α → β}
    (hfg : ∀ a b, f a = .ok b → b = g a) {as : List α} {bs : List β}
    (h : as.mapM f = .ok bs) : bs = as.map g := by
  induction as generalizing bs with
  | nil =>
      cases h
      rfl
  | cons a as ih =>
      rw [List.mapM_cons] at h
      obtain ⟨b, hb, h⟩ := exists_of_bind_eq_ok h
      obtain ⟨bs', hbs, h⟩ := exists_of_bind_eq_ok h
      cases h
      rw [List.map_cons, hfg a b hb, ih hbs]

namespace Template

/-- The value bound to a name, the latest one. -/
def valueOf (t : Template) (name : Text) : Text :=
  (t.bindings.lookup name).getD []

theorem eq_filled_of_fill {t : Template} (p : Piece) (text : Text) (h : t.fill p = .ok text) :
    text = p.filled t.valueOf := by
  cases p with
  | plain b =>
      cases h
      rfl
  | hole long name =>
      rw [fill] at h
      show text = t.valueOf name
      unfold valueOf
      split at h
      next value hvalue =>
          cases h
          rw [hvalue]
          rfl
      next => cases h

/-- **What is built is the source with the bound values in it.** -/
theorem eq_substituted_of_build {t : Template} {text : Text} (h : t.build = .ok text) :
    text = substituted t.valueOf t.source := by
  obtain ⟨texts, htexts, h⟩ := exists_of_bind_eq_ok h
  cases h
  rw [eq_map_of_mapM_eq_ok eq_filled_of_fill htexts]
  unfold substituted
  rw [List.flatMap_def]

end Template

end StructuralEdit
