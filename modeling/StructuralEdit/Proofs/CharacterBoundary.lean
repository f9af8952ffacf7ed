/-
  StructuralEdit.Proofs.CharacterBoundary
  ───────────────────────────────────────
  **A TEXT CAN BE CUT AT ITS BOUNDARIES.**

  A boundary is recognised by ONE byte: the byte there must not be a
  continuation byte.  That local test is enough, because the encoding of a
  character is one leading byte followed by continuation bytes only:

      t is UTF-8, i is a boundary of t   →   t.take i and t.drop i are UTF-8

  (`IsUtf8.take`, `IsUtf8.drop`).  With `IsUtf8.append` this makes
  `replaceRange` safe between any two boundaries.  The rest says how the test
  behaves on joined texts, and that `floorBoundary` gives the LAST boundary at
  or before an offset.
-/
import StructuralEdit.Text

namespace StructuralEdit

namespace Text

/-! ## §1. One character. -/

theorem isContinuation_trailing (n : Nat) :
    isContinuation (UInt8.ofNat (n % 0x40 + 0x80)) = true := by
  have h : ∀ m < 0x40, isContinuation (UInt8.ofNat (m + 0x80)) = true := by decide
  exact h _ (Nat.mod_lt _ (by decide))

theorem not_isContinuation_ascii {n : Nat} (hn : n ≤ 0x7f) :
    isContinuation (UInt8.ofNat n) = false := by
  have h : ∀ m ≤ 0x7f, isContinuation (UInt8.ofNat m) = false := by decide
  exact h n hn

theorem not_isContinuation_leading {n : Nat} (hlo : 0xc0 ≤ n) (hhi : n < 0x100) :
    isContinuation (UInt8.ofNat n) = false := by
  have h : ∀ m < 0x40, isContinuation (UInt8.ofNat (0xc0 + m)) = false := by decide
  have hn := h (n - 0xc0) (by omega)
  rwa [show 0xc0 + (n - 0xc0) = n by omega] at hn

/-- A character is a leading byte followed by continuation bytes. -/
theorem utf8EncodeChar_shape (c : Char) :
    ∃ b bs, String.utf8EncodeChar c = b :: bs
      ∧ isContinuation b = false ∧ ∀ x ∈ bs, isContinuation x = true := by
  -- one case for each length of an encoding
  fun_cases String.utf8EncodeChar c with
  | case1 v h1 =>
      exact ⟨_, _, rfl, not_isContinuation_ascii h1, by simp⟩
  | case2 v h1 h2 =>
      refine ⟨_, _, rfl, not_isContinuation_leading (by omega) (by omega), ?_⟩
      intro x hx
      rw [List.mem_singleton.mp hx]
      exact isContinuation_trailing v
  | case3 v h1 h2 h3 =>
      refine ⟨_, _, rfl, not_isContinuation_leading (by omega) (by omega), ?_⟩
      simp only [List.mem_cons, List.not_mem_nil, or_false, forall_eq_or_imp, forall_eq,
        isContinuation_trailing, and_self]
  | case4 v h1 h2 h3 =>
      refine ⟨_, _, rfl, not_isContinuation_leading (by omega) (by omega), ?_⟩
      simp only [List.mem_cons, List.not_mem_nil, or_false, forall_eq_or_imp, forall_eq,
        isContinuation_trailing, and_self]

/-! ## §2. Texts as encodings of characters. -/

/-- The bytes of a list of characters. -/
def ofChars (cs : List Char) : Text :=
  cs.flatMap String.utf8EncodeChar

theorem ofString_ofList (cs : List Char) : ofString (String.ofList cs) = ofChars cs := by
  unfold ofString ofChars
  rw [String.toByteArray_ofList]
  simp [List.utf8Encode]

theorem isUtf8_iff {t : Text} : t.IsUtf8 ↔ ∃ cs, t = ofChars cs := by
  constructor
  · intro h
    obtain ⟨s, rfl⟩ := h
    refine ⟨s.toList, ?_⟩
    rw [← ofString_ofList, String.ofList_toList]
  · intro h
    obtain ⟨cs, rfl⟩ := h
    exact ⟨String.ofList cs, (ofString_ofList cs).symm⟩

theorem isUtf8_nil : IsUtf8 [] :=
  isUtf8_iff.mpr ⟨[], rfl⟩

theorem IsUtf8.append {a b : Text} (ha : a.IsUtf8) (hb : b.IsUtf8) : IsUtf8 (a ++ b) := by
  obtain ⟨cs, rfl⟩ := isUtf8_iff.mp ha
  obtain ⟨ds, rfl⟩ := isUtf8_iff.mp hb
  exact isUtf8_iff.mpr ⟨cs ++ ds, by simp [ofChars]⟩

/-! ## §3. The boundary test. -/

@[simp]
theorem isBoundary_zero (t : Text) : t.isBoundary 0 = true := rfl

theorem isBoundary_length (t : Text) : t.isBoundary t.length = true := by
  unfold isBoundary
  split
  · rfl
  · simp

theorem le_length_of_isBoundary {t : Text} {i : Nat} (h : t.isBoundary i = true) :
    i ≤ t.length := by
  unfold isBoundary at h
  by_cases hi : i < t.length
  · omega
  · rw [List.getElem?_eq_none (by omega)] at h
    split at h
    · omega
    · simp at h
      omega

/-- Inside a text the test reads one byte. -/
theorem isBoundary_of_getElem? {t : Text} {i : Nat} {b : UInt8} (hi : 0 < i)
    (hb : t[i]? = some b) : t.isBoundary i = !isContinuation b := by
  unfold isBoundary
  rw [if_neg (by omega), hb]

theorem isBoundary_append_left {a : Text} {i : Nat} (hi : i < a.length) (b : Text) :
    isBoundary (a ++ b) i = isBoundary a i := by
  by_cases h0 : i = 0
  · subst h0
    rfl
  · have hb : a[i]? = some a[i] := List.getElem?_eq_getElem hi
    rw [isBoundary_of_getElem? (by omega) hb,
        isBoundary_of_getElem? (by omega) ((List.getElem?_append_left hi).trans hb)]

theorem isBoundary_append_right {a b : Text} {k : Nat}
    (h : isBoundary (a ++ b) (a.length + k) = true) : isBoundary b k = true := by
  have hle := le_length_of_isBoundary h
  rw [List.length_append] at hle
  by_cases h0 : k = 0
  · subst h0
    rfl
  · by_cases hk : k < b.length
    · have hb : b[k]? = some b[k] := List.getElem?_eq_getElem hk
      have hab : (a ++ b)[a.length + k]? = some b[k] := by
        rw [List.getElem?_append_right (by omega), Nat.add_sub_cancel_left, hb]
      rw [isBoundary_of_getElem? (by omega) hab] at h
      rw [isBoundary_of_getElem? (by omega) hb, h]
    · rw [show k = b.length by omega]
      exact isBoundary_length b

/-- Before a part that is text there is a boundary. -/
theorem IsUtf8.isBoundary_append {b : Text} (hb : b.IsUtf8) (a : Text) :
    isBoundary (a ++ b) a.length = true := by
  obtain ⟨cs, rfl⟩ := isUtf8_iff.mp hb
  cases cs with
  | nil =>
      rw [show a ++ ofChars [] = a by simp [ofChars]]
      exact isBoundary_length a
  | cons c cs =>
      obtain ⟨b, bs, hc, hlead, -⟩ := utf8EncodeChar_shape c
      by_cases h0 : a.length = 0
      · rw [h0, isBoundary_zero]
      · have hbyte : (a ++ ofChars (c :: cs))[a.length]? = some b := by
          simp [ofChars, hc]
        rw [isBoundary_of_getElem? (by omega) hbyte, hlead]
        rfl

/-! ## §4. Cutting. -/

/-- **A boundary splits the characters of a text.** -/
theorem ofChars_split (cs : List Char) :
    ∀ i, isBoundary (ofChars cs) i = true →
      IsUtf8 ((ofChars cs).take i) ∧ IsUtf8 ((ofChars cs).drop i) := by
  induction cs with
  | nil =>
      intro i _
      have hnil : ofChars [] = [] := rfl
      rw [hnil, List.take_nil, List.drop_nil]
      exact ⟨isUtf8_nil, isUtf8_nil⟩
  | cons c cs ih =>
      intro i hi
      obtain ⟨b, bs, hc, -, htrail⟩ := utf8EncodeChar_shape c
      have hcons : ofChars (c :: cs) = String.utf8EncodeChar c ++ ofChars cs := rfl
      have hone : IsUtf8 (String.utf8EncodeChar c) :=
        isUtf8_iff.mpr ⟨[c], by simp [ofChars]⟩
      by_cases h0 : i = 0
      · subst h0
        exact ⟨isUtf8_nil, isUtf8_iff.mpr ⟨c :: cs, rfl⟩⟩
      by_cases hin : i < (String.utf8EncodeChar c).length
      · -- strictly inside the first character stands a continuation byte
        have hbyte : ∃ x ∈ bs, (ofChars (c :: cs))[i]? = some x := by
          obtain ⟨k, rfl⟩ := Nat.exists_eq_succ_of_ne_zero h0
          rw [hc] at hin
          have hk : k < bs.length := by simpa using hin
          refine ⟨bs[k], List.getElem_mem hk, ?_⟩
          rw [hcons, hc, List.cons_append, List.getElem?_cons_succ,
              List.getElem?_append_left hk, List.getElem?_eq_getElem hk]
        obtain ⟨x, hx, hbyte⟩ := hbyte
        rw [isBoundary_of_getElem? (by omega) hbyte, htrail x hx] at hi
        exact absurd hi (by decide)
      · obtain ⟨k, rfl⟩ := Nat.exists_eq_add_of_le (Nat.le_of_not_lt hin)
        rw [hcons] at hi ⊢
        obtain ⟨htake, hdrop⟩ := ih k (isBoundary_append_right hi)
        rw [List.take_length_add_append, List.drop_length_add_append]
        exact ⟨hone.append htake, hdrop⟩

theorem IsUtf8.take {t : Text} (ht : t.IsUtf8) {i : Nat} (hi : t.isBoundary i = true) :
    IsUtf8 (t.take i) := by
  obtain ⟨cs, rfl⟩ := isUtf8_iff.mp ht
  exact (ofChars_split cs i hi).1

theorem IsUtf8.drop {t : Text} (ht : t.IsUtf8) {i : Nat} (hi : t.isBoundary i = true) :
    IsUtf8 (t.drop i) := by
  obtain ⟨cs, rfl⟩ := isUtf8_iff.mp ht
  exact (ofChars_split cs i hi).2

/-! ## §5. The nearest boundary. -/

theorem floorBoundary_le (t : Text) (i : Nat) : t.floorBoundary i ≤ i := by
  induction i with
  | zero => exact Nat.le_refl 0
  | succ i ih =>
      unfold floorBoundary
      split
      · exact Nat.le_refl _
      · omega

theorem isBoundary_floorBoundary (t : Text) (i : Nat) :
    t.isBoundary (t.floorBoundary i) = true := by
  induction i with
  | zero => rfl
  | succ i ih =>
      unfold floorBoundary
      split
      next h => exact h
      next => exact ih

/-- No boundary is passed over on the way back. -/
theorem le_floorBoundary {t : Text} {i k : Nat} (hk : t.isBoundary k = true) (hki : k ≤ i) :
    k ≤ t.floorBoundary i := by
  induction i with
  | zero => exact hki
  | succ i ih =>
      unfold floorBoundary
      split
      · exact hki
      next hno =>
        have hne : k ≠ i + 1 := by
          intro heq
          subst heq
          exact hno hk
        exact ih (by omega)

theorem floorBoundary_eq_self {t : Text} {i : Nat} (hi : t.isBoundary i = true) :
    t.floorBoundary i = i :=
  Nat.le_antisymm (floorBoundary_le t i) (le_floorBoundary hi (Nat.le_refl i))

end Text

end StructuralEdit
