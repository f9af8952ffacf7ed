/-
  StructuralEdit.Proofs.Path.Joining
  ──────────────────────────────────
  **JOINING A NAME TO A PATH ADDS ONE COMPONENT.**

  `Path.join` works on spellings: it puts a slash before the name unless one is there
  already.  In pieces this adds the name at the end, or puts it in place of the empty piece
  behind a trailing slash (`Path.pieces_join`); either way the components gain exactly the
  component of that name (`Path.components_join`).

  A leading `.` is the only place where a `.` shows among the components, so that a path is
  settled by its other components (`Path.bare`) and by whether it starts with a `.`
  (`Path.components_eq_of_bare`).  These other components are its steps, behind a slash if
  it starts with one (`Path.bare_eq`).
-/
import Mathlib.Data.List.Basic
import StructuralEdit.Path

namespace StructuralEdit

/-! ## §1. Cutting what has been put together. -/

theorem cutChars_ne_nil (sep : Char) (xs : List Char) : cutChars sep xs ≠ [] := by
  unfold cutChars
  split
  · exact List.cons_ne_nil _ _
  · split
    · exact List.cons_ne_nil _ _
    · split <;> exact List.cons_ne_nil _ _

theorem cutChars_append (sep : Char) (xs ys : List Char) :
    cutChars sep (xs ++ sep :: ys) = cutChars sep xs ++ cutChars sep ys := by
  induction xs with
  | nil => simp [cutChars]
  | cons c xs ih =>
      obtain ⟨piece, pieces, hcut⟩ := List.exists_cons_of_ne_nil (cutChars_ne_nil sep xs)
      rw [hcut] at ih
      by_cases hc : c = sep <;> simp [cutChars, hc, ih, hcut]

theorem cutChars_of_not_mem {sep : Char} {xs : List Char} (h : sep ∉ xs) :
    cutChars sep xs = [xs] := by
  induction xs with
  | nil => rfl
  | cons c xs ih =>
      obtain ⟨hc, hxs⟩ := List.ne_and_not_mem_of_not_mem_cons h
      simp [cutChars, Ne.symm hc, ih hxs]

/-- Only nothing has one empty piece. -/
theorem eq_nil_of_cutChars {sep : Char} {xs : List Char} (h : cutChars sep xs = [[]]) :
    xs = [] := by
  cases xs with
  | nil => rfl
  | cons c xs =>
      unfold cutChars at h
      split at h
      next => exact absurd (List.cons.inj h).2 (cutChars_ne_nil sep xs)
      next => split at h <;> cases h

namespace Path

/-! ## §2. The pieces of a joined path. -/

/-- Something that a directory can call an entry: it is one piece, and stands for a step
down. -/
structure IsEntryName (name : String) : Prop where
  onePiece : '/' ∉ name.toList
  notIdle : isIdle name = false
  notUp : name ≠ ".."

instance (name : String) : Decidable (IsEntryName name) :=
  decidable_of_iff ('/' ∉ name.toList ∧ isIdle name = false ∧ name ≠ "..")
    ⟨fun ⟨h₁, h₂, h₃⟩ => ⟨h₁, h₂, h₃⟩, fun h => ⟨h.onePiece, h.notIdle, h.notUp⟩⟩

variable {p q : Path} {name : String}

theorem IsEntryName.ne_empty (hname : IsEntryName name) : name ≠ "" := by
  rintro rfl
  exact absurd hname.notIdle (by decide)

theorem IsEntryName.ne_dot (hname : IsEntryName name) : name ≠ "." := by
  rintro rfl
  exact absurd hname.notIdle (by decide)

theorem pieces_of_slash {xs : List Char} {s : String} (h : s.toList = xs ++ '/' :: name.toList)
    (hname : '/' ∉ name.toList) :
    pieces ⟨s⟩ = (cutChars '/' xs).map String.ofList ++ [name] := by
  unfold pieces cutAt
  rw [h, cutChars_append, cutChars_of_not_mem hname]
  simp

/-- A joined name is one more piece, or takes the place of the empty one at the end. -/
theorem pieces_join (p : Path) (hname : '/' ∉ name.toList) :
    (p.pieces ≠ [""] ∧ (p.join name).pieces = p.pieces ++ [name])
      ∨ ∃ before, p.pieces = before ++ [""] ∧ (p.join name).pieces = before ++ [name] := by
  unfold join
  split
  next hslash =>
      refine Or.inr ?_
      rw [Bool.or_eq_true, beq_iff_eq] at hslash
      rcases hslash with hempty | hends
      · -- the empty path has one piece, and it is empty
        refine ⟨[], by simp [pieces, cutAt, cutChars, hempty], ?_⟩
        simp [pieces, cutAt, hempty, cutChars_of_not_mem hname]
      · have hsuffix : ['/'] <:+ p.spelling.toList := by
          simpa using String.Slice.endsWith_string_iff.mp hends
        obtain ⟨xs, hxs⟩ := hsuffix
        refine ⟨(cutChars '/' xs).map String.ofList, ?_, ?_⟩
        · exact pieces_of_slash (by rw [← hxs]; rfl) (by simp)
        · exact pieces_of_slash (by rw [String.toList_append, ← hxs]; simp) hname
  next hslash =>
      refine Or.inl ⟨fun hpieces => hslash ?_, pieces_of_slash (by simp) hname⟩
      have hcut : cutChars '/' p.spelling.toList = [[]] := by
        unfold pieces cutAt at hpieces
        obtain ⟨xs, hxs, hempty⟩ := List.map_eq_singleton_iff.mp hpieces
        rw [hxs, String.ofList_eq_empty_iff.mp hempty]
      rw [String.toList_eq_nil_iff.mp (eq_nil_of_cutChars hcut)]
      rfl

theorem spelling_join_ne (p : Path) (hname : IsEntryName name) : (p.join name).spelling ≠ "" := by
  unfold join
  split <;> simp [hname.ne_empty]

theorem pieces_ne_nil (p : Path) : p.pieces ≠ [] := by
  unfold pieces cutAt
  rw [Ne, List.map_eq_nil_iff]
  exact cutChars_ne_nil _ _

/-! ## §3. The components of a joined path. -/

/-- What the first piece stands for, apart from a step. -/
def lead : List String → List Component
  | "" :: _ :: _ => [.root]
  | "." :: _ => [.here]
  | _ => []

/-- What the pieces stand for as steps. -/
def steps (pieces : List String) : List Component :=
  (pieces.filter (!isIdle ·)).map componentOf

theorem components_eq (p : Path) : p.components = lead p.pieces ++ steps p.pieces := by
  unfold components
  generalize p.pieces = pieces
  fun_cases lead pieces <;> simp_all [steps]

theorem lead_append {before : List String} (hne : before ≠ []) (hempty : before ≠ [""])
    (more : List String) : lead (before ++ more) = lead before := by
  fun_cases lead before with
  | case1 => rfl
  | case2 => rfl
  | case3 _ hroot hhere =>
      obtain ⟨first, rest, rfl⟩ := List.exists_cons_of_ne_nil hne
      have hfirst : first ≠ "" := by
        rintro rfl
        cases rest with
        | nil => exact hempty rfl
        | cons next rest => exact hroot next rest rfl
      have hdot : first ≠ "." := by
        rintro rfl
        exact hhere rest rfl
      simp [lead, hfirst, hdot]

theorem IsEntryName.steps_append (hname : IsEntryName name) (pieces : List String) :
    steps (pieces ++ [name]) = steps pieces ++ [.name name] := by
  simp [steps, componentOf, hname.notIdle, hname.notUp]

/-- Steps go up or to a name; a leading slash or `.` is no step. -/
theorem not_mem_steps {c : Component} (hup : c ≠ .up) (hname : ∀ s, c ≠ .name s)
    (pieces : List String) : c ∉ steps pieces := by
  intro h
  obtain ⟨piece, -, rfl⟩ := List.mem_map.mp h
  unfold componentOf at hup hname
  split at hup
  · exact hup rfl
  · exact hname piece (by simp_all)

theorem steps_append_empty (pieces : List String) : steps (pieces ++ [""]) = steps pieces := by
  simp [steps, isIdle]

/-- An entry name in place of the empty piece at the end does not change how a path starts. -/
theorem IsEntryName.lead_append (hname : IsEntryName name) (before : List String) :
    lead (before ++ [name]) = lead (before ++ [""]) := by
  by_cases hbefore : before = [] ∨ before = [""]
  · rcases hbefore with rfl | rfl <;> simp [lead, hname.ne_dot]
  · obtain ⟨hne, hempty⟩ := not_or.mp hbefore
    rw [Path.lead_append hne hempty, Path.lead_append hne hempty]

/-- **A joined name is one more component.** -/
theorem components_join (p : Path) (hname : IsEntryName name) :
    (p.join name).components = p.components ++ [.name name] := by
  rw [components_eq, components_eq]
  rcases pieces_join p hname.onePiece with ⟨hempty, hpieces⟩ | ⟨before, hbefore, hpieces⟩
  · rw [hpieces, lead_append p.pieces_ne_nil hempty, hname.steps_append, List.append_assoc]
  · rw [hpieces, hbefore, hname.lead_append, hname.steps_append, steps_append_empty,
        List.append_assoc]

/-! ## §4. Absolute paths. -/

theorem lead_cons_ne_root {first : String} (h : first ≠ "") (rest : List String) :
    lead (first :: rest) ≠ [.root] := by
  unfold lead
  split <;> simp_all

theorem lead_pieces_eq_root_iff (p : Path) : lead p.pieces = [.root] ↔ p.isAbsolute = true := by
  unfold isAbsolute pieces cutAt
  rw [String.startsWith_string_iff]
  cases p.spelling.toList with
  | nil => simp [cutChars, lead]
  | cons c cs =>
      obtain ⟨piece, pieces, hcut⟩ := List.exists_cons_of_ne_nil (cutChars_ne_nil '/' cs)
      by_cases hc : c = '/'
      · simp [cutChars, hc, hcut, lead]
      · -- the first piece has a character
        have hpiece : String.ofList (c :: piece) ≠ "" := by simp
        have hlead := lead_cons_ne_root hpiece (pieces.map String.ofList)
        simpa [cutChars, hc, hcut, Ne.symm hc] using hlead

theorem isAbsolute_iff (p : Path) : p.isAbsolute = true ↔ .root ∈ p.components := by
  rw [← lead_pieces_eq_root_iff, components_eq, List.mem_append,
      or_iff_left (not_mem_steps (by simp) (by simp) p.pieces)]
  fun_cases lead p.pieces <;> simp

/-- What is joined to an absolute path is absolute, and only that. -/
theorem isAbsolute_join (p : Path) (hname : IsEntryName name) :
    (p.join name).isAbsolute = p.isAbsolute := by
  rw [Bool.eq_iff_iff, isAbsolute_iff, isAbsolute_iff, components_join p hname]
  simp

/-! ## §5. Paths but for a leading `.`. -/

/-- The path starts with a `.`. -/
def startsHere (p : Path) : Bool :=
  p.components.head? == some .here

/-- The components other than `.`. -/
def bare (p : Path) : List Component :=
  p.components.filter (· ≠ .here)

theorem filter_ne_here {cs : List Component} (h : Component.here ∉ cs) :
    cs.filter (· ≠ .here) = cs :=
  List.filter_eq_self.mpr fun _ hc => decide_eq_true fun heq => h (heq ▸ hc)

/-- The other components are the steps, behind the slash of an absolute path. -/
theorem bare_eq (p : Path) :
    p.bare = (if p.isAbsolute then [.root] else []) ++ steps p.pieces := by
  unfold bare
  rw [components_eq, List.filter_append, filter_ne_here (not_mem_steps (by simp) (by simp) _)]
  refine congrArg (· ++ _) ?_
  by_cases hroot : p.isAbsolute = true
  · rw [if_pos hroot, (lead_pieces_eq_root_iff p).mpr hroot]
    rfl
  · rw [if_neg hroot]
    rw [← lead_pieces_eq_root_iff] at hroot
    revert hroot
    fun_cases lead p.pieces <;> simp

/-- A `.` shows nowhere but in front. -/
theorem components_eq_bare (p : Path) :
    p.components = (if p.startsHere then [.here] else []) ++ p.bare := by
  have hsteps : Component.here ∉ steps p.pieces := not_mem_steps (by simp) (by simp) _
  have hlead : lead p.pieces = [.here] ∨ .here ∉ lead p.pieces := by
    fun_cases lead p.pieces <;> simp
  unfold startsHere bare
  rw [components_eq]
  rcases hlead with hlead | hlead
  · rw [hlead]
    simp only [List.cons_append, List.nil_append, List.head?_cons, beq_self_eq_true, if_true]
    rw [List.filter_cons_of_neg (by simp), filter_ne_here hsteps]
  · have hmem : Component.here ∉ lead p.pieces ++ steps p.pieces := by
      simp [hlead, hsteps]
    have hhead : ((lead p.pieces ++ steps p.pieces).head? == some .here) = false :=
      beq_eq_false_iff_ne.mpr fun h => hmem (List.mem_of_head? h)
    rw [hhead, filter_ne_here hmem]
    rfl

/-- Two paths that differ only in how a `.` is spelled differ only in front. -/
theorem components_eq_of_bare (hbare : p.bare = q.bare) (hstart : p.startsHere = q.startsHere) :
    p.components = q.components := by
  rw [components_eq_bare p, components_eq_bare q, hbare, hstart]

end Path

end StructuralEdit
