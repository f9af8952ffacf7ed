/-
  StructuralEdit.Proofs.FileSystem.Walking
  ────────────────────────────────────────
  **WALKING DOWN A TREE OF FILES.**

  A file system is a list of entries with their locations.  Not every such list is one that
  could be read off a disk: there it is a TREE, in which each location is listed once, lies
  in a directory, and consists of names that a directory can hold (`IsTree`).

  In a tree a path of a directory, joined with the name of an entry, leads to that entry
  (`locate_join`), and so a walk can be told step by step: from a directory to any entry
  of it that is not hidden (`Walks`).  Step by step it gets to exactly what a search of
  the list by location finds (`IsTree.reachedFrom_iff`).

  Where a path without `..` leads is written in its components (`bare_of_locate`): it is
  where the path starts, at the root or at the current directory, and the names after it.
-/
import Mathlib.Data.List.Induction
import StructuralEdit.Proofs.Path.Joining
import StructuralEdit.Proofs.Discovery.Reach

namespace StructuralEdit

/-! ## §1. Trees. -/

namespace FileSystem

/-- The entries make a tree below the root. -/
structure IsTree (fs : FileSystem) : Prop where
  /-- No location is listed twice. -/
  once : (fs.entries.map Prod.fst).Nodup
  /-- Every entry lies in a directory. -/
  inDirectory : ∀ e ∈ fs.entries, e.1 ≠ [] ∧ fs.entry? e.1.dropLast = some .directory
  named : ∀ e ∈ fs.entries, ∀ name ∈ e.1, Path.IsEntryName name

instance (fs : FileSystem) : Decidable fs.IsTree :=
  decidable_of_iff
    ((fs.entries.map Prod.fst).Nodup
      ∧ (∀ e ∈ fs.entries, e.1 ≠ [] ∧ fs.entry? e.1.dropLast = some .directory)
      ∧ ∀ e ∈ fs.entries, ∀ name ∈ e.1, Path.IsEntryName name)
    ⟨fun ⟨h₁, h₂, h₃⟩ => ⟨h₁, h₂, h₃⟩, fun h => ⟨h.once, h.inDirectory, h.named⟩⟩

variable {fs : FileSystem} {p root : Path} {loc dir : Location} {name : String} {e : Entry}

theorem mem_of_lookup {entries : List (Location × Entry)} (h : entries.lookup loc = some e) :
    (loc, e) ∈ entries := by
  obtain ⟨before, after, rfl, -⟩ := List.lookup_eq_some_iff.mp h
  simp

theorem lookup_of_mem {entries : List (Location × Entry)} (hnodup : (entries.map Prod.fst).Nodup)
    (h : (loc, e) ∈ entries) : entries.lookup loc = some e := by
  obtain ⟨before, after, rfl⟩ := List.append_of_mem h
  refine List.lookup_eq_some_iff.mpr ⟨before, after, rfl, fun old hold => ?_⟩
  rw [List.map_append, List.nodup_append] at hnodup
  exact bne_iff_ne.mpr fun heq =>
    hnodup.2.2 old.1 (List.mem_map_of_mem hold) loc (by simp) heq.symm

theorem mem_of_entry_eq (hloc : loc ≠ []) (h : fs.entry? loc = some e) : (loc, e) ∈ fs.entries := by
  unfold entry? at h
  rw [if_neg hloc] at h
  exact mem_of_lookup h

theorem IsTree.entry?_of_mem (hfs : fs.IsTree) (h : (loc, e) ∈ fs.entries) :
    fs.entry? loc = some e := by
  unfold entry?
  rw [if_neg (hfs.inDirectory _ h).1]
  exact lookup_of_mem hfs.once h

/-- What an entry lies in is a directory, and its name is one that a directory can hold. -/
theorem IsTree.of_entry?_append (hfs : fs.IsTree) (h : fs.entry? (loc ++ [name]) = some e) :
    fs.entry? loc = some .directory ∧ Path.IsEntryName name := by
  have hmem := mem_of_entry_eq (by simp) h
  constructor
  · simpa using (hfs.inDirectory _ hmem).2
  · exact hfs.named _ hmem name (by simp)

/-! ## §2. Where paths lead. -/

theorem locate_eq_ok_iff :
    fs.locate p = .ok loc
      ↔ p.spelling ≠ "" ∧ p.pieces.foldlM fs.follow (fs.startOf p) = .ok loc := by
  unfold locate
  split <;> simp_all

/-- A piece is followed from a directory, and leads where it leads from there. -/
theorem follow_eq_ok_iff {piece : String} :
    fs.follow dir piece = .ok loc ↔ fs.entry? dir = some .directory ∧ loc = step dir piece := by
  unfold follow requireDirectory
  cases fs.entry? dir with
  | none => simp [bind, Except.bind]
  | some e =>
      cases e with
      | file content => simp [bind, Except.bind]
      | directory => simp [bind, Except.bind, pure, Except.pure, eq_comm]

theorem step_of_isEntryName (hname : Path.IsEntryName name) : step dir name = dir ++ [name] := by
  simp [step, hname.notIdle, hname.notUp]

/-- **A joined name leads to an entry of the directory.** -/
theorem locate_join (h : fs.resolve p = .ok (loc, .directory)) (hname : Path.IsEntryName name) :
    fs.locate (p.join name) = .ok (loc ++ [name]) := by
  obtain ⟨hlocate, hdir⟩ := resolve_eq_ok_iff.mp h
  obtain ⟨-, hfold⟩ := locate_eq_ok_iff.mp hlocate
  -- the pieces before the name lead to the directory, whether or not a slash ends them
  have hfront : ∃ front, (p.join name).pieces = front ++ [name]
      ∧ front.foldlM fs.follow (fs.startOf p) = .ok loc := by
    rcases p.pieces_join hname.onePiece with ⟨-, hpieces⟩ | ⟨before, hbefore, hpieces⟩
    · exact ⟨p.pieces, hpieces, hfold⟩
    · rw [hbefore, List.foldlM_append] at hfold
      obtain ⟨loc', hloc', hfold⟩ := exists_of_bind_eq_ok hfold
      rw [List.foldlM_cons] at hfold
      obtain ⟨loc'', hstep, hfold⟩ := exists_of_bind_eq_ok hfold
      cases hfold
      obtain ⟨-, rfl⟩ := follow_eq_ok_iff.mp hstep
      exact ⟨before, hpieces, hloc'⟩
  obtain ⟨front, hpieces, hfold⟩ := hfront
  have hstart : fs.startOf (p.join name) = fs.startOf p := by
    unfold startOf
    rw [p.isAbsolute_join hname]
  rw [locate_eq_ok_iff, hpieces, hstart, List.foldlM_append, hfold]
  refine ⟨p.spelling_join_ne hname, ?_⟩
  show ([name].foldlM fs.follow loc) = .ok (loc ++ [name])
  have hlast : fs.follow loc name = .ok (loc ++ [name]) :=
    follow_eq_ok_iff.mpr ⟨hdir, (step_of_isEntryName hname).symm⟩
  rw [List.foldlM_cons, hlast]
  rfl

/-- Pieces without `..` lead down, one step for each that is not idle. -/
theorem eq_append_of_foldlM_follow {pieces : List String} (hup : ".." ∉ pieces)
    (h : pieces.foldlM fs.follow dir = .ok loc) :
    loc = dir ++ pieces.filter (!Path.isIdle ·) := by
  induction pieces generalizing dir with
  | nil =>
      cases h
      simp
  | cons piece pieces ih =>
      obtain ⟨hpiece, hpieces⟩ := List.ne_and_not_mem_of_not_mem_cons hup
      rw [List.foldlM_cons] at h
      obtain ⟨loc', hstep, h⟩ := exists_of_bind_eq_ok h
      obtain ⟨-, rfl⟩ := follow_eq_ok_iff.mp hstep
      rw [ih hpieces h]
      unfold step
      by_cases hidle : Path.isIdle piece = true
      · simp [hidle]
      · simp [hidle, Ne.symm hpiece]

theorem up_mem_components_iff : .up ∈ p.components ↔ ".." ∈ p.pieces := by
  have hlead : Component.up ∉ Path.lead p.pieces := by
    fun_cases Path.lead p.pieces <;> simp
  rw [Path.components_eq, List.mem_append, or_iff_right hlead]
  unfold Path.steps
  constructor
  · intro h
    obtain ⟨piece, hpiece, hup⟩ := List.mem_map.mp h
    unfold Path.componentOf at hup
    split at hup
    next heq => exact beq_iff_eq.mp heq ▸ (List.mem_filter.mp hpiece).1
    next => cases hup
  · intro h
    exact List.mem_map.mpr ⟨"..", List.mem_filter.mpr ⟨h, by decide⟩, rfl⟩

/-- **Where a path without `..` leads is written in its components.** -/
theorem bare_of_locate (h : fs.locate p = .ok loc) (hup : .up ∉ p.components) :
    ∃ names, loc = fs.startOf p ++ names
      ∧ p.bare = (if p.isAbsolute then [.root] else []) ++ names.map .name := by
  obtain ⟨-, hfold⟩ := locate_eq_ok_iff.mp h
  have hpieces : ".." ∉ p.pieces := fun hmem => hup (up_mem_components_iff.mpr hmem)
  refine ⟨_, eq_append_of_foldlM_follow hpieces hfold, ?_⟩
  rw [Path.bare_eq]
  refine congrArg _ (List.map_congr_left fun piece hpiece => ?_)
  unfold Path.componentOf
  rw [if_neg]
  rw [beq_iff_eq]
  rintro rfl
  exact hpieces (List.mem_filter.mp hpiece).1

/-! ## §3. Walks. -/

theorem isFile_iff : fs.isFile p = true ↔ ∃ loc, fs.LeadsTo p loc := by
  unfold isFile find LeadsTo
  cases fs.resolve p with
  | error cause => simp [Functor.map, Except.map]
  | ok found =>
      obtain ⟨loc, e⟩ := found
      cases e <;> simp [Functor.map, Except.map]

/-- A walk from the directory that `root` names gets to the path: it goes from a directory
to any entry of it whose name is not hidden.  The root may have any name. -/
inductive Walks (fs : FileSystem) (root : Path) : Path → Prop where
  | start {dir : Location} : fs.resolve root = .ok (dir, .directory) → Walks fs root root
  | enter {p : Path} {loc : Location} {name : String} {e : Entry} : Walks fs root p →
      fs.resolve p = .ok (loc, .directory) → fs.entry? (loc ++ [name]) = some e →
      isHiddenName name = false → Walks fs root (p.join name)

/-- A walk gets to everything below its root that is not hidden. -/
theorem IsTree.walks_foldl_join (hfs : fs.IsTree)
    (hroot : fs.resolve root = .ok (dir, .directory)) {way : List String}
    (hhidden : ∀ name ∈ way, isHiddenName name = false)
    (he : fs.entry? (dir ++ way) = some e) :
    Walks fs root (way.foldl Path.join root)
      ∧ fs.resolve (way.foldl Path.join root) = .ok (dir ++ way, e) := by
  -- from the end: the entry lies in a directory, to which the walk gets by induction
  induction way using List.reverseRecOn generalizing e with
  | nil =>
      rw [List.append_nil] at he ⊢
      obtain ⟨hlocate, hdir⟩ := resolve_eq_ok_iff.mp hroot
      rw [hdir] at he
      cases he
      exact ⟨.start hroot, hroot⟩
  | append_singleton way name ih =>
      rw [← List.append_assoc] at he
      obtain ⟨hdir, hname⟩ := hfs.of_entry?_append he
      obtain ⟨hwalks, hresolve⟩ := ih (fun n hn => hhidden n (by simp [hn])) hdir
      rw [List.foldl_append, List.foldl_cons, List.foldl_nil, ← List.append_assoc]
      exact ⟨.enter hwalks hresolve he (hhidden name (by simp)),
        resolve_eq_ok_iff.mpr ⟨locate_join hresolve hname, he⟩⟩

/-- Everything that a walk gets to lies below its root and is not hidden. -/
theorem IsTree.exists_way_of_walks (hfs : fs.IsTree) (h : Walks fs root p) :
    ∃ dir way e, fs.resolve root = .ok (dir, .directory)
      ∧ (∀ name ∈ way, isHiddenName name = false) ∧ p = way.foldl Path.join root
      ∧ fs.resolve p = .ok (dir ++ way, e) := by
  induction h with
  | @start dir hroot => exact ⟨dir, [], .directory, hroot, by simp, rfl, by simpa using hroot⟩
  | @enter p loc name e _ hresolve he hhidden ih =>
      obtain ⟨dir, way, e', hroot, hway, hp, hresolve'⟩ := ih
      rw [hresolve] at hresolve'
      cases hresolve'
      have hname := (hfs.of_entry?_append he).2
      refine ⟨dir, way ++ [name], e, hroot, ?_, by simp [hp], ?_⟩
      · intro n hn
        rcases List.mem_append.mp hn with hn | hn
        · exact hway n hn
        · rw [List.mem_singleton.mp hn]
          exact hhidden
      · rw [← List.append_assoc]
        exact resolve_eq_ok_iff.mpr ⟨locate_join hresolve hname, he⟩

/-- **Walking and searching find the same files.** -/
theorem IsTree.reachedFrom_iff (hfs : fs.IsTree) :
    Path.ReachedFrom fs root p ↔ Walks fs root p ∧ fs.isFile p = true := by
  rw [isFile_iff]
  constructor
  · rintro ⟨dir, way, content, hroot, -, hhidden, hmem, rfl⟩
    obtain ⟨hwalks, hresolve⟩ := hfs.walks_foldl_join hroot hhidden (hfs.entry?_of_mem hmem)
    exact ⟨hwalks, dir ++ way, content, hresolve⟩
  · rintro ⟨hwalks, loc, content, hfile⟩
    obtain ⟨dir, way, e, hroot, hhidden, hp, hresolve⟩ := hfs.exists_way_of_walks hwalks
    rw [hresolve] at hfile
    cases hfile
    have hway : way ≠ [] := by
      -- the root itself is a directory
      rintro rfl
      rw [hp, List.foldl_nil, hroot, List.append_nil] at hresolve
      cases hresolve
    have hentry := (resolve_eq_ok_iff.mp hresolve).2
    exact ⟨dir, way, content, hroot, hway, hhidden, mem_of_entry_eq (by simp [hway]) hentry, hp⟩

end FileSystem

end StructuralEdit
