/-
  StructuralEdit.Proofs.Discovery.Exact
  ─────────────────────────────────────
  **DISCOVERY FINDS EXACTLY THE FILES ASKED FOR.**

  What discovery should find can be told without it:

      named        a root that is a file, whatever the filter says
      below        a file that a walk from some root gets to, in a language that is known,
                   and that the filter lets pass

  (`FileSystem.AskedFor`).  Every such path is found, and nothing else is
  (`mem_found_iff`).  Sorting puts paths with the same components side by side, so that
  dropping neighbours leaves one of each: the result is strictly increasing, and as such is
  settled by which components it holds.  Hence neither the order nor the repetition of the
  roots shows in it.

  All this is up to `Path.same`: of several spellings of a path one is kept, and a filter
  sees spellings, so that a path is there as soon as SOME spelling of it is asked for.
-/
import StructuralEdit.Proofs.Path.ComponentOrder
import StructuralEdit.Proofs.FileSystem.Walking
import StructuralEdit.Proofs.Rule.Atomic

namespace StructuralEdit

/-! ## §1. What is asked for. -/

/-- The filter lets the path pass: some glob that it must match does, if there are any, and
none that it must not.  A leading `.` is stripped first. -/
structure FileFilter.Passes (filter : FileFilter) (p : Path) : Prop where
  included : filter.includes = []
    ∨ ∃ glob ∈ filter.includes, glob.isMatch p.withoutLeadingDot.spelling = true
  notExcluded : ∀ glob ∈ filter.excludes, glob.isMatch p.withoutLeadingDot.spelling = false

theorem FileFilter.accepts_iff_passes {filter : FileFilter} {p : Path} :
    filter.accepts p = true ↔ filter.Passes p := by
  unfold accepts
  rw [Bool.and_eq_true, Bool.or_eq_true, List.isEmpty_iff, List.any_eq_true, Bool.not_eq_true',
      List.any_eq_false]
  simp only [Bool.not_eq_true]
  exact ⟨fun ⟨hin, hout⟩ => ⟨hin, hout⟩, fun ⟨hin, hout⟩ => ⟨hin, hout⟩⟩

namespace FileSystem

/-- The roots ask for the file at a path. -/
inductive AskedFor (fs : FileSystem) (roots : List Path) (filter : FileFilter)
    (lang : Option Language) (p : Path) : Prop where
  /-- It is a root itself. -/
  | named : p ∈ roots → fs.isFile p = true → AskedFor fs roots filter lang p
  /-- It is of interest, and a walk from a root gets to it. -/
  | below {root : Path} : root ∈ roots → Walks fs root p → fs.isFile p = true →
      (lang.isSome = true ∨ p.language?.isSome = true) → filter.Passes p →
      AskedFor fs roots filter lang p

end FileSystem

theorem isWanted_iff {filter : FileFilter} {lang : Option Language} {p : Path} :
    isWanted filter lang p = true
      ↔ (lang.isSome = true ∨ p.language?.isSome = true) ∧ filter.Passes p := by
  unfold isWanted
  rw [Bool.and_eq_true, Bool.or_eq_true, FileFilter.accepts_iff_passes]

/-! ## §2. What is found. -/

section

variable {fs : FileSystem} {filter : FileFilter} {lang : Option Language} {roots : List Path}
  {root p : Path}

theorem mem_filesBelow_of_reachedFrom {dir : Location} (hp : Path.ReachedFrom fs root p)
    (hroot : fs.resolve root = .ok (dir, .directory)) : p ∈ filesBelow fs root dir := by
  obtain ⟨dir', way, content, hroot', hne, hhidden, hmem, rfl⟩ := hp
  rw [hroot] at hroot'
  cases hroot'
  refine List.mem_filterMap.mpr ⟨_, hmem, ?_⟩
  have hway : wayFrom? dir (dir ++ way) = some way := wayFrom?_eq_some_iff.mpr ⟨hne, rfl⟩
  have hany : way.any isHiddenName = false :=
    List.any_eq_false.mpr fun name hname => by simp [hhidden name hname]
  simp [hway, hany]

/-- A root gives all that it stands for. -/
theorem mem_filesOfRoot_iff {found : List Path} (h : filesOfRoot fs filter lang root = .ok found) :
    p ∈ found ↔ (p = root ∧ fs.isFile root = true)
      ∨ (Path.ReachedFrom fs root p ∧ isWanted filter lang p = true) := by
  rw [FileSystem.isFile_iff]
  refine ⟨mem_filesOfRoot h, ?_⟩
  unfold filesOfRoot at h
  split at h
  next loc content hroot =>
      cases h
      rintro (⟨rfl, -⟩ | ⟨⟨dir, _, _, hdir, _⟩, -⟩)
      · exact List.mem_singleton_self p
      · rw [hroot] at hdir
        cases hdir
  next dir hroot =>
      cases h
      rintro (⟨rfl, loc, content, hfile⟩ | ⟨hreached, hwanted⟩)
      · rw [hroot] at hfile
        cases hfile
      · exact List.mem_filter.mpr ⟨mem_filesBelow_of_reachedFrom hreached hroot, hwanted⟩
  next => cases h

/-- All the roots together give exactly what they ask for. -/
theorem mem_found_iff (hfs : fs.IsTree) {found : List (List Path)}
    (h : roots.mapM (filesOfRoot fs filter lang) = .ok found) :
    p ∈ found.flatten ↔ fs.AskedFor roots filter lang p := by
  obtain ⟨hall, honly⟩ := mem_mapM_eq_ok h
  rw [List.mem_flatten]
  constructor
  · rintro ⟨files, hfiles, hp⟩
    obtain ⟨root, hroot, hof⟩ := honly files hfiles
    rcases (mem_filesOfRoot_iff hof).mp hp with ⟨rfl, hfile⟩ | ⟨hreached, hwanted⟩
    · exact .named hroot hfile
    · obtain ⟨hwalks, hfile⟩ := hfs.reachedFrom_iff.mp hreached
      obtain ⟨hlang, hpasses⟩ := isWanted_iff.mp hwanted
      exact .below hroot hwalks hfile hlang hpasses
  · intro hp
    cases hp with
    | named hroot hfile =>
        obtain ⟨files, hfiles, hof⟩ := hall p hroot
        exact ⟨files, hfiles, (mem_filesOfRoot_iff hof).mpr (.inl ⟨rfl, hfile⟩)⟩
    | @below root hroot hwalks hfile hlang hpasses =>
        obtain ⟨files, hfiles, hof⟩ := hall root hroot
        exact ⟨files, hfiles, (mem_filesOfRoot_iff hof).mpr
          (.inr ⟨hfs.reachedFrom_iff.mpr ⟨hwalks, hfile⟩, isWanted_iff.mpr ⟨hlang, hpasses⟩⟩)⟩

end

/-! ## §3. What is kept. -/

/-- Dropping neighbours loses a spelling, never a path. -/
theorem mem_map_components_dropSame (ps : List Path) (cs : List Component) :
    cs ∈ (dropSame ps).map Path.components ↔ cs ∈ ps.map Path.components := by
  induction ps with
  | nil => rfl
  | cons p ps ih =>
      rw [dropSame]
      split
      next hrest =>
          rw [hrest] at ih
          simp [← ih]
      next q qs hrest =>
          rw [hrest] at ih
          split
          next hsame =>
              rw [Path.same_iff] at hsame
              simp only [List.map_cons, List.mem_cons, ← ih, hsame, or_self_left]
          next => simp only [List.map_cons, List.mem_cons, ← ih]

/-- In order, and each once. -/
theorem pairwise_before_dropSame {ps : List Path} (h : ps.Pairwise fun p q => p.le q = true) :
    (dropSame ps).Pairwise Path.Before := by
  induction ps with
  | nil => exact .nil
  | cons p ps ih =>
      obtain ⟨hp, hps⟩ := List.pairwise_cons.mp h
      have hrest := ih hps
      rw [dropSame]
      split
      next => exact List.pairwise_singleton _ p
      next q qs hdrop =>
          rw [hdrop] at hrest
          obtain ⟨hq, hqs⟩ := List.pairwise_cons.mp hrest
          split
          next hsame =>
              -- `p` takes the place of `q`, whose components it has
              refine List.pairwise_cons.mpr ⟨fun r hr => ?_, hqs⟩
              unfold Path.Before
              rw [Path.same_iff.mp hsame]
              exact hq r hr
          next hsame =>
              have hmem : q ∈ ps := (dropSame_sublist ps).mem (hdrop ▸ List.mem_cons_self)
              have hpq : p.Before q :=
                Path.before_of_le (hp q hmem) fun heq => hsame (Path.same_iff.mpr heq)
              refine List.pairwise_cons.mpr ⟨fun r hr => ?_, hrest⟩
              rcases List.mem_cons.mp hr with rfl | hr
              · exact hpq
              · exact hpq.trans (hq r hr)

section

variable {fs : FileSystem} {filter : FileFilter} {lang : Option Language}
  {roots paths : List Path}

theorem pairwise_before_discover (h : discover fs roots filter lang = .ok paths) :
    paths.Pairwise Path.Before := by
  obtain ⟨found, -, h⟩ := exists_of_bind_eq_ok h
  cases h
  exact pairwise_before_dropSame (pairwise_sortBy Path.le_trans Path.le_total _)

theorem mem_map_components_discover (hfs : fs.IsTree)
    (h : discover fs roots filter lang = .ok paths) (cs : List Component) :
    cs ∈ paths.map Path.components
      ↔ ∃ p, fs.AskedFor roots filter lang p ∧ p.components = cs := by
  obtain ⟨found, hfound, h⟩ := exists_of_bind_eq_ok h
  cases h
  rw [mem_map_components_dropSame, List.mem_map]
  simp only [mem_sortBy, mem_found_iff hfs hfound]

theorem FileSystem.IsTree.askedFor_of_mem_discover (hfs : fs.IsTree)
    (h : discover fs roots filter lang = .ok paths) {p : Path} (hp : p ∈ paths) :
    fs.AskedFor roots filter lang p := by
  obtain ⟨found, hfound, h⟩ := exists_of_bind_eq_ok h
  cases h
  exact (mem_found_iff hfs hfound).mp (mem_sortBy.mp ((dropSame_sublist _).mem hp))

end

/-! ## §4. Exactness. -/

/-- Sources in a directory and one below it, with notes and something hidden, all of it in
the current directory, which is not the root. -/
def sources : FileSystem :=
  { entries := [
      (["w"], .directory), (["w", "notes.txt"], .file []),
      (["w", "src"], .directory), (["w", "src", "sub"], .directory),
      (["w", "src", "sub", "d.rs"], .file []), (["w", "src", "sub", "d.txt"], .file []),
      (["w", "src", "a.rs"], .file []), (["w", "src", "old.rs"], .file []),
      (["w", "src", ".git"], .directory), (["w", "src", ".git", "hook.rs"], .file [])]
    current := ["w"] }

end StructuralEdit
