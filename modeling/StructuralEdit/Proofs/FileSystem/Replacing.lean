/-
  StructuralEdit.Proofs.FileSystem.Replacing
  ──────────────────────────────────────────
  **REPLACING A FILE CHANGES THAT FILE.**

  Paths are followed through directories, and replacing the content of a file makes no
  directory and removes none.  So a path leads afterwards where it led before
  (`Replaced.locate`), and unless that is to the file itself, it finds there what it found
  before (`Replaced.resolve_of_not_leadsTo`).  Hence it is locations, not spellings, that
  tell whether two paths get in each other's way (`FileSystem.Distinct`).

  All that is asked of a writer is that it replaces the whole file or fails
  (`Writer.Whole`).
-/
import Mathlib.Data.List.Pairwise
import StructuralEdit.FileSystem
import StructuralEdit.Proofs.Selection.Nodes

namespace StructuralEdit

namespace FileSystem

/-! ## §1. Entries after one has been put. -/

theorem lookup_map_put_self {entries : List (Location × Entry)} {loc : Location} (e : Entry)
    (h : (entries.lookup loc).isSome = true) :
    (entries.map fun old => if old.1 = loc then (loc, e) else old).lookup loc = some e := by
  induction entries with
  | nil => cases h
  | cons old entries ih =>
      by_cases hold : old.1 = loc
      · simp [hold]
      · have hne : (loc == old.1) = false := beq_eq_false_iff_ne.mpr (Ne.symm hold)
        rw [List.lookup_cons, hne] at h
        rw [List.map_cons, if_neg hold, List.lookup_cons, hne]
        exact ih h

theorem lookup_map_put_of_ne {entries : List (Location × Entry)} {loc loc' : Location} (e : Entry)
    (h : loc' ≠ loc) :
    (entries.map fun old => if old.1 = loc then (loc, e) else old).lookup loc'
      = entries.lookup loc' := by
  have hne : (loc' == loc) = false := beq_eq_false_iff_ne.mpr h
  induction entries with
  | nil => rfl
  | cons old entries ih =>
      rw [List.map_cons, List.lookup_cons, List.lookup_cons, ih]
      by_cases hold : old.1 = loc
      · rw [if_pos hold, hold, hne]
      · rw [if_neg hold]

theorem entry?_put_self {fs : FileSystem} {loc : Location} (hloc : loc ≠ []) (e : Entry) :
    FileSystem.entry? (fs.put loc e) loc = some e := by
  unfold entry? put
  rw [if_neg hloc]
  split
  next hthere => exact lookup_map_put_self e hthere
  next hnew =>
      rw [Option.not_isSome_iff_eq_none] at hnew
      show (fs.entries ++ [(loc, e)]).lookup loc = some e
      rw [List.lookup_append, hnew]
      simp

theorem entry?_put_of_ne {fs : FileSystem} {loc loc' : Location} (h : loc' ≠ loc) (e : Entry) :
    FileSystem.entry? (fs.put loc e) loc' = fs.entry? loc' := by
  unfold entry? put
  split
  next => rfl
  next hloc' =>
      split
      next => exact lookup_map_put_of_ne e h
      next =>
          have hne : (loc' == loc) = false := beq_eq_false_iff_ne.mpr h
          show (fs.entries ++ [(loc, e)]).lookup loc' = _
          rw [List.lookup_append, List.lookup_cons, hne]
          simp

theorem current_put (fs : FileSystem) (loc : Location) (e : Entry) :
    (fs.put loc e).current = fs.current := by
  unfold put
  split <;> rfl

/-- What is written is put where the path leads to, and that is not the root. -/
theorem exists_of_write {fs fs' : FileSystem} {p : Path} {content : Text}
    (h : fs.write p content = .ok fs') :
    ∃ loc, fs.locate p = .ok loc ∧ loc ≠ [] ∧ fs' = fs.put loc (.file content) := by
  unfold write at h
  obtain ⟨dir, -, h⟩ := exists_of_bind_eq_ok h
  obtain ⟨-, -, h⟩ := exists_of_bind_eq_ok h
  split at h
  next =>
      -- a path that ends in a slash is refused either way
      split at h <;> cases h
  next =>
      obtain ⟨loc, hloc, hput⟩ := exists_of_bind_eq_ok h
      refine ⟨loc, hloc, ?_, ?_⟩
      · rintro rfl
        cases hput
      · split at hput
        next => cases hput
        next => exact (Except.ok.inj hput).symm

end FileSystem

/-! ## §2. Writers. -/

/-- A file with this content stands at the location now, and nothing else has changed. -/
structure FileSystem.Placed (fs : FileSystem) (loc : Location) (content : Text)
    (fs' : FileSystem) : Prop where
  after : fs'.entry? loc = some (.file content)
  others : ∀ loc' ≠ loc, fs'.entry? loc' = fs.entry? loc'
  current : fs'.current = fs.current

/-- The writer replaces what a path leads to as a whole, and leaves everything else as it
is; or it fails. -/
def Writer.Whole (writer : Writer) : Prop :=
  ∀ {fs fs' : FileSystem} {p : Path} {content : Text}, writer fs p content = .ok fs' →
    ∃ loc, fs.locate p = .ok loc ∧ fs.Placed loc content fs'

/-- The writer that goes by the file system alone is such a writer. -/
theorem FileSystem.writer_whole : FileSystem.writer.Whole := by
  intro fs fs' p content h
  have hwrite : fs.write p content = .ok fs' := by
    unfold FileSystem.writer at h
    cases hw : fs.write p content with
    | error e =>
        rw [hw] at h
        cases h
    | ok after =>
        rw [hw] at h
        cases h
        rfl
  obtain ⟨loc, hloc, hne, rfl⟩ := exists_of_write hwrite
  exact ⟨loc, hloc, entry?_put_self hne _, fun loc' hloc' => entry?_put_of_ne hloc' _,
    current_put fs loc _⟩

/-! ## §3. Files replaced. -/

namespace FileSystem

/-- The path leads to a file at the location. -/
def LeadsTo (fs : FileSystem) (p : Path) (loc : Location) : Prop :=
  ∃ content, fs.resolve p = .ok (loc, .file content)

/-- The file at a location has another content now, and nothing else has changed. -/
structure Replaced (fs : FileSystem) (loc : Location) (content : Text) (fs' : FileSystem) : Prop
    extends fs.Placed loc content fs' where
  before : ∃ old, fs.entry? loc = some (.file old)

section

variable {fs fs' : FileSystem} {p q : Path} {loc : Location} {content : Text}

theorem resolve_of_locate (h : fs.locate p = .ok loc) :
    fs.resolve p = match fs.entry? loc with
      | some e => .ok (loc, e)
      | none => .error .notFound := by
  unfold resolve
  rw [h]
  rfl

theorem resolve_eq_ok_iff {e : Entry} :
    fs.resolve p = .ok (loc, e) ↔ fs.locate p = .ok loc ∧ fs.entry? loc = some e := by
  constructor
  · intro h
    obtain ⟨loc', hloc, h⟩ := exists_of_bind_eq_ok h
    split at h
    next e' he =>
        cases h
        exact ⟨hloc, he⟩
    next => cases h
  · rintro ⟨hloc, he⟩
    rw [resolve_of_locate hloc, he]

theorem leadsTo_iff :
    fs.LeadsTo p loc ↔ fs.locate p = .ok loc ∧ ∃ content, fs.entry? loc = some (.file content) := by
  unfold LeadsTo
  simp only [resolve_eq_ok_iff, exists_and_left]

theorem LeadsTo.unique {loc' : Location} (h : fs.LeadsTo p loc) (h' : fs.LeadsTo p loc') :
    loc = loc' :=
  Except.ok.inj ((leadsTo_iff.mp h).1.symm.trans (leadsTo_iff.mp h').1)

theorem locate_congr (hcurrent : fs'.current = fs.current)
    (h : ∀ loc, fs'.requireDirectory loc = fs.requireDirectory loc) (p : Path) :
    fs'.locate p = fs.locate p := by
  have hfollow : fs'.follow = fs.follow := by
    funext loc piece
    unfold follow
    rw [h]
  unfold locate startOf
  rw [hfollow, hcurrent]

theorem resolve_congr (hlocate : fs'.locate p = fs.locate p)
    (hentry : ∀ loc, fs.locate p = .ok loc → fs'.entry? loc = fs.entry? loc) :
    fs'.resolve p = fs.resolve p := by
  cases hloc : fs.locate p with
  | error e =>
      unfold resolve
      rw [hlocate, hloc]
      rfl
  | ok loc =>
      rw [resolve_of_locate (hlocate.trans hloc), resolve_of_locate hloc, hentry loc hloc]

theorem Replaced.requireDirectory (h : fs.Replaced loc content fs') (loc' : Location) :
    fs'.requireDirectory loc' = fs.requireDirectory loc' := by
  unfold FileSystem.requireDirectory
  by_cases hloc : loc' = loc
  · obtain ⟨old, hold⟩ := h.before
    rw [hloc, h.after, hold]
  · rw [h.others loc' hloc]

/-- Paths lead where they led before. -/
theorem Replaced.locate (h : fs.Replaced loc content fs') (p : Path) :
    fs'.locate p = fs.locate p :=
  locate_congr h.current h.requireDirectory p

/-- A file is a file before and after. -/
theorem Replaced.leadsTo_iff (h : fs.Replaced loc content fs') (q : Path) (loc' : Location) :
    fs'.LeadsTo q loc' ↔ fs.LeadsTo q loc' := by
  rw [FileSystem.leadsTo_iff, FileSystem.leadsTo_iff, h.locate]
  by_cases hloc : loc' = loc
  · rw [hloc, h.after]
    simp [h.before]
  · rw [h.others loc' hloc]

/-- A path that leads elsewhere finds what it found before. -/
theorem Replaced.resolve_of_not_leadsTo (h : fs.Replaced loc content fs')
    (hq : ¬ fs.LeadsTo q loc) : fs'.resolve q = fs.resolve q := by
  refine resolve_congr (h.locate q) (fun loc' hloc' => h.others loc' ?_)
  rintro rfl
  exact hq (FileSystem.leadsTo_iff.mpr ⟨hloc', h.before⟩)

/-! ## §4. Reading. -/

theorem read_eq_ok_iff :
    fs.read p = .ok content ↔ ∃ loc, fs.resolve p = .ok (loc, .file content) := by
  unfold read find
  constructor
  · intro h
    obtain ⟨e, he, h⟩ := exists_of_bind_eq_ok h
    obtain ⟨⟨loc, e'⟩, hresolve, rfl⟩ := exists_of_map_eq_ok he
    split at h
    next content' hfile =>
        cases h
        exact ⟨loc, by rw [hresolve, ← hfile]⟩
    next => cases h
  · rintro ⟨loc, hloc⟩
    rw [hloc]
    rfl

theorem read_congr (h : fs'.resolve p = fs.resolve p) : fs'.read p = fs.read p := by
  unfold read find
  rw [h]

theorem readText_congr (h : fs'.read p = fs.read p) : fs'.readText p = fs.readText p := by
  unfold readText
  rw [h]

theorem read_of_readText (h : fs.readText p = .ok content) : fs.read p = .ok content := by
  obtain ⟨content', hread, h⟩ := exists_of_bind_eq_ok h
  split at h
  next =>
      cases h
      exact hread
  next => cases h

end

/-- The paths do not lead to the same file. -/
def Apart (fs : FileSystem) (p q : Path) : Prop :=
  ∀ loc, fs.LeadsTo p loc → ¬ fs.LeadsTo q loc

instance (fs : FileSystem) : Std.Symm fs.Apart where
  symm _ _ h loc hq hp := h loc hp hq

/-- No two of the paths lead to the same file. -/
def Distinct (fs : FileSystem) (paths : List Path) : Prop :=
  paths.Pairwise fs.Apart

section

variable {fs fs' : FileSystem} {paths paths' : List Path}

theorem Replaced.distinct {loc : Location} {content : Text} (h : fs.Replaced loc content fs')
    (hpaths : fs.Distinct paths) : fs'.Distinct paths := by
  have hapart : fs'.Apart = fs.Apart := by
    funext p q
    unfold Apart
    simp only [h.leadsTo_iff]
  unfold Distinct
  rwa [hapart]

/-- Paths that lead to different locations are enough, and that can be looked up. -/
theorem distinct_of_locate
    (h : paths.Pairwise fun p q => (fs.locate p).toOption ≠ (fs.locate q).toOption) :
    fs.Distinct paths := by
  refine h.imp fun {p q} hne loc hp hq => hne ?_
  rw [(leadsTo_iff.mp hp).1, (leadsTo_iff.mp hq).1]

theorem Distinct.perm (h : fs.Distinct paths) (hperm : paths.Perm paths') : fs.Distinct paths' :=
  (hperm.pairwise_iff symm).mp h

/-- Paths of the list that lead to the same file are the same. -/
theorem Distinct.eq_of_leadsTo (h : fs.Distinct paths) {p q : Path} (hp : p ∈ paths)
    (hq : q ∈ paths) {loc : Location} (hploc : fs.LeadsTo p loc) (hqloc : fs.LeadsTo q loc) :
    p = q :=
  Classical.byContradiction fun hne => h.forall hp hq hne loc hploc hqloc

end

/-- The same entries stand at the same locations, and one of these is the current directory
in both. -/
structure SameEntries (fs fs' : FileSystem) : Prop where
  entry : ∀ loc, fs.entry? loc = fs'.entry? loc
  current : fs.current = fs'.current

namespace SameEntries

variable {fs fs' : FileSystem}

theorem symm (h : fs.SameEntries fs') : fs'.SameEntries fs :=
  ⟨fun loc => (h.entry loc).symm, h.current.symm⟩

theorem locate (h : fs.SameEntries fs') (p : Path) : fs.locate p = fs'.locate p := by
  refine locate_congr h.current (fun loc => ?_) p
  unfold requireDirectory
  rw [h.entry]

theorem resolve (h : fs.SameEntries fs') (p : Path) : fs.resolve p = fs'.resolve p :=
  resolve_congr (h.locate p) (fun loc _ => h.entry loc)

end SameEntries

end FileSystem

end StructuralEdit
