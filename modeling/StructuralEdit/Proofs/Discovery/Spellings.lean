/-
  StructuralEdit.Proofs.Discovery.Spellings
  ─────────────────────────────────────────
  **TWO SPELLINGS OF ONE FILE.**

  A path that is discovered keeps the spelling of its root, and paths are merged by their
  components.  A leading `.` is a component, so that `./src/a.rs` and `src/a.rs` are not
  merged although they lead to one file: a run over the roots `.` and `src` applies its
  rules to that file twice.

  But for `..`, and for absolute roots beside others, this is all that can go wrong.  A walk
  adds names to its root (`FileSystem.Walks.exists_names`), so that what is discovered starts
  with a `.` exactly if its root does, and paths that start alike and have the same
  components otherwise have been merged (`pairwise_startsHere_discover`).  So no file is
  listed twice if all the roots start alike, or if none is asked for in both ways.
-/
import Mathlib.Data.Fintype.Card
import StructuralEdit.Proofs.Batch.Isolation
import StructuralEdit.Proofs.Discovery.Exact

namespace StructuralEdit

namespace FileSystem

variable {fs : FileSystem} {filter : FileFilter} {lang : Option Language} {roots : List Path}
  {root p : Path}

/-! ## §1. How a discovered path starts. -/

/-- A walk goes down: it adds names to its root, and nothing else. -/
theorem Walks.exists_names (h : Walks fs root p) (hfs : fs.IsTree) :
    ∃ names : List String, p.components = root.components ++ names.map .name := by
  induction h with
  | start => exact ⟨[], by simp⟩
  | @enter p loc name e _ _ he _ ih =>
      obtain ⟨names, hnames⟩ := ih
      refine ⟨names ++ [name], ?_⟩
      rw [Path.components_join _ (hfs.of_entry?_append he).2, hnames]
      simp

/-- What is asked for starts as its root does, and has a `..` exactly if its root has. -/
theorem AskedFor.exists_root (h : fs.AskedFor roots filter lang p) (hfs : fs.IsTree) :
    ∃ root ∈ roots, p.startsHere = root.startsHere ∧ p.isAbsolute = root.isAbsolute
      ∧ (.up ∈ p.components ↔ .up ∈ root.components) := by
  cases h with
  | named hroot => exact ⟨p, hroot, rfl, rfl, Iff.rfl⟩
  | @below root hroot hwalks =>
      obtain ⟨names, hnames⟩ := hwalks.exists_names hfs
      refine ⟨root, hroot, ?_, ?_, ?_⟩
      · unfold Path.startsHere
        rw [hnames]
        cases root.components with
        | nil => cases names <;> rfl
        | cons c cs => rfl
      · rw [Bool.eq_iff_iff, Path.isAbsolute_iff, Path.isAbsolute_iff, hnames]
        simp
      · rw [hnames]
        simp

end FileSystem

/-! ## §2. How often a file is listed. -/

section

variable {fs : FileSystem} {filter : FileFilter} {lang : Option Language}
  {roots paths : List Path}

/-- Two paths of one list that differ by a `.` only differ in front. -/
theorem pairwise_startsHere_discover (h : discover fs roots filter lang = .ok paths) :
    paths.Pairwise fun p q => p.bare = q.bare → p.startsHere ≠ q.startsHere :=
  (pairwise_before_discover h).imp fun hbefore hbare hstart =>
    hbefore.components_ne (Path.components_eq_of_bare hbare hstart)

/-- There are two ways to start, so that a file is listed at most twice. -/
theorem count_bare_discover_le (h : discover fs roots filter lang = .ok paths)
    (cs : List Component) : (paths.map Path.bare).count cs ≤ 2 := by
  have hpairs : (paths.filter (·.bare == cs)).Pairwise fun p q => p.startsHere ≠ q.startsHere := by
    rw [List.pairwise_filter]
    refine (pairwise_startsHere_discover h).imp fun hne hp hq => hne ?_
    rw [beq_iff_eq.mp hp, beq_iff_eq.mp hq]
  have hnodup : ((paths.filter (·.bare == cs)).map Path.startsHere).Nodup :=
    List.pairwise_map.mpr hpairs
  calc (paths.map Path.bare).count cs
      = ((paths.filter (·.bare == cs)).map Path.startsHere).length := by
        rw [List.count, List.countP_map, List.length_map, ← List.countP_eq_length_filter]
        rfl
    _ ≤ 2 := hnodup.length_le_card

/-- A file is listed once unless it is asked for both with a leading `.` and without. -/
theorem nodup_map_bare_discover_iff (hfs : fs.IsTree)
    (h : discover fs roots filter lang = .ok paths) :
    (paths.map Path.bare).Nodup
      ↔ ∀ p q, fs.AskedFor roots filter lang p → fs.AskedFor roots filter lang q →
          p.bare = q.bare → p.startsHere = q.startsHere := by
  constructor
  · intro hnodup p q hp hq hbare
    -- both are listed, in some spelling, and as one
    obtain ⟨p', hp', hpcs⟩ :=
      List.mem_map.mp ((mem_map_components_discover hfs h p.components).mpr ⟨p, hp, rfl⟩)
    obtain ⟨q', hq', hqcs⟩ :=
      List.mem_map.mp ((mem_map_components_discover hfs h q.components).mpr ⟨q, hq, rfl⟩)
    have hbare' : p'.bare = q'.bare := by
      unfold Path.bare at hbare ⊢
      rw [hpcs, hqcs, hbare]
    have heq : p' = q' := List.inj_on_of_nodup_map hnodup hp' hq' hbare'
    unfold Path.startsHere
    rw [← hpcs, ← hqcs, heq]
  · intro halike
    rw [List.Nodup, List.pairwise_map]
    refine (pairwise_startsHere_discover h).imp_of_mem fun {p q} hp hq hne hbare => ?_
    exact hne hbare (halike p q (hfs.askedFor_of_mem_discover h hp)
      (hfs.askedFor_of_mem_discover h hq) hbare)

/-- Without `..`, it is the components other than `.` that tell which file is meant by paths
that start at the same place. -/
theorem apart_iff_bare_ne {p q : Path} (hp : fs.isFile p = true) (hq : fs.isFile q = true)
    (hpup : .up ∉ p.components) (hqup : .up ∉ q.components)
    (halike : p.isAbsolute = q.isAbsolute) : fs.Apart p q ↔ p.bare ≠ q.bare := by
  obtain ⟨locp, hlocp⟩ := FileSystem.isFile_iff.mp hp
  obtain ⟨locq, hlocq⟩ := FileSystem.isFile_iff.mp hq
  obtain ⟨namesp, hnamesp, hbarep⟩ :=
    FileSystem.bare_of_locate (FileSystem.leadsTo_iff.mp hlocp).1 hpup
  obtain ⟨namesq, hnamesq, hbareq⟩ :=
    FileSystem.bare_of_locate (FileSystem.leadsTo_iff.mp hlocq).1 hqup
  have hstart : fs.startOf p = fs.startOf q := by
    unfold FileSystem.startOf
    rw [halike]
  have hbare : p.bare = q.bare ↔ locp = locq := by
    rw [hbarep, hbareq, hnamesp, hnamesq, hstart, halike, List.append_right_inj,
        List.append_right_inj]
    exact (List.map_injective_iff.mpr fun _ _ => Component.name.inj).eq_iff
  rw [Ne, hbare]
  constructor
  · intro hapart heq
    exact hapart locp hlocp (heq ▸ hlocq)
  · intro hne loc hploc hqloc
    exact hne ((hlocp.unique hploc).trans (hlocq.unique hqloc).symm)

theorem distinct_discover_iff (hfs : fs.IsTree) (h : discover fs roots filter lang = .ok paths)
    (hup : ∀ r ∈ roots, .up ∉ r.components)
    (halike : ∀ r ∈ roots, ∀ s ∈ roots, r.isAbsolute = s.isAbsolute) :
    fs.Distinct paths ↔ (paths.map Path.bare).Nodup := by
  have hfile : ∀ p ∈ paths, fs.isFile p = true ∧ .up ∉ p.components
      ∧ ∃ r ∈ roots, p.isAbsolute = r.isAbsolute := by
    intro p hp
    have hasked := hfs.askedFor_of_mem_discover h hp
    obtain ⟨r, hr, -, habs, hiff⟩ := hasked.exists_root hfs
    refine ⟨?_, fun hmem => hup r hr (hiff.mp hmem), r, hr, habs⟩
    cases hasked <;> assumption
  rw [FileSystem.Distinct, List.Nodup, List.pairwise_map]
  refine List.Pairwise.iff_of_mem fun {p q} hp hq => ?_
  obtain ⟨hpfile, hpup, r, hr, hpabs⟩ := hfile p hp
  obtain ⟨hqfile, hqup, s, hs, hqabs⟩ := hfile q hq
  exact apart_iff_bare_ne hpfile hqfile hpup hqup (by rw [hpabs, hqabs, halike r hr s hs])

end

/-! ## §3. Repeats, and when there are none. -/

/-- **A FILE IS LISTED TWICE ONLY FOR A LEADING `.`.**  In every tree of files, whatever the
roots, the filter and the language, if no root fails to be walked then of the paths that
are discovered

1. no two have the same components;
2. two that become equal when every `.` is dropped differ in that one starts with a `.`
   and the other does not, so that at most two become equal;
3. no two become equal exactly if no file is asked for in both of these ways, and so
   whenever all the roots start with a `.`, or none does;
4. if no root has a `..`, and all of them are absolute or none is, to become equal is to
   lead to the same file;
5. if no two lead to the same file, then a run over the paths, with whatever transform,
   deals with each file at most once. -/
theorem discover_repeats_leading_dot (fs : FileSystem) (hfs : fs.IsTree) (roots : List Path)
    (filter : FileFilter) (lang : Option Language) (paths : List Path)
    (h : discover fs roots filter lang = .ok paths) :
    (paths.map Path.components).Nodup
    ∧ (paths.Pairwise (fun p q => p.bare = q.bare → p.startsHere ≠ q.startsHere)
      ∧ ∀ cs, (paths.map Path.bare).count cs ≤ 2)
    ∧ (((paths.map Path.bare).Nodup
        ↔ ∀ p q, fs.AskedFor roots filter lang p → fs.AskedFor roots filter lang q →
            p.bare = q.bare → p.startsHere = q.startsHere)
      ∧ ((∀ r ∈ roots, ∀ s ∈ roots, r.startsHere = s.startsHere) →
          (paths.map Path.bare).Nodup))
    ∧ ((∀ r ∈ roots, .up ∉ r.components) →
        (∀ r ∈ roots, ∀ s ∈ roots, r.isAbsolute = s.isAbsolute) →
        (fs.Distinct paths ↔ (paths.map Path.bare).Nodup))
    ∧ (fs.Distinct paths → ∀ (σ : Type) (b : Batch σ) (w : Workshop σ),
        (b.run w paths).1.files.Pairwise fun f g => fs.Apart f.path g.path) := by
  have hiff := nodup_map_bare_discover_iff hfs h
  refine ⟨Path.nodup_map_components (pairwise_before_discover h),
    ⟨pairwise_startsHere_discover h, count_bare_discover_le h⟩, ⟨hiff, fun halike => ?_⟩,
    distinct_discover_iff hfs h, fun hdistinct σ b w => ?_⟩
  · refine hiff.mpr fun p q hp hq _ => ?_
    obtain ⟨r, hr, hpr, -⟩ := hp.exists_root hfs
    obtain ⟨s, hs, hqs, -⟩ := hq.exists_root hfs
    rw [hpr, hqs, halike r hr s hs]
  · have hpaths : ((b.run w paths).1.files.map FileReport.path).Pairwise fs.Apart := by
      rw [Batch.map_path_run]
      exact hdistinct
    exact List.pairwise_map.mp hpaths

/-- Both roots start with a `.` and overlap; each file is listed once. -/
theorem discover_repeats_leading_dot_none :
    let roots : List Path := [⟨"."⟩, ⟨"./src/"⟩]
    let paths : List Path := [⟨"./src/a.rs"⟩, ⟨"./src/old.rs"⟩, ⟨"./src/sub/d.rs"⟩]
    sources.IsTree ∧ discover sources roots {} none = .ok paths
      ∧ (paths.map Path.bare).Nodup ∧ sources.Distinct paths := by
  intro roots paths
  have hfs : sources.IsTree := by decide +kernel
  have h : discover sources roots {} none = .ok paths := by decide +kernel
  obtain ⟨-, -, ⟨-, halike⟩, hleads, -⟩ :=
    discover_repeats_leading_dot sources hfs roots {} none paths h
  have hnodup := halike (by decide +kernel)
  exact ⟨hfs, h, hnodup, (hleads (by decide +kernel) (by decide +kernel)).mpr hnodup⟩

/-- The name `a` in a file in a directory. -/
def oneSource : FileSystem :=
  { entries := [(["src"], .directory), (["src", "a.rs"], .file [97])] }

/-- The batch that puts a `b` behind every name. -/
def appendBatch : Batch Compiled :=
  .ofRules FileSystem.writer nameParser
    [{ id := "append", query := .pattern "$A", operation := .append "b" }]
    { write := true }

/-- The roots `.` and `src` overlap.  Their one file is listed in both spellings, which are
the same but for a `.`, and a run puts a `b` behind its name twice. -/
theorem discovery_lists_file_twice :
    let paths : List Path := [⟨"./src/a.rs"⟩, ⟨"src/a.rs"⟩]
    oneSource.IsTree ∧ discover oneSource [⟨"."⟩, ⟨"src"⟩] {} none = .ok paths
      ∧ ¬ (paths.map Path.bare).Nodup
      ∧ paths.map oneSource.locate = [.ok ["src", "a.rs"], .ok ["src", "a.rs"]]
      ∧ FileSystem.entry? (appendBatch.run ⟨oneSource, {}⟩ [⟨"src/a.rs"⟩]).2.files ["src", "a.rs"]
        = some (.file (Text.ofString "ab"))
      ∧ FileSystem.entry? (appendBatch.run ⟨oneSource, {}⟩ paths).2.files ["src", "a.rs"]
        = some (.file (Text.ofString "abb")) := by
  decide +kernel

end StructuralEdit
