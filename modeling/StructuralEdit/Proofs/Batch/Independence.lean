/-
  StructuralEdit.Proofs.Batch.Independence
  ────────────────────────────────────────
  **FILES OF A BATCH DO NOT INFLUENCE EACH OTHER.**

  Two runs of the same rules may differ in everything but one file: in the other paths and
  their order, in the other files, in what the caches hold.  What is reported of that file
  and what it holds in the end is the same (`files_independent`), since both are told by
  its content alone (`reportAlone_congr`, `contentAlone_congr`).

  If the paths are the same up to their order and the files are the same, then so are the
  files after the runs (`sameEntries_run`): every entry is either that of a file for which
  the rules propose a text, in both runs, or as it was, in both runs.
-/
import StructuralEdit.Proofs.Batch.Alone

namespace StructuralEdit

section

variable {parser : Parser} {rules : List Rule} {options : BatchOptions} {fs : FileSystem}
  {p : Path}

/-- One outcome is reported of a path, however often it is listed. -/
theorem mem_map_reportAlone_iff {paths : List Path} (hp : p ∈ paths) {outcome : Outcome} :
    ⟨p, outcome⟩ ∈ paths.map (reportAlone parser rules options fs)
      ↔ outcome = (reportAlone parser rules options fs p).outcome := by
  rw [List.mem_map]
  constructor
  · rintro ⟨q, -, hreport⟩
    obtain rfl : q = p := congrArg FileReport.path hreport
    rw [hreport]
  · rintro rfl
    exact ⟨p, hp, rfl⟩

end

section

variable {writer : Writer} {parser : Parser} {rules : List Rule} {options : BatchOptions}
  {w₁ w₂ : Workshop Compiled} {paths₁ paths₂ : List Path}

/-- What a run makes of an entry, another run makes of it too, if it goes over the same
paths in some order and starts from the same files. -/
theorem entry_run_of_perm (h₁ : Undisturbed writer parser rules options w₁ paths₁)
    (h₂ : Undisturbed writer parser rules options w₂ paths₂) (hperm : paths₁.Perm paths₂)
    (hsame : w₁.files.SameEntries w₂.files) {loc : Location}
    (hloc : FileSystem.entry? ((Batch.ofRules writer parser rules options).run w₁ paths₁).2.files loc
      ≠ w₁.files.entry? loc) :
    FileSystem.entry? ((Batch.ofRules writer parser rules options).run w₁ paths₁).2.files loc
      = FileSystem.entry? ((Batch.ofRules writer parser rules options).run w₂ paths₂).2.files loc := by
  obtain ⟨p, hp, hleads, new, hnew⟩ := h₁.exists_rewrites_of_entry_ne hloc
  have hresolve := hsame.resolve p
  have hnew₂ : Rewrites parser rules options w₂.files p new :=
    (rewrites_congr (FileSystem.read_congr hresolve)).mp hnew
  have hleads₂ : w₂.files.LeadsTo p loc := by
    obtain ⟨content, hcontent⟩ := hleads
    exact ⟨content, hresolve ▸ hcontent⟩
  calc FileSystem.entry? ((Batch.ofRules writer parser rules options).run w₁ paths₁).2.files loc
      = some (.file new) := h₁.entry_of_rewrites hp hnew hleads
    _ = FileSystem.entry? ((Batch.ofRules writer parser rules options).run w₂ paths₂).2.files loc :=
        (h₂.entry_of_rewrites (hperm.mem_iff.mp hp) hnew₂ hleads₂).symm

/-- The order of the paths does not matter to the files after a run. -/
theorem sameEntries_run (h₁ : Undisturbed writer parser rules options w₁ paths₁)
    (h₂ : Undisturbed writer parser rules options w₂ paths₂) (hperm : paths₁.Perm paths₂)
    (hsame : w₁.files.SameEntries w₂.files) :
    FileSystem.SameEntries ((Batch.ofRules writer parser rules options).run w₁ paths₁).2.files
      ((Batch.ofRules writer parser rules options).run w₂ paths₂).2.files := by
  let b := Batch.ofRules writer parser rules options
  have hleaves : b.transform.LeavesFiles := ruleTransformKeeping_leavesFiles rules
  refine ⟨fun loc => ?_, ?_⟩
  · by_cases hloc₁ : FileSystem.entry? (b.run w₁ paths₁).2.files loc = w₁.files.entry? loc
    · by_cases hloc₂ : FileSystem.entry? (b.run w₂ paths₂).2.files loc = w₂.files.entry? loc
      · exact hloc₁.trans ((hsame.entry loc).trans hloc₂.symm)
      · exact (entry_run_of_perm h₂ h₁ hperm.symm hsame.symm hloc₂).symm
    · exact entry_run_of_perm h₁ h₂ hperm hsame hloc₁
  · calc (b.run w₁ paths₁).2.files.current
        = w₁.files.current := Batch.current_run h₁.whole hleaves w₁ paths₁
      _ = w₂.files.current := hsame.current
      _ = (b.run w₂ paths₂).2.files.current := (Batch.current_run h₂.whole hleaves w₂ paths₂).symm

end

/-- **FILES OF A BATCH DO NOT INFLUENCE EACH OTHER.**  Two runs of the same rules with the
same options, on files of their own, over paths of their own of which no two lead to the
same file, and with caches of their own: whatever they hold, it is what its key compiles
to.  No write fails.

  (1) A path of both whose file has the same content in both, or cannot be read for the
      same reason, is reported with one and the same outcome in both, and its file holds
      the same in the end.
  (2) If the paths are the same up to their order and so are the files, then one and the
      same entry for each path makes up both reports, in the order of the paths of each;
      and the files are the same in the end. -/
theorem files_independent (writer : Writer) (hwriter : writer.Whole) (parser : Parser)
    (rules : List Rule) (options : BatchOptions) (w₁ w₂ : Workshop Compiled)
    (hw₁ : w₁.kept.Sound parser) (hw₂ : w₂.kept.Sound parser) (paths₁ paths₂ : List Path)
    (hpaths₁ : w₁.files.Distinct paths₁) (hpaths₂ : w₂.files.Distinct paths₂)
    (hwrites₁ : (Batch.ofRules writer parser rules options).WritesThrough w₁ paths₁)
    (hwrites₂ : (Batch.ofRules writer parser rules options).WritesThrough w₂ paths₂) :
    let done₁ := (Batch.ofRules writer parser rules options).run w₁ paths₁
    let done₂ := (Batch.ofRules writer parser rules options).run w₂ paths₂
    (∀ p ∈ paths₁, p ∈ paths₂ → w₁.files.read p = w₂.files.read p →
        (∃ outcome, (∀ o, ⟨p, o⟩ ∈ done₁.1.files ↔ o = outcome)
          ∧ ∀ o, ⟨p, o⟩ ∈ done₂.1.files ↔ o = outcome)
        ∧ done₁.2.files.read p = done₂.2.files.read p)
    ∧ (paths₁.Perm paths₂ → w₁.files.SameEntries w₂.files →
        (∃ report : Path → FileReport, done₁.1.files = paths₁.map report
          ∧ done₂.1.files = paths₂.map report)
        ∧ done₁.2.files.SameEntries done₂.2.files) := by
  intro done₁ done₂
  have h₁ : Undisturbed writer parser rules options w₁ paths₁ := ⟨hwriter, hw₁, hpaths₁, hwrites₁⟩
  have h₂ : Undisturbed writer parser rules options w₂ paths₂ := ⟨hwriter, hw₂, hpaths₂, hwrites₂⟩
  have hreport₁ : done₁.1.files = paths₁.map (reportAlone parser rules options w₁.files) :=
    h₁.report
  have hreport₂ : done₂.1.files = paths₂.map (reportAlone parser rules options w₂.files) :=
    h₂.report
  constructor
  · intro p hp₁ hp₂ hread
    refine ⟨⟨(reportAlone parser rules options w₁.files p).outcome, ?_, ?_⟩, ?_⟩
    · intro o
      rw [hreport₁]
      exact mem_map_reportAlone_iff hp₁
    · intro o
      rw [hreport₂, reportAlone_congr hread]
      exact mem_map_reportAlone_iff hp₂
    · calc done₁.2.files.read p = contentAlone parser rules options w₁.files p := h₁.read hp₁
        _ = contentAlone parser rules options w₂.files p := contentAlone_congr hread
        _ = done₂.2.files.read p := (h₂.read hp₂).symm
  · intro hperm hsame
    refine ⟨⟨reportAlone parser rules options w₁.files, hreport₁, ?_⟩, ?_⟩
    · rw [hreport₂]
      refine List.map_congr_left fun p _ => (reportAlone_congr ?_).symm
      exact FileSystem.read_congr (hsame.resolve p)
    · exact sameEntries_run h₁ h₂ hperm hsame

/-- The file of `a`, named from the root, becomes a `b` in both runs, whether it comes after
a path that leads nowhere or before one whose file is left as it is, and whether its query
is kept already. -/
theorem files_independent_reversed :
    let paths : List Path := [⟨"gone.rs"⟩, ⟨"/w/a.rs"⟩, ⟨"../w/b.rs"⟩]
    let done₁ := renameBatch.run ⟨twoNames, {}⟩ paths
    let done₂ := renameBatch.run
      ⟨twoNames, (({} : Compiled).pattern nameParser .rust "a").2⟩ paths.reverse
    (∃ outcome, ⟨⟨"/w/a.rs"⟩, outcome⟩ ∈ done₁.1.files ∧ ⟨⟨"/w/a.rs"⟩, outcome⟩ ∈ done₂.1.files)
      ∧ done₁.2.files.SameEntries done₂.2.files
      ∧ FileSystem.entry? done₁.2.files ["w", "a.rs"] = some (.file [98]) := by
  intro paths done₁ done₂
  have hempty := Compiled.sound_empty nameParser
  have hpaths : twoNames.Distinct paths := FileSystem.distinct_of_locate (by decide +kernel)
  have hperm : paths.Perm paths.reverse := paths.reverse_perm.symm
  obtain ⟨hfile, hall⟩ := files_independent FileSystem.writer FileSystem.writer_whole nameParser
    [renameRule] { write := true } ⟨twoNames, {}⟩ ⟨twoNames, _⟩ hempty (hempty.pattern .rust "a").2
    paths paths.reverse hpaths (hpaths.perm hperm) (by decide +kernel) (by decide +kernel)
  obtain ⟨⟨outcome, h₁, h₂⟩, -⟩ := hfile ⟨"/w/a.rs"⟩ (by decide) (by decide) rfl
  obtain ⟨-, hsame⟩ := hall hperm ⟨fun _ => rfl, rfl⟩
  exact ⟨⟨outcome, (h₁ outcome).mpr rfl, (h₂ outcome).mpr rfl⟩, hsame, by decide +kernel⟩

end StructuralEdit
