/-
  StructuralEdit.Proofs.Batch.Preview
  ───────────────────────────────────
  **A PREVIEW SHOWS WHAT WRITING WOULD DO.**

  A preview and a run that writes go over the same files, but the second one changes them
  on its way, and both keep what they have compiled.  Since every file is alone, both
  report of it what the rules propose for it on the files as they were at the start, the
  one as a change and the other as written (`asWritten_reportAlone`).  Hence the report of
  the one is that of the other (`preview_agrees`), and what is written is what the preview
  has shown.
-/
import StructuralEdit.Proofs.Batch.Alone

namespace StructuralEdit

/-! ## §1. Changes as they are reported once written. -/

/-- A change, once it has been written. -/
def Outcome.asWritten : Outcome → Outcome
  | .changed diff => .written diff
  | outcome => outcome

/-- The report of a preview, once its changes have been written. -/
def Report.asWritten (r : Report) : Report :=
  { files := r.files.map fun f => { f with outcome := f.outcome.asWritten } }

section

variable {parser : Parser} {rules : List Rule} {lang : Option Language} {fs : FileSystem}

theorem asWritten_reportAlone (p : Path) :
    (reportAlone parser rules { write := false, lang := lang } fs p).outcome.asWritten
      = (reportAlone parser rules { write := true, lang := lang } fs p).outcome := by
  unfold reportAlone
  dsimp only
  cases proposed parser rules lang fs p with
  | error e => rfl
  | ok proposal =>
      cases proposal with
      | none => rfl
      | some texts => rfl

/-- The changes of a preview are the proposals of the rules. -/
theorem mem_preview_iff {paths : List Path} {p : Path} {diff : Text} :
    ⟨p, .changed diff⟩ ∈ paths.map (reportAlone parser rules { write := false, lang := lang } fs)
      ↔ p ∈ paths ∧ ∃ old new, proposed parser rules lang fs p = .ok (some (old, new))
          ∧ diff = unifiedDiff p old new := by
  rw [List.mem_map]
  constructor
  · rintro ⟨q, hq, hreport⟩
    obtain rfl : q = p := congrArg FileReport.path hreport
    have houtcome := congrArg FileReport.outcome hreport
    obtain ⟨old, new, hproposed⟩ := exists_proposed_of_outcome houtcome (by simp) (by simp)
    rw [outcome_of_proposed hproposed, if_neg Bool.false_ne_true] at houtcome
    exact ⟨hq, old, new, hproposed, (Outcome.changed.inj houtcome).symm⟩
  · rintro ⟨hp, old, new, hproposed, rfl⟩
    refine ⟨p, hp, ?_⟩
    have houtcome := @outcome_of_proposed parser rules fs p old new
      { write := false, lang := lang } hproposed
    exact congrArg (FileReport.mk p) houtcome

end

/-! ## §2. Previews never fail to write. -/

namespace Batch

variable {σ : Type} {b : Batch σ} {w : Workshop σ} {path p : Path} {wording : String}

theorem commitRest_ne_write (d : Document) : commitRest d ≠ .error (.write p wording) := by
  intro h
  unfold commitRest at h
  split at h
  next => split at h <;> cases h
  next => cases h

theorem edit_ne_write : (b.edit w path).1 ≠ .error (.write p wording) := by
  intro h
  unfold edit at h
  split at h
  next => cases h
  next d _ =>
      dsimp only at h
      split at h
      next => cases h
      next =>
          cases hrest : commitRest (b.transform w.kept w.files d).1.document with
          | error e =>
              rw [hrest] at h
              cases h
              exact commitRest_ne_write _ hrest
          | ok d' =>
              rw [hrest] at h
              cases h

theorem refused_of_preview (hwrite : b.options.write = false) (w : Workshop σ) (path : Path) :
    Processed.refused ⟨path, (b.processFile w path).1⟩ = false := by
  cases hedit : (b.edit w path).1 with
  | error e =>
      rw [processFile_of_error hedit]
      cases e with
      | write => exact absurd hedit edit_ne_write
      | document => rfl
      | transform => rfl
  | ok edited =>
      obtain ⟨old, d⟩ := edited
      rw [processFile_of_ok hedit]
      have hend := b.conclude_cases (b.edit w path).2 path old d
      generalize b.conclude (b.edit w path).2 path old d = result at hend ⊢
      cases hend with
      | same => rfl
      | shown => rfl
      | written => rfl
      | refused hwrite' =>
          rw [hwrite] at hwrite'
          cases hwrite'

theorem writesThrough_of_preview (hwrite : b.options.write = false) (w : Workshop σ)
    (paths : List Path) : b.WritesThrough w paths := by
  unfold WritesThrough
  induction paths generalizing w with
  | nil => simp [processFiles]
  | cons path paths ih =>
      rw [processFiles_cons, List.forall_mem_cons]
      exact ⟨refused_of_preview hwrite w path, ih _⟩

end Batch

/-! ## §3. The two runs. -/

namespace Undisturbed

variable {writer : Writer} {parser : Parser} {rules : List Rule} {lang : Option Language}
  {w : Workshop Compiled} {paths : List Path}

/-- What is rewritten is what a preview reports as changed. -/
theorem entry_ne_iff
    (h : Undisturbed writer parser rules { write := true, lang := lang } w paths) (loc : Location) :
    let done := (Batch.ofRules writer parser rules { write := true, lang := lang }).run w paths
    FileSystem.entry? done.2.files loc ≠ w.files.entry? loc
      ↔ ∃ p diff, ⟨p, .changed diff⟩
            ∈ paths.map (reportAlone parser rules { write := false, lang := lang } w.files)
          ∧ w.files.LeadsTo p loc := by
  intro done
  constructor
  · intro hne
    obtain ⟨p, hp, hleads, new, -, old, hproposed⟩ := h.exists_rewrites_of_entry_ne hne
    exact ⟨p, unifiedDiff p old new, mem_preview_iff.mpr ⟨hp, old, new, hproposed, rfl⟩, hleads⟩
  · rintro ⟨p, diff, hmem, hleads⟩
    obtain ⟨hp, old, new, hproposed, -⟩ := mem_preview_iff.mp hmem
    obtain ⟨loc', hresolve⟩ := exists_resolve_of_proposed hproposed
    obtain rfl : loc = loc' := hleads.unique ⟨old, hresolve⟩
    obtain ⟨d, -, -, -, hnew⟩ := proposed_eq_some_iff.mp hproposed
    -- the file held `old`, and holds `new` now
    have hbefore := (FileSystem.resolve_eq_ok_iff.mp hresolve).2
    have hafter : FileSystem.entry? done.2.files loc = some (.file new) :=
      h.entry_of_rewrites hp ⟨rfl, old, hproposed⟩ hleads
    rw [hbefore, hafter]
    simpa using hnew

/-- A file that a preview reports as changed comes to hold the text that was compared. -/
theorem exists_document_of_mem_preview
    (h : Undisturbed writer parser rules { write := true, lang := lang } w paths) {p : Path}
    {diff : Text}
    (hmem : ⟨p, .changed diff⟩
      ∈ paths.map (reportAlone parser rules { write := false, lang := lang } w.files)) :
    let done := (Batch.ofRules writer parser rules { write := true, lang := lang }).run w paths
    ∃ loc old d, w.files.resolve p = .ok (loc, .file old)
      ∧ editAlone parser rules lang w.files p = .ok (old, d)
      ∧ diff = unifiedDiff p old d.text
      ∧ done.2.files.resolve p = .ok (loc, .file d.text) := by
  intro done
  obtain ⟨hp, old, new, hproposed, rfl⟩ := mem_preview_iff.mp hmem
  obtain ⟨loc, hresolve⟩ := exists_resolve_of_proposed hproposed
  obtain ⟨d, hedit, -, rfl, -⟩ := proposed_eq_some_iff.mp hproposed
  exact ⟨loc, old, d, hresolve, hedit, rfl,
    h.resolve_of_rewrites hp ⟨rfl, old, hproposed⟩ ⟨old, hresolve⟩⟩

end Undisturbed

/-- **A PREVIEW SHOWS WHAT WRITING WOULD DO.**  No two paths lead to the same file, and no
write fails.  Each of the runs starts with caches of its own: whatever they hold, it is
what its key compiles to.

  (1) The report of the run that writes is the one of the preview, with every change
      turned into the writing of the same difference; the preview leaves the files as
      they are.
  (2) What has been rewritten are the files that the preview has reported as changed, and
      no others.
  (3) Each of them holds the text that its difference leads to: that of the document which
      the preview, at whatever time its turn comes, makes of the file. -/
theorem preview_agrees (writer : Writer) (hwriter : writer.Whole) (parser : Parser)
    (rules : List Rule) (lang : Option Language) (fs : FileSystem) (paths : List Path)
    (hpaths : fs.Distinct paths) (kept kept' : Compiled) (hkept : kept.Sound parser)
    (hkept' : kept'.Sound parser)
    (hwrites : (Batch.ofRules writer parser rules { write := true, lang := lang }).WritesThrough
      ⟨fs, kept⟩ paths) :
    let looking := Batch.ofRules writer parser rules { write := false, lang := lang }
    let writing := Batch.ofRules writer parser rules { write := true, lang := lang }
    let preview := looking.run ⟨fs, kept'⟩ paths
    let done := writing.run ⟨fs, kept⟩ paths
    (done.1 = preview.1.asWritten ∧ preview.2.files = fs)
    ∧ (∀ loc, FileSystem.entry? done.2.files loc ≠ fs.entry? loc
        ↔ ∃ p diff, ⟨p, .changed diff⟩ ∈ preview.1.files ∧ fs.LeadsTo p loc)
    ∧ (∀ p diff, ⟨p, .changed diff⟩ ∈ preview.1.files →
        ∃ loc old d, fs.resolve p = .ok (loc, .file old)
          ∧ (∀ kept'' : Compiled, kept''.Sound parser →
              (looking.edit ⟨fs, kept''⟩ p).1 = .ok (old, d))
          ∧ diff = unifiedDiff p old d.text
          ∧ done.2.files.resolve p = .ok (loc, .file d.text)) := by
  intro looking writing preview done
  have hlooking : Undisturbed writer parser rules { write := false, lang := lang } ⟨fs, kept'⟩ paths :=
    ⟨hwriter, hkept', hpaths, Batch.writesThrough_of_preview rfl _ _⟩
  have hwriting : Undisturbed writer parser rules { write := true, lang := lang } ⟨fs, kept⟩ paths :=
    ⟨hwriter, hkept, hpaths, hwrites⟩
  have hpreview : preview.1.files
      = paths.map (reportAlone parser rules { write := false, lang := lang } fs) :=
    hlooking.report
  have hdone : done.1.files
      = paths.map (reportAlone parser rules { write := true, lang := lang } fs) :=
    hwriting.report
  refine ⟨⟨?_, ?_⟩, ?_, ?_⟩
  · show (⟨done.1.files⟩ : Report) = ⟨preview.1.files.map _⟩
    rw [hdone, hpreview, List.map_map]
    refine congrArg Report.mk (List.map_congr_left fun p _ => ?_)
    exact congrArg (FileReport.mk p) (asWritten_reportAlone p).symm
  · exact Batch.files_run_of_preview hwriter (ruleTransformKeeping_leavesFiles rules) rfl _ paths
  · intro loc
    rw [hpreview]
    exact hwriting.entry_ne_iff loc
  · intro p diff hmem
    rw [hpreview] at hmem
    obtain ⟨loc, old, d, hresolve, hedit, hdiff, hafter⟩ :=
      hwriting.exists_document_of_mem_preview hmem
    refine ⟨loc, old, d, hresolve, ?_, hdiff, hafter⟩
    -- whatever the caches hold when its turn comes
    intro kept'' hkept''
    rw [← hedit]
    exact (edit_ofRules hkept'' p).1

/-- The file of `a`, named from the root, is shown to become a `b`, and once written it is
one.  The run that writes finds the caches as the preview has left them; the first path
leads nowhere. -/
theorem preview_agrees_renamed :
    let paths : List Path := [⟨"gone.rs"⟩, ⟨"/w/a.rs"⟩, ⟨"../w/b.rs"⟩]
    let looking := Batch.ofRules FileSystem.writer nameParser [renameRule] { write := false }
    let preview := looking.run ⟨twoNames, {}⟩ paths
    let done := renameBatch.run ⟨twoNames, preview.2.kept⟩ paths
    done.1 = preview.1.asWritten
      ∧ ∃ p diff, ⟨p, .changed diff⟩ ∈ preview.1.files ∧ twoNames.LeadsTo p ["w", "a.rs"]
          ∧ done.2.files.resolve p = .ok (["w", "a.rs"], .file [98]) := by
  intro paths looking preview done
  have hempty := Compiled.sound_empty nameParser
  obtain ⟨⟨hreport, -⟩, hchanged, hwritten⟩ := preview_agrees FileSystem.writer
    FileSystem.writer_whole nameParser [renameRule] none twoNames paths
    (FileSystem.distinct_of_locate (by decide +kernel)) preview.2.kept {} (kept_run hempty paths)
    hempty (by decide +kernel)
  obtain ⟨p, diff, hmem, hleads⟩ := (hchanged ["w", "a.rs"]).mp (by decide +kernel)
  obtain ⟨loc, old, d, hresolve, -, -, hdone⟩ := hwritten p diff hmem
  obtain rfl : loc = ["w", "a.rs"] := FileSystem.LeadsTo.unique ⟨old, hresolve⟩ hleads
  have hentry : FileSystem.entry? done.2.files ["w", "a.rs"] = some (.file [98]) := by
    decide +kernel
  obtain ⟨hlocate, -⟩ := FileSystem.resolve_eq_ok_iff.mp hdone
  exact ⟨hreport, p, diff, hmem, hleads, FileSystem.resolve_eq_ok_iff.mpr ⟨hlocate, hentry⟩⟩

end StructuralEdit
