/-
  StructuralEdit.Proofs.Batch.Isolation
  ─────────────────────────────────────
  **WHAT A BATCH DOES TO THE FILES.**

  A file passes through many hands: it is read, parsed, transformed, committed, compared
  and written, and any of them may fail.  But only the last one touches the files, so what
  a file may do to them is said by its outcome alone (`Batch.Effect`):

      unchanged, changed, failed    nothing
      written                       the file that the path leads to, and no other,
                                    has got another text

  One file has such an effect (`effect_processFile`), whatever it finds there; and since
  replacing a file moves no path, the effects of a whole run can be told by where the
  paths led at its start (`exists_written_of_entry_ne`).  The main statement is `Batch.isolated`.
-/
import StructuralEdit.Batch
import StructuralEdit.Proofs.FileSystem.Replacing
import StructuralEdit.Proofs.Rule.Atomic

namespace StructuralEdit

/-! ## §1. Opening a file. -/

namespace Document

variable {parser : Parser} {fs : FileSystem} {path : Path} {lang : Option Language} {d : Document}

theorem exists_of_openAs {lang : Language} (h : openAs parser fs path lang = .ok d) :
    ∃ text tree, fs.readText path = .ok text
      ∧ d = { parser := parser, lang := lang, text := text, tree := tree, path := some path } := by
  obtain ⟨text, htext, h⟩ := exists_of_bind_eq_ok h
  obtain ⟨d', hparse, h⟩ := exists_of_bind_eq_ok h
  cases h
  obtain ⟨tree, -, rfl⟩ := parse_eq_ok_iff.mp hparse
  cases hread : fs.readText path with
  | error e =>
      rw [hread] at htext
      cases htext
  | ok content =>
      rw [hread] at htext
      cases htext
      exact ⟨text, tree, rfl, rfl⟩

/-- A document has the text that its file holds, and nobody has touched it yet. -/
theorem exists_of_openFile (h : openFile parser fs path lang = .ok d) :
    ∃ lang text tree, fs.readText path = .ok text
      ∧ d = { parser := parser, lang := lang, text := text, tree := tree, path := some path } := by
  unfold openFile at h
  split at h
  next lang => exact ⟨lang, exists_of_openAs h⟩
  next =>
      unfold openDetected at h
      split at h
      next lang _ => exact ⟨lang, exists_of_openAs h⟩
      next => cases h

end Document

/-! ## §2. One file. -/

/-- The transform does not touch the files. -/
def KeepingTransform.LeavesFiles {σ : Type} (transform : KeepingTransform σ) : Prop :=
  ∀ kept fs d, (transform kept fs d).1.files = fs

namespace Batch

variable {σ : Type} {b : Batch σ} {w : Workshop σ} {path : Path} {before : Text} {d : Document}

theorem files_edit (hfiles : b.transform.LeavesFiles) (w : Workshop σ) (path : Path) :
    (b.edit w path).2.files = w.files := by
  unfold edit
  split
  next => rfl
  next d _ =>
      have hleft := hfiles w.kept w.files d
      dsimp only
      split <;> exact hleft

theorem read_of_edit (h : (b.edit w path).1 = .ok (before, d)) :
    w.files.read path = .ok before := by
  unfold edit at h
  split at h
  next => cases h
  next d₀ hopen =>
      dsimp only at h
      split at h
      next => cases h
      next =>
          obtain ⟨d', -, heq⟩ := exists_of_map_eq_ok h
          obtain ⟨rfl, -⟩ := Prod.mk.inj heq
          obtain ⟨lang, text, tree, hread, rfl⟩ := Document.exists_of_openFile hopen
          exact FileSystem.read_of_readText hread

/-- How a file whose text was `before` may be concluded, `d` having come of it. -/
inductive Conclusion (b : Batch σ) (w : Workshop σ) (path : Path) (before : Text) (d : Document) :
    Except BatchError Outcome × Workshop σ → Prop where
  | same (h : d.touched = false ∨ d.text = before) : Conclusion b w path before d (.ok .unchanged, w)
  | shown (hwrite : b.options.write = false) (htouched : d.touched = true)
      (hnew : d.text ≠ before) :
      Conclusion b w path before d (.ok (.changed (unifiedDiff path before d.text)), w)
  | written (hwrite : b.options.write = true) (htouched : d.touched = true)
      (hnew : d.text ≠ before) {fs : FileSystem} (h : b.writer w.files path d.text = .ok fs) :
      Conclusion b w path before d
        (.ok (.written (unifiedDiff path before d.text)), { w with files := fs })
  | refused (hwrite : b.options.write = true) (htouched : d.touched = true)
      (hnew : d.text ≠ before) {wording : String} (h : b.writer w.files path d.text = .error wording) :
      Conclusion b w path before d (.error (.write path wording), w)

/-- **A file is concluded in one of four ways.** -/
theorem conclude_cases (b : Batch σ) (w : Workshop σ) (path : Path) (before : Text) (d : Document) :
    Conclusion b w path before d (b.conclude w path before d) := by
  unfold conclude
  split
  next hsame => exact .same (by simpa using hsame)
  next hdiffers =>
      obtain ⟨htouched, hnew⟩ : d.touched = true ∧ d.text ≠ before := by
        simpa using hdiffers
      dsimp only
      split
      next hwrite =>
          split
          next fs h => exact .written hwrite htouched hnew h
          next wording h => exact .refused hwrite htouched hnew h
      next hwrite => exact .shown (by simpa using hwrite) htouched hnew

theorem processFile_of_error {e : BatchError} (h : (b.edit w path).1 = .error e) :
    b.processFile w path = (.error e, (b.edit w path).2) := by
  unfold processFile
  generalize b.edit w path = answer at h ⊢
  obtain ⟨outcome, w'⟩ := answer
  obtain rfl : outcome = .error e := h
  rfl

theorem processFile_of_ok (h : (b.edit w path).1 = .ok (before, d)) :
    b.processFile w path = b.conclude (b.edit w path).2 path before d := by
  unfold processFile
  generalize b.edit w path = answer at h ⊢
  obtain ⟨outcome, w'⟩ := answer
  obtain rfl : outcome = .ok (before, d) := h
  rfl

/-- What processing the file at a path may do to the files, by what is reported of it.
Only a file that is reported as written has been: it held a text, and now it holds
another one, that of the document which has come of it. -/
inductive Effect (b : Batch σ) (w : Workshop σ) (path : Path) : Outcome → FileSystem → Prop where
  | untouched {outcome : Outcome} (h : ∀ diff, outcome ≠ .written diff) :
      Effect b w path outcome w.files
  | written {loc : Location} {old : Text} {d : Document} {fs : FileSystem}
      (hwrite : b.options.write = true)
      (hread : w.files.resolve path = .ok (loc, .file old))
      (hedit : (b.edit w path).1 = .ok (old, d))
      (hnew : d.text ≠ old)
      (hreplaced : w.files.Replaced loc d.text fs) :
      Effect b w path (.written (unifiedDiff path old d.text)) fs

/-- **The step lemma.** -/
theorem effect_processFile (hwriter : b.writer.Whole) (hfiles : b.transform.LeavesFiles)
    (w : Workshop σ) (path : Path) :
    b.Effect w path (Processed.outcome ⟨path, (b.processFile w path).1⟩)
      (b.processFile w path).2.files := by
  have hleft := files_edit hfiles w path
  cases hedit : (b.edit w path).1 with
  | error e =>
      rw [processFile_of_error hedit]
      show b.Effect w path _ (b.edit w path).2.files
      rw [hleft]
      exact .untouched (by intro diff h; cases h)
  | ok edited =>
      obtain ⟨old, d⟩ := edited
      rw [processFile_of_ok hedit]
      have hend := b.conclude_cases (b.edit w path).2 path old d
      generalize b.conclude (b.edit w path).2 path old d = result at hend
      cases hend with
      | same =>
          show b.Effect w path .unchanged (b.edit w path).2.files
          rw [hleft]
          exact .untouched (by intro diff h; cases h)
      | shown =>
          show b.Effect w path (.changed _) (b.edit w path).2.files
          rw [hleft]
          exact .untouched (by intro diff h; cases h)
      | refused =>
          show b.Effect w path (.failed _) (b.edit w path).2.files
          rw [hleft]
          exact .untouched (by intro diff h; cases h)
      | @written hwrite _ hnew fs h =>
          show b.Effect w path (.written _) fs
          rw [hleft] at h
          -- what has been read is what the path leads to, so that is what is replaced
          obtain ⟨loc, hresolve⟩ := FileSystem.read_eq_ok_iff.mp (read_of_edit hedit)
          obtain ⟨hlocate, hentry⟩ := FileSystem.resolve_eq_ok_iff.mp hresolve
          obtain ⟨loc', hlocate', hplaced⟩ := hwriter h
          obtain rfl : loc' = loc := Except.ok.inj (hlocate'.symm.trans hlocate)
          exact .written hwrite hresolve hedit hnew ⟨hplaced, old, hentry⟩

section

variable {outcome : Outcome} {fs : FileSystem}

/-- An entry that is not what it was is that of a written file. -/
theorem Effect.written_of_entry_ne (h : b.Effect w path outcome fs) {loc : Location}
    (hloc : fs.entry? loc ≠ w.files.entry? loc) :
    w.files.LeadsTo path loc ∧ ∃ diff, outcome = .written diff := by
  cases h with
  | untouched => exact absurd rfl hloc
  | @written loc' old d fs hwrite hread hedit hnew hreplaced =>
      have heq : loc = loc' := Decidable.byContradiction fun hne => hloc (hreplaced.others loc hne)
      rw [heq]
      exact ⟨⟨old, hread⟩, _, rfl⟩

theorem Effect.leadsTo_iff (h : b.Effect w path outcome fs) (q : Path) (loc : Location) :
    fs.LeadsTo q loc ↔ w.files.LeadsTo q loc := by
  cases h with
  | untouched => rfl
  | written hwrite hread hedit hnew hreplaced => exact hreplaced.leadsTo_iff q loc

theorem Effect.locate (h : b.Effect w path outcome fs) (q : Path) :
    fs.locate q = w.files.locate q := by
  cases h with
  | untouched => rfl
  | written hwrite hread hedit hnew hreplaced => exact hreplaced.locate q

theorem Effect.current (h : b.Effect w path outcome fs) : fs.current = w.files.current := by
  cases h with
  | untouched => rfl
  | written hwrite hread hedit hnew hreplaced => exact hreplaced.current

theorem Effect.files_of_preview (h : b.Effect w path outcome fs) (hwrite : b.options.write = false) :
    fs = w.files := by
  cases h with
  | untouched => rfl
  | written hwrite' =>
      rw [hwrite] at hwrite'
      cases hwrite'

theorem Effect.not_written_of_preview (h : b.Effect w path outcome fs)
    (hwrite : b.options.write = false) (diff : Text) : outcome ≠ .written diff := by
  cases h with
  | untouched hnot => exact hnot diff
  | written hwrite' =>
      rw [hwrite] at hwrite'
      cases hwrite'

end

/-! ## §3. Many files. -/

theorem processFiles_cons (b : Batch σ) (w : Workshop σ) (path : Path) (paths : List Path) :
    b.processFiles w (path :: paths)
      = (⟨path, (b.processFile w path).1⟩ :: (b.processFiles (b.processFile w path).2 paths).1,
          (b.processFiles (b.processFile w path).2 paths).2) := rfl

theorem processFiles_append (b : Batch σ) (w : Workshop σ) (paths more : List Path) :
    b.processFiles w (paths ++ more)
      = ((b.processFiles w paths).1 ++ (b.processFiles (b.processFiles w paths).2 more).1,
          (b.processFiles (b.processFiles w paths).2 more).2) := by
  induction paths generalizing w with
  | nil => rfl
  | cons path paths ih =>
      rw [List.cons_append, processFiles_cons, processFiles_cons, ih]
      rfl

theorem map_path_processFiles (b : Batch σ) (w : Workshop σ) (paths : List Path) :
    (b.processFiles w paths).1.map Processed.path = paths := by
  induction paths generalizing w with
  | nil => rfl
  | cons path paths ih =>
      rw [processFiles_cons, List.map_cons, ih]

/-- **One entry for each path**, in order. -/
theorem map_path_run (b : Batch σ) (w : Workshop σ) (paths : List Path) :
    (b.run w paths).1.files.map FileReport.path = paths := by
  show ((b.processFiles w paths).1.map Processed.report).map FileReport.path = paths
  rw [List.map_map]
  exact b.map_path_processFiles w paths

/-- **First these files, then those.** -/
theorem run_append (b : Batch σ) (w : Workshop σ) (paths more : List Path) :
    (b.run w (paths ++ more)).1.files
        = (b.run w paths).1.files ++ (b.run (b.run w paths).2 more).1.files
      ∧ (b.run w (paths ++ more)).2 = (b.run (b.run w paths).2 more).2 := by
  unfold run
  rw [processFiles_append]
  exact ⟨List.map_append, rfl⟩

theorem run_cons (b : Batch σ) (w : Workshop σ) (path : Path) (paths : List Path) :
    (b.run w (path :: paths)).1.files
        = Processed.report ⟨path, (b.processFile w path).1⟩
            :: (b.run (b.processFile w path).2 paths).1.files
      ∧ (b.run w (path :: paths)).2 = (b.run (b.processFile w path).2 paths).2 :=
  ⟨rfl, rfl⟩

/-- An entry that is not what it was is that of a file that has been written, wherever in
the run that was. -/
theorem exists_written_of_entry_ne (hwriter : b.writer.Whole) (hfiles : b.transform.LeavesFiles)
    (w : Workshop σ) {paths : List Path} {loc : Location}
    (hloc : FileSystem.entry? (b.run w paths).2.files loc ≠ w.files.entry? loc) :
    ∃ f ∈ (b.run w paths).1.files, w.files.LeadsTo f.path loc ∧ ∃ diff, f.outcome = .written diff := by
  induction paths generalizing w with
  | nil => exact absurd rfl hloc
  | cons path paths ih =>
      have hstep := effect_processFile hwriter hfiles w path
      obtain ⟨hreport, hworkshop⟩ := b.run_cons w path paths
      rw [hworkshop] at hloc
      rw [hreport]
      by_cases hfirst : FileSystem.entry? (b.processFile w path).2.files loc = w.files.entry? loc
      · rw [← hfirst] at hloc
        obtain ⟨f, hf, hleads, hwritten⟩ := ih (b.processFile w path).2 hloc
        -- paths led before the first file where they lead after it
        exact ⟨f, List.mem_cons_of_mem _ hf, (hstep.leadsTo_iff _ _).mp hleads, hwritten⟩
      · obtain ⟨hleads, hwritten⟩ := hstep.written_of_entry_ne hfirst
        exact ⟨_, List.mem_cons_self, hleads, hwritten⟩

/-- What no path of the run leads to stays as it is. -/
theorem entry_run_of_not_leadsTo (hwriter : b.writer.Whole) (hfiles : b.transform.LeavesFiles)
    (w : Workshop σ) {paths : List Path} {loc : Location}
    (h : ∀ p ∈ paths, ¬ w.files.LeadsTo p loc) :
    FileSystem.entry? (b.run w paths).2.files loc = w.files.entry? loc := by
  refine Decidable.byContradiction fun hloc => ?_
  obtain ⟨f, hf, hleads, -⟩ := exists_written_of_entry_ne hwriter hfiles w hloc
  have hmem : f.path ∈ (b.run w paths).1.files.map FileReport.path := List.mem_map_of_mem hf
  rw [b.map_path_run] at hmem
  exact h f.path hmem hleads

/-- **The run lemma**: a run keeps whatever an effect keeps. -/
theorem run_keeps (hwriter : b.writer.Whole) (hfiles : b.transform.LeavesFiles) {α : Type}
    (f : FileSystem → α)
    (hkeeps : ∀ w path outcome fs, b.Effect w path outcome fs → f fs = f w.files)
    (w : Workshop σ) (paths : List Path) : f (b.run w paths).2.files = f w.files := by
  induction paths generalizing w with
  | nil => rfl
  | cons path paths ih =>
      have hstep := effect_processFile hwriter hfiles w path
      exact (ih (b.processFile w path).2).trans (hkeeps w path _ _ hstep)

/-- Paths lead where they led before the run. -/
theorem locate_run (hwriter : b.writer.Whole) (hfiles : b.transform.LeavesFiles) (w : Workshop σ)
    (paths : List Path) (q : Path) : (b.run w paths).2.files.locate q = w.files.locate q :=
  run_keeps hwriter hfiles (·.locate q) (fun _ _ _ _ h => h.locate q) w paths

theorem current_run (hwriter : b.writer.Whole) (hfiles : b.transform.LeavesFiles) (w : Workshop σ)
    (paths : List Path) : (b.run w paths).2.files.current = w.files.current :=
  run_keeps hwriter hfiles (·.current) (fun _ _ _ _ h => h.current) w paths

/-- Without writing, the files stay as they are. -/
theorem files_run_of_preview (hwriter : b.writer.Whole) (hfiles : b.transform.LeavesFiles)
    (hwrite : b.options.write = false) (w : Workshop σ) (paths : List Path) :
    (b.run w paths).2.files = w.files :=
  run_keeps hwriter hfiles id (fun _ _ _ _ h => h.files_of_preview hwrite) w paths

theorem not_written_of_preview (hwriter : b.writer.Whole) (hfiles : b.transform.LeavesFiles)
    (hwrite : b.options.write = false) (w : Workshop σ) (paths : List Path) :
    ∀ f ∈ (b.run w paths).1.files, ∀ diff, f.outcome ≠ .written diff := by
  induction paths generalizing w with
  | nil => simp [run, processFiles]
  | cons path paths ih =>
      have hstep := effect_processFile hwriter hfiles w path
      rw [(b.run_cons w path paths).1, List.forall_mem_cons]
      exact ⟨fun diff => hstep.not_written_of_preview hwrite diff, ih _⟩

/-- **FILES OF A BATCH ARE DEALT WITH ONE BY ONE.**  The writer replaces a file as a whole
or fails, and the transform does not touch the files.

  (1) There is one entry for each path, in their order.
  (2) Whatever has become of the files before it, the file at a path is processed and then
      the ones after it are; and this changes no file but the one that the path leads to,
      and that one only if it is reported as written.  Then it held a text, which is what
      was read, and holds another one now, which is that of the document after its last
      commit.
  (3) All in all, whatever is not as it was is a file that a path reported as written leads
      to.
  (4) Without `write` all files are as they were, and none is reported as written. -/
theorem isolated (b : Batch σ) (hwriter : b.writer.Whole) (hfiles : b.transform.LeavesFiles)
    (w : Workshop σ) (paths : List Path) :
    (b.run w paths).1.files.map FileReport.path = paths
    ∧ (∀ before path after, paths = before ++ path :: after →
        ∃ outcome, b.Effect (b.run w before).2 path outcome (b.run w (before ++ [path])).2.files
          ∧ (b.run w paths).1.files
              = (b.run w before).1.files
                ++ ⟨path, outcome⟩ :: (b.run (b.run w (before ++ [path])).2 after).1.files
          ∧ (b.run w paths).2 = (b.run (b.run w (before ++ [path])).2 after).2)
    ∧ (∀ loc, FileSystem.entry? (b.run w paths).2.files loc ≠ w.files.entry? loc →
        ∃ f ∈ (b.run w paths).1.files, w.files.LeadsTo f.path loc ∧ ∃ diff, f.outcome = .written diff)
    ∧ (b.options.write = false → (b.run w paths).2.files = w.files
        ∧ ∀ f ∈ (b.run w paths).1.files, ∀ diff, f.outcome ≠ .written diff) := by
  refine ⟨b.map_path_run w paths, ?_, fun loc => exists_written_of_entry_ne hwriter hfiles w, ?_⟩
  · intro before path after hsplit
    subst hsplit
    let w₁ := (b.run w before).2
    obtain ⟨hfiles₁, hw₁⟩ := b.run_append w before (path :: after)
    obtain ⟨-, hw₂⟩ := b.run_append w before [path]
    refine ⟨Processed.outcome ⟨path, (b.processFile w₁ path).1⟩, ?_, ?_, ?_⟩
    · rw [hw₂]
      exact effect_processFile hwriter hfiles w₁ path
    · rw [hfiles₁, hw₂]
      rfl
    · rw [hw₁, hw₂]
      rfl
  · intro hwrite
    exact ⟨files_run_of_preview hwriter hfiles hwrite w paths,
      not_written_of_preview hwriter hfiles hwrite w paths⟩

end Batch

theorem ruleTransformKeeping_leavesFiles (rules : List Rule) :
    (ruleTransformKeeping rules).LeavesFiles :=
  fun _ _ _ => rfl

/-- The names `a` and `b`, a file each, in the current directory, which is not the root. -/
def twoNames : FileSystem :=
  { entries := [(["w"], .directory), (["w", "a.rs"], .file [97]), (["w", "b.rs"], .file [98])]
    current := ["w"] }

/-- The batch that makes every `a` a `b`. -/
def renameBatch : Batch Compiled :=
  .ofRules FileSystem.writer nameParser [renameRule] { write := true }

/-- The first path leads nowhere and the last one has no language; `a`, named from the root,
is renamed all the same when its turn comes, and the second time, named by way of the
directory above the current one, nothing is left to do.  All that has changed is the file
of `a`. -/
theorem Batch.isolated_renamed_once :
    let paths : List Path := [⟨"gone.rs"⟩, ⟨"/w/a.rs"⟩, ⟨"../w/a.rs"⟩, ⟨"b"⟩]
    let done := renameBatch.run ⟨twoNames, {}⟩ paths
    done.1.files.map FileReport.path = paths
      ∧ (∃ diff, done.1.files[1]? = some ⟨⟨"/w/a.rs"⟩, .written diff⟩)
      ∧ done.1.files[2]? = some ⟨⟨"../w/a.rs"⟩, .unchanged⟩
      ∧ (∃ f ∈ done.1.files, twoNames.LeadsTo f.path ["w", "a.rs"]
          ∧ ∃ diff, f.outcome = .written diff)
      ∧ FileSystem.entry? done.2.files ["w", "a.rs"] = some (.file [98])
      ∧ FileSystem.entry? done.2.files ["w", "b.rs"] = some (.file [98]) := by
  have hwriter : renameBatch.writer = FileSystem.writer := rfl
  have hfiles : renameBatch.transform = ruleTransformKeeping [renameRule] := rfl
  obtain ⟨hpaths, hturn, hchanged, -⟩ := renameBatch.isolated
    (hwriter ▸ FileSystem.writer_whole) (hfiles ▸ ruleTransformKeeping_leavesFiles [renameRule])
    ⟨twoNames, {}⟩ [⟨"gone.rs"⟩, ⟨"/w/a.rs"⟩, ⟨"../w/a.rs"⟩, ⟨"b"⟩]
  obtain ⟨outcome, heffect, hreport, -⟩ :=
    hturn [⟨"gone.rs"⟩] ⟨"/w/a.rs"⟩ [⟨"../w/a.rs"⟩, ⟨"b"⟩] rfl
  have hne : FileSystem.entry?
      (renameBatch.run ⟨twoNames, {}⟩ [⟨"gone.rs"⟩, ⟨"/w/a.rs"⟩]).2.files ["w", "a.rs"]
      ≠ FileSystem.entry? (renameBatch.run ⟨twoNames, {}⟩ [⟨"gone.rs"⟩]).2.files ["w", "a.rs"] := by
    decide +kernel
  obtain ⟨-, diff, rfl⟩ := heffect.written_of_entry_ne hne
  refine ⟨hpaths, ⟨diff, ?_⟩, by decide +kernel, hchanged ["w", "a.rs"] (by decide +kernel),
    by decide +kernel, by decide +kernel⟩
  rw [hreport]
  rfl

end StructuralEdit
