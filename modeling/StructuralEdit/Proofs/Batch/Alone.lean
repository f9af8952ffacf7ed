/-
  StructuralEdit.Proofs.Batch.Alone
  ─────────────────────────────────
  **EVERY FILE OF A BATCH IS ALONE.**

  What rules make of a file can be said without the batch: open it, run the rules with
  every query compiled afresh, commit, and compare (`proposed`).  That asks nothing of the
  file system but the content of this one file (`proposed_congr`).

  A batch keeps two things from one file to the next, and neither gets in the way.  The
  caches never show (`edit_ofRules`).  The files change as the batch goes on; but if no two
  paths lead to the same file, then what is replaced before a file's turn is never what
  the file is read from.  So the results of a run, and the files after it, are told by the
  files as they were at its start (`Undisturbed.report`, `Undisturbed.read`).
-/
import StructuralEdit.Proofs.Batch.Isolation
import StructuralEdit.Proofs.Rule.Cached

namespace StructuralEdit

/-! ## §1. A file by itself. -/

/-- What rules make of the file at a path, with every query compiled afresh: its text, and
the document that has come of it. -/
def editAlone (parser : Parser) (rules : List Rule) (lang : Option Language) (fs : FileSystem)
    (path : Path) : Except BatchError (Text × Document) :=
  match Document.openFile parser fs path lang with
  | .error e => .error (.document e)
  | .ok d =>
      match applyRules rules d with
      | (.error e, _) => .error (.transform e)
      | (.ok _, d') => Prod.mk d.text <$> commitRest d'

/-- The text of a file and the one that is to replace it, if the document has been touched
and has another one. -/
def replacement? (before : Text) (d : Document) : Option (Text × Text) :=
  if !d.touched || d.text == before then none else some (before, d.text)

/-- What rules propose for the file at a path: its text and the one to replace it, or that
it stays as it is. -/
def proposed (parser : Parser) (rules : List Rule) (lang : Option Language) (fs : FileSystem)
    (path : Path) : Except BatchError (Option (Text × Text)) :=
  (fun edited => replacement? edited.1 edited.2) <$> editAlone parser rules lang fs path

/-- What is reported of a proposal, if writing does not fail. -/
def Outcome.ofProposal (write : Bool) (path : Path) : Option (Text × Text) → Outcome
  | none => .unchanged
  | some (old, new) =>
      if write then .written (unifiedDiff path old new) else .changed (unifiedDiff path old new)

/-- What is reported of the file at a path. -/
def reportAlone (parser : Parser) (rules : List Rule) (options : BatchOptions) (fs : FileSystem)
    (path : Path) : FileReport :=
  Processed.report
    ⟨path, Outcome.ofProposal options.write path <$> proposed parser rules options.lang fs path⟩

/-- The file at a path is to be written, and with which text. -/
def Rewrites (parser : Parser) (rules : List Rule) (options : BatchOptions) (fs : FileSystem)
    (path : Path) (new : Text) : Prop :=
  options.write = true ∧ ∃ old, proposed parser rules options.lang fs path = .ok (some (old, new))

/-- What the file at a path holds in the end. -/
def contentAlone (parser : Parser) (rules : List Rule) (options : BatchOptions) (fs : FileSystem)
    (path : Path) : Except FileError Text :=
  match proposed parser rules options.lang fs path with
  | .ok (some (_, new)) => if options.write then .ok new else fs.read path
  | _ => fs.read path

section

variable {parser : Parser} {rules : List Rule} {lang : Option Language} {fs fs' : FileSystem}
  {path : Path} {old new : Text}

theorem Document.openFile_congr (h : fs.read path = fs'.read path) :
    openFile parser fs path lang = openFile parser fs' path lang := by
  unfold openFile openDetected openAs
  rw [FileSystem.readText_congr h]

/-- **Nothing matters but the content of the file.** -/
theorem proposed_congr (h : fs.read path = fs'.read path) :
    proposed parser rules lang fs path = proposed parser rules lang fs' path := by
  unfold proposed editAlone
  rw [Document.openFile_congr h]

theorem replacement?_of_ne {d : Document} (htouched : d.touched = true) (hnew : d.text ≠ old) :
    replacement? old d = some (old, d.text) := by
  simp [replacement?, htouched, hnew]

theorem replacement?_of_same {d : Document} (h : d.touched = false ∨ d.text = old) :
    replacement? old d = none := by
  simp [replacement?, h]

/-- A file is to be replaced if the rules have come to another text. -/
theorem proposed_eq_some_iff :
    proposed parser rules lang fs path = .ok (some (old, new))
      ↔ ∃ d, editAlone parser rules lang fs path = .ok (old, d)
          ∧ d.touched = true ∧ d.text = new ∧ new ≠ old := by
  unfold proposed
  constructor
  · intro h
    obtain ⟨⟨before, d⟩, hedit, h⟩ := exists_of_map_eq_ok h
    by_cases hsame : d.touched = false ∨ d.text = before
    · rw [replacement?_of_same hsame] at h
      cases h
    · obtain ⟨htouched, hnew⟩ : d.touched = true ∧ d.text ≠ before := by
        simpa using hsame
      rw [replacement?_of_ne htouched hnew] at h
      cases h
      exact ⟨d, hedit, htouched, rfl, hnew⟩
  · rintro ⟨d, hedit, htouched, rfl, hnew⟩
    rw [hedit]
    exact congrArg Except.ok (replacement?_of_ne htouched hnew)

variable {options : BatchOptions}

theorem rewrites_congr (h : fs.read path = fs'.read path) :
    Rewrites parser rules options fs path new ↔ Rewrites parser rules options fs' path new := by
  unfold Rewrites
  rw [proposed_congr h]

theorem reportAlone_congr (h : fs.read path = fs'.read path) :
    reportAlone parser rules options fs path = reportAlone parser rules options fs' path := by
  unfold reportAlone
  rw [proposed_congr h]

theorem contentAlone_congr (h : fs.read path = fs'.read path) :
    contentAlone parser rules options fs path = contentAlone parser rules options fs' path := by
  unfold contentAlone
  rw [proposed_congr h, h]

theorem Rewrites.unique (h : Rewrites parser rules options fs path new) {new' : Text}
    (h' : Rewrites parser rules options fs path new') : new = new' := by
  obtain ⟨-, old, hold⟩ := h
  obtain ⟨-, old', hold'⟩ := h'
  cases hold.symm.trans hold'
  rfl

theorem contentAlone_of_rewrites (h : Rewrites parser rules options fs path new) :
    contentAlone parser rules options fs path = .ok new := by
  obtain ⟨hwrite, old, hproposed⟩ := h
  unfold contentAlone
  rw [hproposed, hwrite]
  rfl

theorem contentAlone_of_not_rewrites (h : ∀ new, ¬ Rewrites parser rules options fs path new) :
    contentAlone parser rules options fs path = fs.read path := by
  unfold contentAlone
  split
  next old new hproposed => rw [if_neg fun hwrite => h new ⟨hwrite, old, hproposed⟩]
  next => rfl

theorem outcome_of_proposed
    (h : proposed parser rules options.lang fs path = .ok (some (old, new))) :
    (reportAlone parser rules options fs path).outcome
      = if options.write then .written (unifiedDiff path old new)
        else .changed (unifiedDiff path old new) := by
  unfold reportAlone
  rw [h]
  rfl

/-- Where nothing is proposed, the file is unchanged or has failed. -/
theorem exists_proposed_of_outcome {outcome : Outcome}
    (h : (reportAlone parser rules options fs path).outcome = outcome)
    (hchanged : outcome ≠ .unchanged) (hfailed : ∀ reason, outcome ≠ .failed reason) :
    ∃ old new, proposed parser rules options.lang fs path = .ok (some (old, new)) := by
  unfold reportAlone at h
  subst h
  cases hproposed : proposed parser rules options.lang fs path with
  | error e =>
      rw [hproposed] at hfailed
      exact absurd rfl (hfailed e.message)
  | ok proposal =>
      rw [hproposed] at hchanged
      cases proposal with
      | none => exact absurd rfl hchanged
      | some texts => exact ⟨texts.1, texts.2, rfl⟩

/-- A file is reported as written if it is to be. -/
theorem exists_rewrites_of_written {diff : Text}
    (h : (reportAlone parser rules options fs path).outcome = .written diff) :
    ∃ new, Rewrites parser rules options fs path new := by
  obtain ⟨old, new, hproposed⟩ := exists_proposed_of_outcome h (by simp) (by simp)
  rw [outcome_of_proposed hproposed] at h
  split at h
  next hwrite => exact ⟨new, hwrite, old, hproposed⟩
  next => cases h

end

/-! ## §2. One file. -/

/-- The file has failed because it could not be written. -/
def Processed.refused (f : Processed) : Bool :=
  match f.result with
  | .error (.write _ _) => true
  | _ => false

section

variable {writer : Writer} {parser : Parser} {rules : List Rule} {options : BatchOptions}
  {w : Workshop Compiled} {path : Path} {paths : List Path}

/-- The caches never show. -/
theorem edit_ofRules (hw : w.kept.Sound parser) (path : Path) :
    let b := Batch.ofRules writer parser rules options
    (b.edit w path).1 = editAlone parser rules options.lang w.files path
      ∧ (b.edit w path).2.kept.Sound parser := by
  intro b
  unfold Batch.edit editAlone
  dsimp only [b, Batch.ofRules]
  cases hopen : Document.openFile parser w.files path options.lang with
  | error e => exact ⟨rfl, hw⟩
  | ok d =>
      obtain ⟨lang, text, tree, -, hd⟩ := Document.exists_of_openFile hopen
      have hparsed : d.parser = parser := by rw [hd]
      have hrules := @Desk.mirrors_applyRules parser ⟨d, w.kept⟩ ⟨hparsed, hw⟩ rules
      dsimp only [ruleTransformKeeping] at hrules ⊢
      generalize Desk.applyRules rules ⟨d, w.kept⟩ = kept at hrules ⊢
      generalize applyRules rules d = fresh at hrules ⊢
      obtain ⟨outcome, k, hk⟩ := hrules
      cases outcome with
      | error e => exact ⟨rfl, hk.compiled⟩
      | ok _ => exact ⟨rfl, hk.compiled⟩

/-- What rules are run on is the content of the file. -/
theorem read_of_editAlone {lang : Option Language} {fs : FileSystem} {old : Text} {d : Document}
    (h : editAlone parser rules lang fs path = .ok (old, d)) : fs.read path = .ok old := by
  -- compiling afresh is running with caches that hold nothing yet
  obtain ⟨halone, -⟩ := @edit_ofRules FileSystem.writer parser rules { lang := lang } ⟨fs, {}⟩
    (Compiled.sound_empty parser) path
  have hread := Batch.read_of_edit (halone.trans h)
  exact hread

theorem exists_resolve_of_proposed {lang : Option Language} {fs : FileSystem} {old new : Text}
    (h : proposed parser rules lang fs path = .ok (some (old, new))) :
    ∃ loc, fs.resolve path = .ok (loc, .file old) := by
  obtain ⟨d, hedit, -⟩ := proposed_eq_some_iff.mp h
  exact FileSystem.read_eq_ok_iff.mp (read_of_editAlone hedit)

/-- What is rewritten is what the path leads to. -/
theorem Rewrites.exists_leadsTo {fs : FileSystem} {new : Text}
    (h : Rewrites parser rules options fs path new) : ∃ loc, fs.LeadsTo path loc := by
  obtain ⟨-, old, hproposed⟩ := h
  obtain ⟨loc, hresolve⟩ := exists_resolve_of_proposed hproposed
  exact ⟨loc, old, hresolve⟩

/-- The result is the proposal's, unless the writer fails. -/
theorem result_processFile (hw : w.kept.Sound parser)
    (hwrites : Processed.refused
      ⟨path, ((Batch.ofRules writer parser rules options).processFile w path).1⟩ = false) :
    ((Batch.ofRules writer parser rules options).processFile w path).1
      = Outcome.ofProposal options.write path <$> proposed parser rules options.lang w.files path := by
  let b := Batch.ofRules writer parser rules options
  obtain ⟨halone, -⟩ := @edit_ofRules writer parser rules options w hw path
  unfold proposed
  rw [← halone]
  cases hedit : (b.edit w path).1 with
  | error e =>
      rw [Batch.processFile_of_error hedit]
      rfl
  | ok edited =>
      obtain ⟨old, d⟩ := edited
      rw [Batch.processFile_of_ok hedit] at hwrites ⊢
      have hend := b.conclude_cases (b.edit w path).2 path old d
      generalize b.conclude (b.edit w path).2 path old d = result at hwrites hend ⊢
      show result.1 = .ok (Outcome.ofProposal options.write path (replacement? old d))
      cases hend with
      | same h =>
          rw [replacement?_of_same h]
          rfl
      | shown hwrite htouched hnew =>
          rw [replacement?_of_ne htouched hnew, show options.write = false from hwrite]
          rfl
      | written hwrite htouched hnew =>
          rw [replacement?_of_ne htouched hnew, show options.write = true from hwrite]
          rfl
      | refused => cases hwrites

/-- The caches are in order again after a file, whatever has become of it. -/
theorem kept_processFile (hw : w.kept.Sound parser) (path : Path) :
    ((Batch.ofRules writer parser rules options).processFile w path).2.kept.Sound parser := by
  let b := Batch.ofRules writer parser rules options
  obtain ⟨-, hkept⟩ := @edit_ofRules writer parser rules options w hw path
  cases hedit : (b.edit w path).1 with
  | error e =>
      rw [Batch.processFile_of_error hedit]
      exact hkept
  | ok edited =>
      rw [Batch.processFile_of_ok hedit]
      have hend := b.conclude_cases (b.edit w path).2 path edited.1 edited.2
      generalize b.conclude (b.edit w path).2 path edited.1 edited.2 = result at hend ⊢
      cases hend <;> exact hkept

/-- The file is replaced by what it is to be rewritten with; else nothing changes. -/
theorem files_processFile (hwriter : writer.Whole) (hw : w.kept.Sound parser)
    (hwrites : Processed.refused
      ⟨path, ((Batch.ofRules writer parser rules options).processFile w path).1⟩ = false) :
    let after := ((Batch.ofRules writer parser rules options).processFile w path).2.files
    (∃ loc new, Rewrites parser rules options w.files path new
        ∧ w.files.LeadsTo path loc ∧ w.files.Replaced loc new after)
      ∨ (after = w.files ∧ ∀ new, ¬ Rewrites parser rules options w.files path new) := by
  intro after
  have hresult := result_processFile hw hwrites
  obtain ⟨halone, -⟩ := @edit_ofRules writer parser rules options w hw path
  have heffect := @Batch.effect_processFile _ (Batch.ofRules writer parser rules options) hwriter
    (ruleTransformKeeping_leavesFiles rules) w path
  rw [hresult] at heffect
  generalize houtcome : Processed.outcome _ = outcome at heffect
  change (reportAlone parser rules options w.files path).outcome = outcome at houtcome
  change Batch.Effect _ w path outcome after at heffect
  generalize after = fs at heffect ⊢
  cases heffect with
  | untouched hnot =>
      refine .inr ⟨rfl, ?_⟩
      rintro new ⟨hwrite, old, hproposed⟩
      rw [outcome_of_proposed hproposed, if_pos hwrite] at houtcome
      exact hnot _ houtcome.symm
  | @written loc old d fs hwrite hread hedit hnew hreplaced =>
      -- what is reported as written is what has been proposed, and that is the document's text
      obtain ⟨new, hnew'⟩ := exists_rewrites_of_written houtcome
      obtain ⟨-, old', hproposed⟩ := hnew'
      obtain ⟨d', hedit', -, rfl, -⟩ := proposed_eq_some_iff.mp hproposed
      rw [halone, hedit'] at hedit
      cases hedit
      exact .inl ⟨loc, d.text, ⟨hwrite, old, hproposed⟩, ⟨old, hread⟩, hreplaced⟩

end

/-! ## §3. Many files. -/

/-- **A run leaves the caches in order**, so that the next one finds them so. -/
theorem kept_run {writer : Writer} {parser : Parser} {rules : List Rule} {options : BatchOptions}
    {w : Workshop Compiled} (hw : w.kept.Sound parser) (paths : List Path) :
    ((Batch.ofRules writer parser rules options).run w paths).2.kept.Sound parser := by
  induction paths generalizing w with
  | nil => exact hw
  | cons path paths ih => exact ih (kept_processFile hw path)

/-- No write fails in the run. -/
def Batch.WritesThrough {σ : Type} (b : Batch σ) (w : Workshop σ) (paths : List Path) : Prop :=
  ∀ f ∈ (b.processFiles w paths).1, f.refused = false

instance {σ : Type} (b : Batch σ) (w : Workshop σ) (paths : List Path) :
    Decidable (b.WritesThrough w paths) :=
  inferInstanceAs (Decidable (∀ f ∈ (b.processFiles w paths).1, f.refused = false))

/-- A run of rules in which files cannot get in each other's way: caches in order, no two
paths to the same file, files that are replaced as a whole, and no write that fails. -/
structure Undisturbed (writer : Writer) (parser : Parser) (rules : List Rule)
    (options : BatchOptions) (w : Workshop Compiled) (paths : List Path) : Prop where
  whole : writer.Whole
  sound : w.kept.Sound parser
  distinct : w.files.Distinct paths
  writes : (Batch.ofRules writer parser rules options).WritesThrough w paths

namespace Undisturbed

variable {writer : Writer} {parser : Parser} {rules : List Rule} {options : BatchOptions}
  {w : Workshop Compiled} {path : Path} {paths : List Path}

theorem refused_head (h : Undisturbed writer parser rules options w (path :: paths)) :
    Processed.refused
      ⟨path, ((Batch.ofRules writer parser rules options).processFile w path).1⟩ = false :=
  h.writes _ List.mem_cons_self

/-- **The step lemma**: after the first file the run is still undisturbed, and the other
paths still find what they found. -/
theorem step (h : Undisturbed writer parser rules options w (path :: paths)) :
    let w' := ((Batch.ofRules writer parser rules options).processFile w path).2
    Undisturbed writer parser rules options w' paths
      ∧ ∀ q ∈ paths, w'.files.resolve q = w.files.resolve q := by
  intro w'
  obtain ⟨hpath, hrest⟩ := List.pairwise_cons.mp h.distinct
  have hsound : w'.kept.Sound parser := kept_processFile h.sound path
  have hwrites : (Batch.ofRules writer parser rules options).WritesThrough w' paths :=
    fun f hf => h.writes f (List.mem_cons_of_mem _ hf)
  obtain ⟨loc, new, -, hleads, hreplaced⟩ | ⟨heq, -⟩ :=
    files_processFile h.whole h.sound h.refused_head
  · refine ⟨⟨h.whole, hsound, hreplaced.distinct hrest, hwrites⟩, fun q hq => ?_⟩
    exact hreplaced.resolve_of_not_leadsTo (hpath q hq loc hleads)
  · change w'.files = w.files at heq
    exact ⟨⟨h.whole, hsound, heq ▸ hrest, hwrites⟩, fun q _ => by rw [heq]⟩

/-- Every file is dealt with as it would be by itself, on the files as they were at the
start. -/
theorem results (h : Undisturbed writer parser rules options w paths) :
    ((Batch.ofRules writer parser rules options).processFiles w paths).1 = paths.map (fun p =>
      ⟨p, Outcome.ofProposal options.write p <$> proposed parser rules options.lang w.files p⟩) := by
  induction paths generalizing w with
  | nil => rfl
  | cons path paths ih =>
      obtain ⟨hrest, hresolve⟩ := h.step
      rw [Batch.processFiles_cons, ih hrest, result_processFile h.sound h.refused_head,
        List.map_cons]
      refine congrArg _ (List.map_congr_left fun q hq => ?_)
      rw [proposed_congr (FileSystem.read_congr (hresolve q hq))]

/-- **The report is that of each file by itself.** -/
theorem report (h : Undisturbed writer parser rules options w paths) :
    ((Batch.ofRules writer parser rules options).run w paths).1.files
      = paths.map (reportAlone parser rules options w.files) := by
  show ((Batch.ofRules writer parser rules options).processFiles w paths).1.map _ = _
  rw [h.results, List.map_map]
  rfl

/-- What has been rewritten stays so to the end. -/
theorem entry_of_rewrites (h : Undisturbed writer parser rules options w paths) {p : Path}
    (hp : p ∈ paths) {new : Text} (hnew : Rewrites parser rules options w.files p new)
    {loc : Location} (hloc : w.files.LeadsTo p loc) :
    FileSystem.entry? ((Batch.ofRules writer parser rules options).run w paths).2.files loc
      = some (.file new) := by
  induction paths generalizing w with
  | nil => cases hp
  | cons path paths ih =>
      obtain ⟨hrest, hresolve⟩ := h.step
      rw [(Batch.run_cons _ w path paths).2]
      by_cases hlater : p ∈ paths
      · have hread := FileSystem.read_congr (hresolve p hlater)
        refine ih hrest hlater ((rewrites_congr hread).mpr hnew) ?_
        unfold FileSystem.LeadsTo at hloc ⊢
        rwa [hresolve p hlater]
      · obtain rfl : p = path := (List.mem_cons.mp hp).resolve_right hlater
        obtain ⟨loc', new', hnew', hloc', hreplaced⟩ | ⟨-, hnone⟩ :=
          files_processFile h.whole h.sound h.refused_head
        · obtain rfl := hloc.unique hloc'
          obtain rfl := hnew.unique hnew'
          refine Eq.trans ?_ hreplaced.after
          -- no path comes back to this file
          refine Batch.entry_run_of_not_leadsTo h.whole (ruleTransformKeeping_leavesFiles rules) _ ?_
          intro q hq hqloc
          exact (List.pairwise_cons.mp h.distinct).1 q hq loc hloc
            ((hreplaced.leadsTo_iff q loc).mp hqloc)
        · exact absurd hnew (hnone new)

/-- An entry that is not what it was is that of a file that was to be rewritten. -/
theorem exists_rewrites_of_entry_ne (h : Undisturbed writer parser rules options w paths)
    {loc : Location}
    (hloc : FileSystem.entry? ((Batch.ofRules writer parser rules options).run w paths).2.files loc
      ≠ w.files.entry? loc) :
    ∃ p ∈ paths, w.files.LeadsTo p loc ∧ ∃ new, Rewrites parser rules options w.files p new := by
  obtain ⟨f, hf, hleads, diff, hdiff⟩ := Batch.exists_written_of_entry_ne h.whole
    (ruleTransformKeeping_leavesFiles rules) w hloc
  rw [h.report, List.mem_map] at hf
  obtain ⟨p, hp, rfl⟩ := hf
  exact ⟨p, hp, hleads, exists_rewrites_of_written hdiff⟩

theorem locate (h : Undisturbed writer parser rules options w paths) (p : Path) :
    ((Batch.ofRules writer parser rules options).run w paths).2.files.locate p
      = w.files.locate p :=
  Batch.locate_run h.whole (ruleTransformKeeping_leavesFiles rules) w paths p

theorem resolve_of_rewrites (h : Undisturbed writer parser rules options w paths) {p : Path}
    (hp : p ∈ paths) {new : Text} (hnew : Rewrites parser rules options w.files p new)
    {loc : Location} (hloc : w.files.LeadsTo p loc) :
    ((Batch.ofRules writer parser rules options).run w paths).2.files.resolve p
      = .ok (loc, .file new) := by
  obtain ⟨hlocate, -⟩ := FileSystem.leadsTo_iff.mp hloc
  exact FileSystem.resolve_eq_ok_iff.mpr
    ⟨(h.locate p).trans hlocate, h.entry_of_rewrites hp hnew hloc⟩

theorem resolve_of_not_rewrites (h : Undisturbed writer parser rules options w paths) {p : Path}
    (hp : p ∈ paths) (hnot : ∀ new, ¬ Rewrites parser rules options w.files p new) :
    ((Batch.ofRules writer parser rules options).run w paths).2.files.resolve p
      = w.files.resolve p := by
  refine FileSystem.resolve_congr (h.locate p) fun loc hloc => ?_
  refine Decidable.byContradiction fun hne => ?_
  -- what has changed there would be the file of another path
  obtain ⟨q, hq, hqloc, new, hnew⟩ := h.exists_rewrites_of_entry_ne hne
  have hploc : w.files.LeadsTo p loc :=
    FileSystem.leadsTo_iff.mpr ⟨hloc, (FileSystem.leadsTo_iff.mp hqloc).2⟩
  obtain rfl := h.distinct.eq_of_leadsTo hp hq hploc hqloc
  exact hnot new hnew

/-- **The files after a run hold what each of them would hold by itself.** -/
theorem read (h : Undisturbed writer parser rules options w paths) {p : Path} (hp : p ∈ paths) :
    ((Batch.ofRules writer parser rules options).run w paths).2.files.read p
      = contentAlone parser rules options w.files p := by
  by_cases hchange : ∃ new, Rewrites parser rules options w.files p new
  · obtain ⟨new, hnew⟩ := hchange
    obtain ⟨loc, hloc⟩ := hnew.exists_leadsTo
    rw [contentAlone_of_rewrites hnew]
    exact FileSystem.read_eq_ok_iff.mpr ⟨loc, h.resolve_of_rewrites hp hnew hloc⟩
  · have hnot : ∀ new, ¬ Rewrites parser rules options w.files p new := not_exists.mp hchange
    rw [contentAlone_of_not_rewrites hnot]
    exact FileSystem.read_congr (h.resolve_of_not_rewrites hp hnot)

end Undisturbed

end StructuralEdit
