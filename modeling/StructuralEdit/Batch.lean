/-
  StructuralEdit.Batch
  ────────────────────
  **ONE TRANSFORM OVER MANY FILES.**

  Every file gets a document of its own.  A file that cannot be read, transformed
  or written is reported as failed and left alone, and the next one is processed
  all the same.  Without `write`, a changed file is only reported with the
  difference; with it, the file is replaced as a whole.

  Two things outlive a file, and nothing else does: the files themselves, and what the
  transform keeps for itself, such as the compiled queries of rules (`Workshop`).
-/
import StructuralEdit.Rule.Cached
import StructuralEdit.LineDiff.Unified

namespace StructuralEdit

/-! ## §1. Transforms. -/

/-- What a transform leaves behind. -/
structure Transformed where
  outcome : Except TransformError Unit
  document : Document
  files : FileSystem

/-- A transform queues edits on a document and may commit them; what is left in
the queue is committed after it.  It sees the files and may touch them. -/
abbrev Transform := FileSystem → Document → Transformed

/-- The transform that runs rules in order; it leaves the files alone. -/
def ruleTransform (rules : List Rule) : Transform := fun fs d =>
  let (outcome, d) := applyRules rules d
  ⟨outcome, d, fs⟩

/-- A transform that keeps something from one file to the next. -/
abbrev KeepingTransform (σ : Type) := σ → FileSystem → Document → Transformed × σ

/-- A transform that keeps nothing. -/
def Transform.keepingNothing (transform : Transform) : KeepingTransform Unit := fun _ fs d =>
  (transform fs d, ())

/-- The transform that runs rules in order and keeps their compiled queries. -/
def ruleTransformKeeping (rules : List Rule) : KeepingTransform Compiled := fun compiled fs d =>
  let (outcome, k) := Desk.applyRules rules ⟨d, compiled⟩
  (⟨outcome, k.doc, fs⟩, k.compiled)

/-! ## §2. Reports. -/

/-- How a batch is run. -/
structure BatchOptions where
  /-- Replace changed files, not only report them. -/
  write : Bool := false
  /-- The language of every file; else the extension tells. -/
  lang : Option Language := none
  deriving DecidableEq, Repr

/-- What happened to a file. -/
inductive Outcome where
  | unchanged
  /-- It would change. -/
  | changed (diff : Text)
  /-- It was replaced. -/
  | written (diff : Text)
  | failed (reason : String)
  deriving DecidableEq, Repr

/-- What happened to the file at a path. -/
structure FileReport where
  path : Path
  outcome : Outcome
  deriving DecidableEq, Repr

/-- What happened to the files of a batch, in their order. -/
structure Report where
  files : List FileReport := []
  deriving DecidableEq, Repr

namespace Report

/-- The number of files that would change or were replaced. -/
def changed (r : Report) : Nat :=
  r.files.countP fun f => match f.outcome with
    | .changed _ | .written _ => true
    | _ => false

/-- The number of files that failed. -/
def failed (r : Report) : Nat :=
  r.files.countP fun f => match f.outcome with
    | .failed _ => true
    | _ => false

/-- Some file failed. -/
def hasFailures (r : Report) : Bool :=
  r.failed > 0

end Report

/-- Why a file fails. -/
inductive BatchError where
  | document (cause : DocumentError)
  | transform (cause : TransformError)
  | write (path : Path) (wording : String)
  deriving DecidableEq, Repr

/-- The wording of a batch error. -/
def BatchError.message : BatchError → String
  | .document cause => cause.message
  | .transform cause => cause.message
  | .write path wording => "failed to write " ++ path.spelling ++ ": " ++ wording

/-- How the file at a path has been dealt with. -/
structure Processed where
  path : Path
  result : Except BatchError Outcome

namespace Processed

/-- What has happened to the file; an error is a failure, told in its wording. -/
def outcome (f : Processed) : Outcome :=
  match f.result with
  | .ok outcome => outcome
  | .error e => .failed e.message

/-- What is reported of the file. -/
def report (f : Processed) : FileReport :=
  ⟨f.path, f.outcome⟩

end Processed

/-! ## §3. One file. -/

/-- What files are run with. -/
structure Batch (σ : Type) where
  writer : Writer
  parser : Parser
  transform : KeepingTransform σ
  options : BatchOptions

/-- What outlives a file: all the files, and what the transform keeps. -/
structure Workshop (σ : Type) where
  files : FileSystem
  kept : σ

/-- Commit what is left in the queue. -/
def commitRest (d : Document) : Except BatchError Document :=
  if d.dirty then
    match d.commit with
    | (.error e, _) => .error (.document e)
    | (.ok _, d) => .ok d
  else .ok d

namespace Batch

variable {σ : Type}

/-- Open a file, transform it and commit: the text of the file, and the document
that has come of it. -/
def edit (b : Batch σ) (w : Workshop σ) (path : Path) :
    Except BatchError (Text × Document) × Workshop σ :=
  match Document.openFile b.parser w.files path b.options.lang with
  | .error e => (.error (.document e), w)
  | .ok d =>
      let (t, kept) := b.transform w.kept w.files d
      match t.outcome with
      | .error e => (.error (.transform e), ⟨t.files, kept⟩)
      | .ok _ => (Prod.mk d.text <$> commitRest t.document, ⟨t.files, kept⟩)

/-- Report a file whose text was `before`, and replace it if asked to. -/
def conclude (b : Batch σ) (w : Workshop σ) (path : Path) (before : Text) (d : Document) :
    Except BatchError Outcome × Workshop σ :=
  if !d.touched || d.text == before then (.ok .unchanged, w)
  else
    let diff := unifiedDiff path before d.text
    if b.options.write then
      match b.writer w.files path d.text with
      | .ok fs => (.ok (.written diff), { w with files := fs })
      | .error wording => (.error (.write path wording), w)
    else (.ok (.changed diff), w)

/-- Process one file: open it, transform it, commit, report. -/
def processFile (b : Batch σ) (w : Workshop σ) (path : Path) :
    Except BatchError Outcome × Workshop σ :=
  match b.edit w path with
  | (.error e, w) => (.error e, w)
  | (.ok (before, d), w) => b.conclude w path before d

/-! ## §4. Many files. -/

/-- Process files in order, whatever becomes of those before. -/
def processFiles (b : Batch σ) : Workshop σ → List Path → List Processed × Workshop σ
  | w, [] => ([], w)
  | w, path :: rest =>
      let (result, w) := b.processFile w path
      let (results, w) := b.processFiles w rest
      (⟨path, result⟩ :: results, w)

/-- Run over files in order; the report, and what there is after it. -/
def run (b : Batch σ) (w : Workshop σ) (paths : List Path) : Report × Workshop σ :=
  let (results, w) := b.processFiles w paths
  ({ files := results.map Processed.report }, w)

end Batch

/-- The batch that runs rules. -/
def Batch.ofRules (writer : Writer) (parser : Parser) (rules : List Rule)
    (options : BatchOptions) : Batch Compiled :=
  { writer := writer, parser := parser, transform := ruleTransformKeeping rules, options := options }

/-- Run a transform that keeps nothing over files in order; the report, and the files
after it. -/
def runBatch (parser : Parser) (transform : Transform) (options : BatchOptions)
    (fs : FileSystem) (paths : List Path) : Report × FileSystem :=
  let b : Batch Unit :=
    { writer := FileSystem.writer
      parser := parser
      transform := transform.keepingNothing
      options := options }
  let (report, w) := b.run ⟨fs, ()⟩ paths
  (report, w.files)

end StructuralEdit
