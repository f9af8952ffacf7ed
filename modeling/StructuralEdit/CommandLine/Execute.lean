/-
  StructuralEdit.CommandLine.Execute
  ──────────────────────────────────
  **WHAT A CALL PRINTS, WRITES AND RETURNS.**

  `execute` answers a call on a file system: the text for either output, the exit
  code, and the files after it.  The code is 0 if all went well, 1 if something
  failed, and 2 if the call cannot be understood.

  A `run` works on the files that its roots stand for, filtered by the globs of
  the call or, where it has none to include, those of the rule file; globs to
  exclude add up.
-/
import StructuralEdit.CommandLine.Arguments
import StructuralEdit.Batch
import StructuralEdit.Discovery
import StructuralEdit.Json
import StructuralEdit.Rule.Load

namespace StructuralEdit.CommandLine

/-! ## §1. Answers. -/

/-- What a call leaves behind. -/
structure Answer where
  code : Nat := 0
  out : Text := []
  err : Text := []
  files : FileSystem

/-- A line of output. -/
def line (s : String) : Text :=
  Text.ofString (s ++ "\n")

/-- A text indented by four blanks, every line of it. -/
def indented (s : String) : String :=
  "\n".intercalate ((cutAt '\n' s).map ("    " ++ ·))

/-- Why a call fails as a whole: what is told, and what lies behind it. -/
structure Failure where
  message : String
  causes : List String := []
  deriving DecidableEq, Repr

/-- How a failure is told. -/
def Failure.describe (f : Failure) : String :=
  "Error: " ++ f.message
    ++ (if f.causes.isEmpty then ""
        else "\n\nCaused by:\n" ++ "\n".intercalate (f.causes.map indented))

/-- The answer of a call that fails as a whole. -/
def Failure.answer (f : Failure) (fs : FileSystem) : Answer :=
  { code := 1, err := line f.describe, files := fs }

/-- The language that is asked for by name. -/
def language (name : Option String) : Except Failure (Option Language) :=
  match name with
  | none => .ok none
  | some name => (some <$> Language.ofName name).mapError fun e => { message := e.message }

/-- The roots of a call; without any, the current directory. -/
def rootsOf (paths : List Path) : List Path :=
  if paths.isEmpty then [⟨"."⟩] else paths

/-- The files that roots stand for. -/
def files (fs : FileSystem) (paths : List Path) (filter : FileFilter) (lang : Option Language) :
    Except Failure (List Path) :=
  (discover fs (rootsOf paths) filter lang).mapError fun e =>
    { message := e.message, causes := [e.cause.message] }

/-! ## §2. Running rules. -/

/-- The filter of a run. -/
def filterOf (request : RunRequest) (info : Metadata) : Except GlobError FileFilter :=
  FileFilter.compile
    (if request.includes.isEmpty then info.includes else request.includes)
    (info.excludes ++ request.excludes)

/-- What a run works with. -/
structure Plan where
  rules : List Rule
  options : BatchOptions
  paths : List Path

/-- The plan of a run. -/
def planOf (fs : FileSystem) (request : RunRequest) : Except Failure Plan := do
  let file ← (RuleFile.load fs request.rules).mapError fun e =>
    { message := e.message, causes := e.causes : Failure }
  let lang ← language (request.lang <|> file.info.lang)
  let filter ← (filterOf request file.info).mapError fun e =>
    { message := "invalid glob", causes := [e.message] : Failure }
  let paths ← files fs request.paths filter lang
  return { rules := file.rules, options := { write := request.write, lang := lang }, paths := paths }

/-- A report of one file as JSON. -/
def jsonOfFile (f : FileReport) : Json :=
  let details := match f.outcome with
    | .unchanged => [("status", Json.string "unchanged")]
    | .changed diff => [("status", .string "changed"), ("diff", .string diff.toStr)]
    | .written diff => [("status", .string "written"), ("diff", .string diff.toStr)]
    | .failed reason => [("status", .string "failed"), ("reason", .string reason)]
  .record (("path", .string f.path.spelling) :: details)

/-- A report as JSON. -/
def jsonOf (r : Report) : Json :=
  .record [("files", .list (r.files.map jsonOfFile))]

/-- A difference, line by line. -/
def diffLines (diff : Text) : Text :=
  (diff.lines.map (· ++ [Text.newline])).flatten

/-- What is printed about a file. -/
def outOfFile (f : FileReport) : Text :=
  match f.outcome with
  | .changed diff => line ("⊙ " ++ f.path.spelling ++ ": would change") ++ diffLines diff
  | .written diff => line ("✓ " ++ f.path.spelling ++ ": written") ++ diffLines diff
  | _ => []

/-- What is complained about a file. -/
def errOfFile (f : FileReport) : Text :=
  match f.outcome with
  | .failed reason => line ("✗ " ++ f.path.spelling ++ ": Failed - " ++ reason)
  | _ => []

/-- The numbers at the end of a report. -/
def summary (write : Bool) (r : Report) : Text :=
  let verb := if write then "written" else "would change"
  line "" ++ line "Summary:" ++ line s!"  {r.files.length} files"
    ++ line s!"  {r.changed} {verb}" ++ line s!"  {r.failed} failed"

/-- Apply a rule file. -/
def run (writer : Writer) (parser : Parser) (fs : FileSystem) (request : RunRequest) : Answer :=
  match planOf fs request with
  | .error e => e.answer fs
  | .ok plan =>
      let batch := Batch.ofRules writer parser plan.rules plan.options
      let (report, workshop) := batch.run ⟨fs, {}⟩ plan.paths
      let fs := workshop.files
      let code := if report.hasFailures then 1 else 0
      if request.json then { code := code, out := line (jsonOf report).pretty, files := fs }
      else
        { code := code
          out := (report.files.map outOfFile).flatten ++ summary request.write report
          err := (report.files.map errOfFile).flatten
          files := fs }

/-! ## §3. Querying. -/

/-- What a query finds in one file, or why it finds nothing. -/
def matchesIn (parser : Parser) (fs : FileSystem) (query : QueryText) (lang : Option Language)
    (path : Path) : Except Failure (List Text) := do
  let d ← (Document.openFile parser fs path lang).mapError fun e =>
    { message := e.message, causes := e.causes : Failure }
  let found ← (d.query query).1.mapError fun e =>
    { message := e.message, causes := e.causes : Failure }
  return found.nodes.map fun n =>
    let point := d.text.pointAt n.start
    Text.ofString s!"{path.spelling}:{point.row + 1}:{point.column + 1}: "
      ++ (n.text d.text).firstLine ++ [Text.newline]

/-- Show what a query finds. -/
def query (parser : Parser) (fs : FileSystem) (request : QueryRequest) : Answer :=
  let found := do
    let lang ← language request.lang
    let paths ← files fs request.paths {} lang
    let text := if request.isTree then QueryText.tree request.pattern else .pattern request.pattern
    return paths.map fun path => (path, matchesIn parser fs text lang path)
  match found with
  | .error e => e.answer fs
  | .ok results =>
      let shown := results.flatMap fun (_, r) => match r with
        | .ok lines => lines
        | .error _ => []
      let complaints := results.filterMap fun (path, r) => match r with
        | .ok _ => none
        | .error e =>
            some (line ("✗ " ++ path.spelling ++ ": " ++ ": ".intercalate (e.message :: e.causes)))
      { code := if complaints.isEmpty then 0 else 1
        out := shown.flatten ++ line ""
          ++ line s!"{shown.length} matches in {results.length} files"
        err := complaints.flatten
        files := fs }

/-! ## §4. Checking. -/

/-- Check a rule file. -/
def check (fs : FileSystem) (path : Path) : Answer :=
  match RuleFile.load fs path with
  | .ok file =>
      { out := line s!"✓ {path.spelling}: {file.rules.length} rules"
          ++ (file.rules.map fun r => line ("  - " ++ r.id)).flatten
        files := fs }
  | .error e => { code := 1, err := line ("✗ " ++ e.message), files := fs }

/-! ## §5. All calls. -/

/-- What the version is. -/
def versionText : String := "tree-splice 0.1.0"

/-- Answer a call; what it writes goes through `writer`. -/
def execute (parser : Parser) (fs : FileSystem) (args : List String)
    (writer : Writer := FileSystem.writer) : Answer :=
  match request args with
  | none => { code := 2, files := fs }
  | some .version => { out := line versionText, files := fs }
  | some (.run request) => run writer parser fs request
  | some (.query request) => query parser fs request
  | some (.check path) => check fs path

end StructuralEdit.CommandLine
