/-
  StructuralEdit.Rule.Load
  ────────────────────────
  **READING AND CHECKING RULE FILES.**

  A rule file is loaded when it can be read, is TOML of the right shape, and has
  no issues; each of the three can be what stands in the way.
-/
import StructuralEdit.Rule.Decode
import StructuralEdit.Rule.Issue

namespace StructuralEdit

/-- Why a rule file cannot be loaded; the path is there if it was read from a
file. -/
inductive RuleFileError where
  | unreadable (path : Path) (cause : FileError)
  | malformed (path : Option Path)
  | invalid (path : Option Path) (issues : List Issue)
  deriving DecidableEq, Repr

namespace RuleFileError

/-- The path in brackets, if there is one. -/
def place : Option Path → String
  | some p => " (" ++ p.spelling ++ ")"
  | none => ""

/-- The wordings of the issues, one a line. -/
def listing (issues : List Issue) : String :=
  "\n".intercalate (issues.map Issue.message)

/-- All that is said of a text that is no TOML or has another shape. -/
def malformedText : String := "TOML parse error"

/-- The wording of the error. -/
def message : RuleFileError → String
  | unreadable path cause => "failed to read rule file " ++ path.spelling ++ ": " ++ cause.message
  | malformed path => "failed to parse rule file TOML" ++ place path ++ ": " ++ malformedText
  | invalid path issues => "invalid rule file" ++ place path ++ ": " ++ listing issues

/-- The wordings of what lies behind an error, nearest first. -/
def causes : RuleFileError → List String
  | unreadable _ cause => [cause.message]
  | malformed _ => [malformedText]
  | invalid _ issues => [listing issues]

end RuleFileError

namespace RuleFile

/-- Load a rule file from its text, read from a path or not. -/
def parse (path : Option Path) (source : String) : Except RuleFileError RuleFile :=
  match ofToml? source with
  | none => .error (.malformed path)
  | some f => if f.issues.isEmpty then .ok f else .error (.invalid path f.issues)

/-- Load a rule file. -/
def load (fs : FileSystem) (path : Path) : Except RuleFileError RuleFile := do
  let text ← (fs.readText path).mapError (.unreadable path)
  parse (some path) text.toStr

end RuleFile

end StructuralEdit
