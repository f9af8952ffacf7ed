/-
  StructuralEdit.Rule.Issue
  ─────────────────────────
  **WHAT CAN BE WRONG WITH A RULE FILE.**

  A rule file is checked before it is run, and every issue is told: first those
  that concern the file, then those of each rule in turn.  `RuleFile.issues` is
  the whole list; a file without issues can be run.
-/
import StructuralEdit.Rule.Basic
import StructuralEdit.Glob

namespace StructuralEdit

/-! ## §1. Issues. -/

/-- A part of a rule that must not be blank or empty. -/
inductive RulePart where
  | id
  | pattern
  | binding
  | template
  deriving DecidableEq, Repr

/-- The name of a part of a rule. -/
def RulePart.name : RulePart → String
  | .id => "id"
  | .pattern => "query.pattern"
  | .binding => "bind"
  | .template => "operation.template"

/-- An issue.  A rule is told by its id, unless that is blank. -/
inductive Issue where
  | noRules
  | unknownLanguage (name : String)
  | badGlob (source : String) (cause : GlobError)
  | missing (rule : Option String) (part : RulePart)
  | repeatedId (id : String)
  | reservedName (rule : Option String)
  | unboundName (rule : Option String) (name : String)
  deriving DecidableEq, Repr

namespace Issue

/-- What is wrong with the names of a rule, for the issues about names. -/
def detail : Issue → String
  | reservedName _ => "bind name `" ++ nodeBinding ++ "` is reserved"
  | unboundName _ name => "template placeholder `$" ++ name ++ "` is not bound"
  | _ => ""

/-- The wording of an issue about names. -/
def wording (rule : Option String) (detail : String) : String :=
  match rule with
  | some id => "rule '" ++ id ++ "' has invalid configuration: " ++ detail
  | none => "invalid rule configuration: " ++ detail

/-- The wording of an issue. -/
def message : Issue → String
  | noRules => "rule file contains no rules"
  | unknownLanguage name => "unknown language '" ++ name ++ "'"
  | badGlob source cause => "invalid glob '" ++ source ++ "': " ++ cause.message
  | missing (some id) part => "rule '" ++ id ++ "' missing required field '" ++ part.name ++ "'"
  | missing none part => "rule missing required field '" ++ part.name ++ "'"
  | repeatedId id => "rule id '" ++ id ++ "' is used more than once"
  | reservedName rule => wording rule (reservedName rule).detail
  | unboundName rule name => wording rule (unboundName rule name).detail

end Issue

/-! ## §2. Blank texts. -/

/-- A character that only takes up space. -/
def isSpace (c : Char) : Bool :=
  let n := c.toNat
  (9 ≤ n && n ≤ 13) || n == 32 || n == 0x85 || n == 0xA0 || n == 0x1680
    || (0x2000 ≤ n && n ≤ 0x200A) || n == 0x2028 || n == 0x2029 || n == 0x202F || n == 0x205F
    || n == 0x3000

/-- There is nothing but space in the text. -/
def isBlank (s : String) : Bool :=
  s.toList.all isSpace

/-! ## §3. The issues of a rule. -/

namespace Rule

/-- The id by which a rule is told. -/
def knownId (r : Rule) : Option String :=
  if isBlank r.id then none else some r.id

/-- The issues with the id of a rule, after rules with these ids. -/
def idIssues (earlier : List String) (r : Rule) : List Issue :=
  if isBlank r.id then [.missing none .id]
  else if earlier.contains r.id then [.repeatedId r.id]
  else []

/-- The issues with the query of a rule. -/
def queryIssues (r : Rule) : List Issue :=
  if isBlank r.query.source then [.missing r.knownId .pattern] else []

/-- The issues with one name that a rule binds. -/
def bindingIssues (r : Rule) (binding : String × String) : List Issue :=
  (if binding.1 = nodeBinding then [.reservedName r.knownId] else [])
    ++ (if isBlank binding.2 then [.missing r.knownId .binding] else [])

/-- The name is bound when the template is filled. -/
def binds (r : Rule) (name : String) : Bool :=
  name == nodeBinding || (r.bindings.map Prod.fst).contains name

/-- The issues with the template of a rule. -/
def templateIssues (r : Rule) : List Issue :=
  match r.operation.template? with
  | none => []
  | some source =>
      let names := ({ source := Text.ofString source : Template }).placeholders.map Text.toStr
      (if source.isEmpty then [.missing r.knownId .template] else [])
        ++ (names.filter (!r.binds ·)).map (.unboundName r.knownId)

/-- The issues of a rule, after rules with these ids. -/
def issues (earlier : List String) (r : Rule) : List Issue :=
  r.idIssues earlier ++ r.queryIssues ++ r.bindings.flatMap r.bindingIssues ++ r.templateIssues

end Rule

/-! ## §4. The issues of a rule file. -/

/-- The issues of rules in turn, after rules with these ids. -/
def issuesAmong (earlier : List String) : List Rule → List Issue
  | [] => []
  | r :: rest => r.issues earlier ++ issuesAmong (r.id :: earlier) rest

namespace RuleFile

/-- The issue with the language of a rule file. -/
def languageIssues (f : RuleFile) : List Issue :=
  match f.info.lang with
  | some name => if (Language.ofName? name).isSome then [] else [.unknownLanguage name]
  | none => []

/-- The issue with a glob. -/
def globIssues (source : String) : List Issue :=
  match Glob.compile source with
  | .ok _ => []
  | .error cause => [.badGlob source cause]

/-- All issues of a rule file. -/
def issues (f : RuleFile) : List Issue :=
  (if f.rules.isEmpty then [.noRules] else []) ++ f.languageIssues
    ++ (f.info.includes ++ f.info.excludes).flatMap globIssues ++ issuesAmong [] f.rules

end RuleFile

end StructuralEdit
