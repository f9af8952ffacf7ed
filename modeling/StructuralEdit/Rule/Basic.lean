/-
  StructuralEdit.Rule.Basic
  ─────────────────────────
  **RULES: WHAT TO FIND, AND WHAT TO DO WITH IT.**

  A rule queries a document, keeps the nodes that contain some text, narrows them
  down, climbs from each of them to an ancestor, and does one operation to what
  this leads to.  The text for the operation comes from a template, in which
  `$NODE` is the node's own text and other placeholders are what further patterns
  find inside the node.

  A rule file holds rules in the order in which they are run, and says which
  files they are meant for.
-/
import StructuralEdit.Document

namespace StructuralEdit

/-- How the nodes that a rule finds are narrowed down. -/
inductive Choice where
  | all
  | first
  | last
  | unique
  deriving DecidableEq, Repr

namespace Choice

/-- Every choice. -/
def every : List Choice := [all, first, last, unique]

/-- The name of a choice. -/
def name : Choice → String
  | all => "all"
  | first => "first"
  | last => "last"
  | unique => "unique"

/-- The choice with a name. -/
def ofName? (s : String) : Option Choice :=
  every.find? (·.name == s)

end Choice

/-- What a rule does to each node. -/
inductive Operation where
  | remove
  | prepend (template : String)
  | append (template : String)
  | replace (template : String)
  deriving DecidableEq, Repr

/-- The template of an operation that needs a text. -/
def Operation.template? : Operation → Option String
  | remove => none
  | prepend t | append t | replace t => some t

/-- The source of a query. -/
def QueryText.source : QueryText → String
  | .pattern s | .tree s => s

/-- A rule. -/
structure Rule where
  id : String
  query : QueryText
  /-- Only nodes that contain this text are kept. -/
  contains : Option String := none
  select : Choice := .all
  /-- The number of levels to climb. -/
  parent : Nat := 0
  operation : Operation
  /-- Names for the template, each once and in order, with a pattern each: the
  first node that it finds is bound to the name. -/
  bindings : List (String × String) := []
  deriving DecidableEq, Repr

/-- The name that is always bound, to the text of the node itself. -/
def nodeBinding : String := "NODE"

/-- What a rule file says about itself and about the files it is for. -/
structure Metadata where
  name : String := ""
  description : Option String := none
  lang : Option String := none
  includes : List String := []
  excludes : List String := []
  deriving DecidableEq, Repr

/-- A rule file. -/
structure RuleFile where
  info : Metadata := {}
  rules : List Rule := []
  deriving DecidableEq, Repr

end StructuralEdit
