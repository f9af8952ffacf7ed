/-
  StructuralEdit.Query.Requirement
  ────────────────────────────────
  **CONDITIONS ON CAPTURED TEXTS.**

  A condition compares the text of what a capture holds with a text, with what
  another capture holds, with a regular expression, or with a list of texts.  A
  capture may hold several nodes; the plain forms ask for all of them, the
  `any-` forms are content with one.  Conditions with other names are accepted
  and ask for nothing, but those that set or test properties must at least be
  well formed.
-/
import StructuralEdit.Text
import StructuralEdit.Query.Form
import StructuralEdit.Query.Regex

namespace StructuralEdit.Query

/-- How the nodes of a capture are judged: what a good node looks like, and
whether all have to be good. -/
structure Judgement where
  positive : Bool
  all : Bool
  deriving DecidableEq, Repr

/-- What a condition asks for. -/
inductive Requirement where
  | sameText (a b : Nat) (judged : Judgement)
  | isText (a : Nat) (text : Text) (judged : Judgement)
  | fits (a : Nat) (regex : Regex) (judged : Judgement)
  | isOneOf (a : Nat) (texts : List Text) (positive : Bool)

/-! ## §1. Making sense of a condition. -/

/-- The number of arguments is wrong. -/
def wrongCount (predicate expected : String) (got : Nat) : String :=
  s!"Wrong number of arguments to {predicate} predicate. Expected {expected}, got {got}."

/-- The first argument has to be a capture. -/
def firstCapture (predicate : String) : Argument → Except String Nat
  | .capture id => .ok id
  | .literal s =>
      .error s!"First argument to {predicate} predicate must be a capture name. Got literal \"{s}\"."

/-- The display of a capture. -/
def captureName (captures : List String) (id : Nat) : String :=
  captures.getD id ""

/-- A condition about equality. -/
def equality (j : Judgement) (arguments : List Argument) : Except String Requirement :=
  match arguments with
  | [first, second] => do
      let a ← firstCapture "#eq?" first
      match second with
      | .capture b => return .sameText a b j
      | .literal s => return .isText a (Text.ofString s) j
  | _ => .error (wrongCount "#eq?" "2" arguments.length)

/-- A condition about a regular expression. -/
def fitting (captures : List String) (j : Judgement) (arguments : List Argument) :
    Except String Requirement :=
  match arguments with
  | [first, second] => do
      let a ← firstCapture "#match?" first
      match second with
      | .capture b =>
          let name := captureName captures b
          throw s!"Second argument to #match? predicate must be a literal. Got capture @{name}."
      | .literal s =>
          match Regex.ofString? s with
          | some r => return .fits a r j
          | none => throw s!"Invalid regex '{s}'"
  | _ => .error (wrongCount "#match?" "2" arguments.length)

/-- A text of a list of texts. -/
def listedText (captures : List String) : Argument → Except String Text
  | .literal s => .ok (Text.ofString s)
  | .capture id =>
      let name := captureName captures id
      .error s!"Arguments to #any-of? predicate must be literals. Got capture @{name}."

/-- A condition about a list of texts. -/
def membership (captures : List String) (positive : Bool) (arguments : List Argument) :
    Except String Requirement :=
  match arguments with
  | [] => .error (wrongCount "#any-of?" "at least 1" 0)
  | first :: rest => do
      let a ← firstCapture "#any-of?" first
      return .isOneOf a (← rest.mapM (listedText captures)) positive

/-- What the arguments of a property hold so far. -/
structure PropertyRead where
  captured : Bool := false
  texts : Nat := 0

/-- One more argument of a property: one capture, a key and a value. -/
def propertyArgument (captures : List String) (name : String) (r : PropertyRead) :
    Argument → Except String PropertyRead
  | .capture id =>
      let second := captureName captures id
      if r.captured then
        .error s!"Invalid arguments to {name} predicate. Unexpected second capture name @{second}"
      else .ok { r with captured := true }
  | .literal s =>
      if r.texts < 2 then .ok { r with texts := r.texts + 1 }
      else .error s!"Invalid arguments to {name} predicate. Unexpected third argument @{s}"

/-- A property is well formed. -/
def checkProperty (captures : List String) (name : String) (arguments : List Argument) :
    Except String Unit :=
  if arguments.isEmpty || 3 < arguments.length then
    .error (wrongCount name "1 to 3" arguments.length)
  else do
    let r ← arguments.foldlM (propertyArgument captures name) {}
    if r.texts == 0 then
      throw s!"Invalid arguments to {name} predicate. Missing key argument"

/-- What a condition asks for; `none` if it asks for nothing. -/
def Condition.requirement? (captures : List String) (c : Condition) :
    Except String (Option Requirement) :=
  match c.name with
  | "eq?" => some <$> equality ⟨true, true⟩ c.arguments
  | "not-eq?" => some <$> equality ⟨false, true⟩ c.arguments
  | "any-eq?" => some <$> equality ⟨true, false⟩ c.arguments
  | "any-not-eq?" => some <$> equality ⟨false, false⟩ c.arguments
  | "match?" => some <$> fitting captures ⟨true, true⟩ c.arguments
  | "not-match?" => some <$> fitting captures ⟨false, true⟩ c.arguments
  | "any-match?" => some <$> fitting captures ⟨true, false⟩ c.arguments
  | "any-not-match?" => some <$> fitting captures ⟨false, false⟩ c.arguments
  | "any-of?" => some <$> membership captures true c.arguments
  | "not-any-of?" => some <$> membership captures false c.arguments
  | "set!" | "is?" | "is-not?" => do
      checkProperty captures c.name c.arguments
      return none
  | _ => .ok none

/-! ## §2. Meeting a requirement. -/

/-- Judge the nodes of a capture one by one; each is given as whether it agrees.
No node at all is fine. -/
def Judgement.holds (j : Judgement) : List Bool → Bool
  | [] => true
  | agrees :: rest =>
      let good := agrees == j.positive
      if j.all then (if good then j.holds rest else false)
      else if good then true
      else j.holds rest

/-- Judge two captures node by node; in the end both have to be used up. -/
def Judgement.holdsPairwise (j : Judgement) : List Text → List Text → Bool
  | [], [] => true
  | a :: as, b :: bs =>
      let good := (a == b) == j.positive
      if j.all then (if good then j.holdsPairwise as bs else false)
      else if good then true
      else j.holdsPairwise as bs
  | _, _ => false

/-- The texts that the captures hold meet the requirement. -/
def Requirement.isMet (texts : Nat → List Text) : Requirement → Bool
  | .sameText a b j => j.holdsPairwise (texts a) (texts b)
  | .isText a text j => j.holds ((texts a).map (· == text))
  | .fits a r j => j.holds ((texts a).map fun t => r.isMatch t.toStr)
  | .isOneOf a listed positive => (texts a).all fun t => listed.contains t == positive

end StructuralEdit.Query
