/-
  StructuralEdit.Template
  ───────────────────────
  **TEXTS WITH PLACEHOLDERS.**

  A placeholder is `$NAME` or `$$$NAME`, where a name starts with a capital or
  `_` and goes on with capitals, digits and `_` for as long as it can.  Any
  other `$` is plain text.

  `pieces` cuts a source into plain bytes and placeholders, from left to right;
  `Template.build` puts the value bound to its name in place of each
  placeholder, and values are never cut again.
-/
import StructuralEdit.Text
import StructuralEdit.Faults

namespace StructuralEdit

/-! ## §1. Cutting a source into pieces. -/

/-- The dollar sign. -/
def dollar : UInt8 := 36

/-- A byte that a placeholder's name can start with. -/
def isNameStart (b : UInt8) : Bool :=
  b == 95 || (65 ≤ b && b ≤ 90)

/-- A byte that a placeholder's name can go on with. -/
def isNamePart (b : UInt8) : Bool :=
  isNameStart b || (48 ≤ b && b ≤ 57)

/-- The longest name at the front of a text; empty if there is none. -/
def nameAt : Text → Text
  | [] => []
  | b :: t => if isNameStart b then b :: t.takeWhile isNamePart else []

/-- A piece of a template. -/
inductive Piece where
  /-- A byte that stands for itself. -/
  | plain (b : UInt8)
  /-- `$NAME`, or `$$$NAME` if `long`. -/
  | hole (long : Bool) (name : Text)
  deriving DecidableEq, Repr

/-- The bytes of a piece as they stand in the source. -/
def Piece.spelling : Piece → Text
  | .plain b => [b]
  | .hole true name => dollar :: dollar :: dollar :: name
  | .hole false name => dollar :: name

/-- The placeholder at the front of a text.  Three dollars are read as one sign,
whatever follows them. -/
def holeAt (t : Text) : Option Piece :=
  let (long, rest) :=
    if [dollar, dollar, dollar].isPrefixOf t then (true, t.drop 3) else (false, t.drop 1)
  if t.head? == some dollar && !(nameAt rest).isEmpty then some (.hole long (nameAt rest))
  else none

/-- The pieces of a text whose first `skip` bytes belong to a piece already
read. -/
def piecesFrom : Nat → Text → List Piece
  | _, [] => []
  | skip + 1, _ :: t => piecesFrom skip t
  | 0, b :: t =>
      match holeAt (b :: t) with
      | some h => h :: piecesFrom (h.spelling.length - 1) t
      | none => .plain b :: piecesFrom 0 t

/-- The pieces of a source, from left to right. -/
def pieces (source : Text) : List Piece :=
  piecesFrom 0 source

/-! ## §2. Templates. -/

/-- Why no text could be built. -/
inductive TemplateError where
  /-- Nothing is bound to a placeholder's name. -/
  | unbound (name : String)
  /-- The text that was built is not well formed. -/
  | malformed (cause : FormError)
  deriving DecidableEq, Repr

/-- The wording of a template error. -/
def TemplateError.message : TemplateError → String
  | .unbound name => s!"template placeholder `${name}` has no binding"
  | .malformed cause => "snippet is not valid syntax: " ++ cause.message

/-- A source with placeholders, and the values bound so far, the latest first. -/
structure Template where
  source : Text
  bindings : List (Text × Text) := []
  deriving DecidableEq, Repr

namespace Template

/-- Bind a value to a name, in place of an earlier one. -/
def bind (t : Template) (name value : Text) : Template :=
  { t with bindings := (name, value) :: t.bindings }

/-- The names of the placeholders, in order of first appearance. -/
def placeholders (t : Template) : List Text :=
  ((pieces t.source).filterMap holeName).foldl
    (fun seen name => if seen.contains name then seen else seen ++ [name]) []
where
  holeName : Piece → Option Text
    | .plain _ => none
    | .hole _ name => some name

/-- The text that takes the place of a piece. -/
def fill (t : Template) : Piece → Except TemplateError Text
  | .plain b => .ok [b]
  | .hole _ name =>
      match t.bindings.lookup name with
      | some value => .ok value
      | none => .error (.unbound name.toStr)

/-- The source with each placeholder replaced; the first unbound one, from left
to right, is the error. -/
def build (t : Template) : Except TemplateError Text := do
  return (← (pieces t.source).mapM t.fill).flatten

end Template

/-- The snippet is well formed on its own. -/
def checkSnippet (parser : Parser) (lang : Language) (snippet : Text) :
    Except TemplateError Unit :=
  (checkForm parser lang snippet).mapError .malformed

end StructuralEdit
