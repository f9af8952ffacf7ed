/-
  StructuralEdit.Faults
  ─────────────────────
  **WHERE A PARSER STUMBLED.**

  A fault is an error node or a missing one.  `Tree.faults` collects them in
  pre-order and does not enter a subtree that the parser marked as free of
  errors.  A text is well formed when its tree has no fault.
-/
import StructuralEdit.Parser
import StructuralEdit.Point

namespace StructuralEdit

/-- The node is an error, or missing. -/
def Label.isFault (l : Label) : Bool :=
  l.isError || l.isMissing

/-- Where a fault starts and ends, as offsets and as points. -/
structure Fault where
  start : Nat
  stop : Nat
  startPoint : Point
  stopPoint : Point
  deriving DecidableEq, Repr

/-- What is told of a node of the tree of `text`, should it be a fault. -/
def Label.fault (text : Text) (l : Label) : Fault :=
  { start := l.start
    stop := l.stop
    startPoint := text.pointAt l.start
    stopPoint := text.pointAt l.stop }

mutual

/-- The faults of a tree of `text`, in pre-order; clean subtrees are skipped. -/
def Tree.faults (text : Text) : Tree → List Fault
  | .node l cs =>
      (if l.isFault then [l.fault text] else [])
        ++ (if l.hasError then Tree.faultsAmong text cs else [])

/-- The faults of several trees. -/
def Tree.faultsAmong (text : Text) : List Tree → List Fault
  | [] => []
  | c :: cs => Tree.faults text c ++ Tree.faultsAmong text cs

end

/-- Why a text is not well formed. -/
inductive FormError where
  /-- There is no tree at all. -/
  | unparsable
  /-- One fault, and where it is. -/
  | single (start stop : Nat)
  /-- Several faults, and how many. -/
  | several (count : Nat)
  deriving DecidableEq, Repr

/-- The wording of a form error. -/
def FormError.message : FormError → String
  | .unparsable => "failed to parse source code"
  | .single start stop => s!"syntax error detected at byte {start}..{stop}"
  | .several count => s!"multiple syntax errors detected: {count} ERROR nodes"

/-- The tree of `text` has no fault. -/
def Tree.checkForm (text : Text) (t : Tree) : Except FormError Unit :=
  match t.faults text with
  | [] => .ok ()
  | [only] => .error (.single only.start only.stop)
  | many => .error (.several many.length)

/-- The text parses without a fault. -/
def checkForm (parser : Parser) (lang : Language) (t : Text) : Except FormError Unit :=
  match parser.parse lang t with
  | none => .error .unparsable
  | some tree => tree.checkForm t

end StructuralEdit
