/-
  StructuralEdit.Selection
  ────────────────────────
  **SELECTIONS OF NODES.**

  A selection is either MANY nodes, none included, in the order in which they
  were found, or a SINGLE node.  Narrowing turns the one into the other and
  fails when the number of nodes is wrong.  Filtering many nodes keeps some;
  filtering a single node either keeps it or fails.

  A selection also has a tier.  A `root` selection comes from a document's own
  query and may schedule edits; a `derived` one comes from a query inside a node
  and is for reading only.
-/
import StructuralEdit.Template
import StructuralEdit.Pattern.Search
import StructuralEdit.Query.Basic

namespace StructuralEdit

/-! ## §1. Errors. -/

/-- Why a selection cannot be made, narrowed or used. -/
inductive SelectionError where
  /-- One node was wanted and there is none. -/
  | isEmpty
  /-- Exactly one node was wanted. -/
  | notExactlyOne (count : Nat)
  /-- The single node does not satisfy the predicate. -/
  | rejected (kind : String) (pos : Nat)
  /-- The node is the root of its tree. -/
  | noParent (kind : String) (pos : Nat)
  | pattern (cause : PatternError)
  | query (cause : QueryError)
  | template (cause : TemplateError)
  deriving DecidableEq, Repr

namespace SelectionError

/-- The wording of a selection error. -/
def message : SelectionError → String
  | isEmpty => "selection is empty"
  | notExactlyOne count => s!"selection has {count} nodes, expected exactly 1"
  | rejected kind pos => s!"predicate rejected the selected `{kind}` node at byte {pos}"
  | noParent kind pos => s!"`{kind}` node at byte {pos} has no parent"
  | pattern cause => "pattern error: " ++ cause.message
  | query cause => "query error: " ++ cause.message
  | template cause => "template error: " ++ cause.message

/-- The wordings of what lies behind an error, nearest first. -/
def causes : SelectionError → List String
  | pattern cause => [cause.message]
  | query cause => [cause.message]
  | template (.unbound name) => [(TemplateError.unbound name).message]
  | template (.malformed cause) => [(TemplateError.malformed cause).message, cause.message]
  | _ => []

end SelectionError

/-! ## §2. Selections. -/

/-- What a selection may be used for. -/
inductive Tier where
  /-- Reading and editing. -/
  | root
  /-- Reading only. -/
  | derived
  deriving DecidableEq, Repr

/-- A predicate on nodes that may keep a state of its own. -/
abbrev Predicate (σ : Type) := σ → Node → Bool × σ

/-- Nodes of one document. -/
inductive Selection (tier : Tier) where
  | many (nodes : List Node)
  | single (node : Node)
  deriving Repr

namespace Selection

variable {tier : Tier}

/-- The selected nodes, in order. -/
def nodes : Selection tier → List Node
  | many ns => ns
  | single n => [n]

/-- The number of selected nodes. -/
def size (s : Selection tier) : Nat :=
  s.nodes.length

/-- The first node alone. -/
def first : Selection tier → Except SelectionError (Selection tier)
  | many (n :: _) => .ok (single n)
  | many [] => .error .isEmpty
  | single n => .ok (single n)

/-- The last node alone. -/
def last : Selection tier → Except SelectionError (Selection tier)
  | many ns =>
      match ns.getLast? with
      | some n => .ok (single n)
      | none => .error .isEmpty
  | single n => .ok (single n)

/-- The only node. -/
def unique : Selection tier → Except SelectionError (Selection tier)
  | many [n] => .ok (single n)
  | many ns => .error (.notExactlyOne ns.length)
  | single n => .ok (single n)

/-- The nodes that satisfy a predicate, which is asked in order. -/
def keepNodes {σ : Type} (p : Predicate σ) : List Node → σ → List Node × σ
  | [], state => ([], state)
  | n :: rest, state =>
      let (keep, state) := p state n
      let (kept, state) := keepNodes p rest state
      (if keep then n :: kept else kept, state)

/-- The nodes that satisfy a predicate; a single node that does not is an
error. -/
def filterWith {σ : Type} (p : Predicate σ) (state : σ) :
    Selection tier → Except SelectionError (Selection tier) × σ
  | many ns =>
      let (kept, state) := keepNodes p ns state
      (.ok (many kept), state)
  | single n =>
      let (keep, state) := p state n
      (if keep then .ok (single n) else .error (.rejected n.kind n.start), state)

/-- The same with a predicate that keeps no state. -/
def filter (p : Node → Bool) (s : Selection tier) : Except SelectionError (Selection tier) :=
  (s.filterWith (fun (_ : Unit) n => (p n, ())) ()).1

/-- The parent of a node. -/
def parentOf (n : Node) : Except SelectionError Node :=
  match n.parent? with
  | some up => .ok up
  | none => .error (.noParent n.kind n.start)

/-- Every node replaced by its parent; siblings give their parent twice. -/
def parent : Selection tier → Except SelectionError (Selection tier)
  | many ns => many <$> ns.mapM parentOf
  | single n => single <$> parentOf n

/-- Go up `levels` times. -/
def climb : Nat → Selection tier → Except SelectionError (Selection tier)
  | 0, s => .ok s
  | levels + 1, s => s.parent >>= climb levels

/-- How a selection is shown. -/
def describe (s : Selection tier) : String :=
  let cardinality := match s with
    | many _ => "Many"
    | single _ => "Single"
  let level := match tier with
    | .root => "Root"
    | .derived => "Derived"
  let shown := ", ".intercalate (s.nodes.map Node.describe)
  "Selection \x7b cardinality: \"tree_splice::selection::" ++ cardinality
    ++ "\", tier: \"tree_splice::selection::" ++ level ++ "\", nodes: [" ++ shown ++ "] \x7d"

end Selection

end StructuralEdit
