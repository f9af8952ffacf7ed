/-
  StructuralEdit.Pattern.Search
  ─────────────────────────────
  **THE NODES OF A SCOPE THAT MATCH A PATTERN.**

  A search starts at the node that has the scope's span and kind, visits its
  subtree in pre-order and keeps what lies within the scope.  Each match is then
  LOCATED in the scope by span and kind: of several nodes with the same span the
  innermost of the right kind is meant.
-/
import StructuralEdit.Pattern.Match

namespace StructuralEdit

namespace Node

/-- Climb from a tree with these ancestors while the span stays `[start, stop)`,
at most up to `scope`: the first node of the kind, else the node the climb began
at. -/
def climbSameSpan (scope : Node) (start stop : Nat) (kind : String) :
    Tree → List (Nat × Tree) → Option Node
  | t, above =>
      let here : Node := { tree := t, above := above }
      if !here.hasSpan start stop then none
      else if here.kind == kind || here.id == scope.id then some here
      else match above with
        | [] => some here
        | (_, up) :: rest =>
            (climbSameSpan scope start stop kind up rest).filter (·.kind == kind) <|> some here

/-- The node at or below `scope` with exactly this span, the innermost of the
given kind if there is one. -/
def locate (scope : Node) (start stop : Nat) (kind : String) : Option Node :=
  let inner := scope.covering start stop
  climbSameSpan scope start stop kind inner.tree inner.above

end Node

namespace Pattern

/-- The nodes at or below `n` that match, in pre-order. -/
def findAll (p : Pattern) (text : Text) (n : Node) : List Node :=
  n.subtree.filter fun m => p.accepts text m.tree

/-- The nodes of `scope`, itself included, that match the pattern, in document
order; `root` is the root of the tree that `scope` belongs to. -/
def search (p : Pattern) (text : Text) (root scope : Node) : List Node :=
  let found := p.findAll text (root.enclosing scope.label)
  let inside := found.filter fun m => scope.start ≤ m.start && m.stop ≤ scope.stop
  inDocumentOrder (inside.filterMap fun m => scope.locate m.start m.stop m.kind)

end Pattern

end StructuralEdit
