/-
  StructuralEdit.Tree
  ───────────────────
  **CONCRETE PARSE TREES AND THE NODES IN THEM.**

  A `Tree` is a rose tree of labels: kind, span, field name and the flags a
  parser sets.  A `Node` is a PLACE in a tree: the subtree that stands there,
  together with everything above it.  So a node knows its parent and its
  children, two equal subtrees at two places are two nodes, and the path of
  child numbers, `Node.id`, tells the nodes of one tree apart.

  Three ways through a tree are given, each by recursion on the tree itself:

    • `Node.subtree`      — the node and all below it, in pre-order;
    • `Node.covering`     — the smallest node below that spans a byte range;
    • `Node.enclosing`    — the way down to the node with a given span and kind.
-/
import StructuralEdit.Sorting
import StructuralEdit.Text

namespace StructuralEdit

/-! ## §1. Trees. -/

/-- What a parser says about one node of its tree. -/
structure Label where
  /-- Grammar kind; an anonymous node's kind is the text of its token. -/
  kind : String
  start : Nat
  stop : Nat
  named : Bool := true
  /-- The parser could not make sense of this stretch of text. -/
  isError : Bool := false
  /-- The parser put this node in although its text is not there. -/
  isMissing : Bool := false
  /-- The node may stand anywhere, as comments may. -/
  isExtra : Bool := false
  /-- This node or one below it is an error or missing. -/
  hasError : Bool := false
  /-- The field of the parent under which the node is stored. -/
  field : Option String := none
  deriving DecidableEq, Repr

/-- A parse tree. -/
inductive Tree where
  | node (label : Label) (children : List Tree)
  deriving Repr

namespace Tree

/-- The label at the root. -/
def label : Tree → Label
  | node l _ => l

/-- The trees right below the root, in order. -/
def children : Tree → List Tree
  | node _ cs => cs

/-- Give a row of the pre-order listing the trees that belong below it. -/
def attach (row : Nat × Label) (forest : List (Nat × Tree)) : List (Nat × Tree) :=
  let below := forest.takeWhile (row.1 < ·.1)
  (row.1, node row.2 (below.map (·.2))) :: forest.drop below.length

/-- The tree with this pre-order listing of depths and labels; the root has
depth 0. -/
def ofPreorder? (rows : List (Nat × Label)) : Option Tree :=
  match rows.foldr attach [] with
  | [(0, t)] => some t
  | _ => none

end Tree

/-! ## §2. Nodes. -/

/-- A place in a tree: the subtree there, and above it, nearest first, each
ancestor with the number of the child that leads here. -/
structure Node where
  tree : Tree
  above : List (Nat × Tree) := []
  deriving Repr

namespace Node

/-- The node at the root of a tree. -/
def root (t : Tree) : Node :=
  { tree := t }

/-- The child numbers from the node up to the root. -/
def id (n : Node) : List Nat :=
  n.above.map (·.1)

/-- The label of the node. -/
def label (n : Node) : Label :=
  n.tree.label

/-- The grammar kind. -/
def kind (n : Node) : String :=
  n.label.kind

/-- The offset of the first byte. -/
def start (n : Node) : Nat :=
  n.label.start

/-- The offset after the last byte. -/
def stop (n : Node) : Nat :=
  n.label.stop

/-- The node is named by its grammar, and not a mere token. -/
def isNamed (n : Node) : Bool :=
  n.label.named

/-- The node covers exactly `[start, stop)`. -/
def hasSpan (n : Node) (start stop : Nat) : Bool :=
  n.start == start && n.stop == stop

/-- The bytes of `t` that the node covers. -/
def text (n : Node) (t : Text) : Text :=
  t.slice n.start n.stop

/-- The node one level up. -/
def parent? (n : Node) : Option Node :=
  match n.above with
  | [] => none
  | (_, t) :: rest => some { tree := t, above := rest }

/-- The child number `i`, given its subtree. -/
def child (n : Node) (i : Nat) (t : Tree) : Node :=
  { tree := t, above := (i, n.tree) :: n.above }

/-- The nodes one level down, in order. -/
def children (n : Node) : List Node :=
  n.tree.children.mapIdx n.child

/-- The named children, in order. -/
def namedChildren (n : Node) : List Node :=
  n.children.filter (·.isNamed)

/-- The first child stored under a field. -/
def fieldChild? (n : Node) (field : String) : Option Node :=
  n.children.find? (·.label.field == some field)

/-- How a node is shown: kind and half-open span. -/
def describe (n : Node) : String :=
  s!"{n.kind} [{n.start}..{n.stop})"

end Node

/-! ## §3. All nodes, in pre-order. -/

mutual

/-- The tree's nodes in pre-order, the tree standing below `above`. -/
def Tree.nodesBelow (above : List (Nat × Tree)) : Tree → List Node
  | .node l cs =>
      { tree := .node l cs, above := above } :: Tree.nodesAmong (.node l cs) above 0 cs

/-- The nodes in pre-order of the children of `parent` from number `i` on. -/
def Tree.nodesAmong (parent : Tree) (above : List (Nat × Tree)) (i : Nat) :
    List Tree → List Node
  | [] => []
  | c :: cs =>
      Tree.nodesBelow ((i, parent) :: above) c ++ Tree.nodesAmong parent above (i + 1) cs

end

/-- The node and everything below it, in pre-order. -/
def Node.subtree (n : Node) : List Node :=
  n.tree.nodesBelow n.above

/-! ## §4. The smallest node that spans a range. -/

/-- A child reaches the end of `[start, stop)` and goes beyond its start; an
empty child need only touch the start. -/
def Label.reaches (l : Label) (start stop : Nat) : Bool :=
  stop ≤ l.stop && (if l.start == l.stop then start ≤ l.stop else start < l.stop)

mutual

/-- The smallest node of the tree that spans `[start, stop)`, the tree itself
for want of a smaller one. -/
def Tree.coveringBelow (start stop : Nat) (above : List (Nat × Tree)) : Tree → Node
  | .node l cs =>
      (Tree.coveringAmong start stop (.node l cs) above 0 cs).getD
        { tree := .node l cs, above := above }

/-- The same below the first child that reaches the range, unless that child
starts too late. -/
def Tree.coveringAmong (start stop : Nat) (parent : Tree) (above : List (Nat × Tree))
    (i : Nat) : List Tree → Option Node
  | [] => none
  | c :: cs =>
      if c.label.reaches start stop then
        if start < c.label.start then none
        else some (Tree.coveringBelow start stop ((i, parent) :: above) c)
      else Tree.coveringAmong start stop parent above (i + 1) cs

end

/-- The smallest node at or below `n` that spans `[start, stop)`. -/
def Node.covering (n : Node) (start stop : Nat) : Node :=
  n.tree.coveringBelow start stop n.above

/-! ## §5. The way down to a given span and kind. -/

mutual

/-- Go down, each time to the first child that encloses the span, until the
span and kind are those of `target` or no child encloses it. -/
def Tree.enclosingBelow (target : Label) (above : List (Nat × Tree)) : Tree → Node
  | .node l cs =>
      if l.start == target.start && l.stop == target.stop && l.kind == target.kind then
        { tree := .node l cs, above := above }
      else
        (Tree.enclosingAmong target (.node l cs) above 0 cs).getD
          { tree := .node l cs, above := above }

/-- The same below the first child that encloses the span. -/
def Tree.enclosingAmong (target : Label) (parent : Tree) (above : List (Nat × Tree))
    (i : Nat) : List Tree → Option Node
  | [] => none
  | c :: cs =>
      if c.label.start ≤ target.start && target.stop ≤ c.label.stop then
        some (Tree.enclosingBelow target ((i, parent) :: above) c)
      else Tree.enclosingAmong target parent above (i + 1) cs

end

/-- The node at or below `n` with the span and kind of `target`, or the
innermost one on the way there. -/
def Node.enclosing (n : Node) (target : Label) : Node :=
  n.tree.enclosingBelow target n.above

/-! ## §6. Document order. -/

/-- Earlier start first, and of two nodes with one start the longer first. -/
def Node.precedes (a b : Node) : Bool :=
  a.start < b.start || (a.start == b.start && b.stop ≤ a.stop)

/-- Keep of neighbouring occurrences of one node the first. -/
def dropRepeats : List Node → List Node
  | [] => []
  | n :: ns =>
      match dropRepeats ns with
      | [] => [n]
      | m :: ms => if n.id == m.id then n :: ms else n :: m :: ms

/-- The nodes sorted by start, enclosing nodes first, neighbouring occurrences
of one node being merged. -/
def inDocumentOrder (nodes : List Node) : List Node :=
  dropRepeats (sortBy Node.precedes nodes)

end StructuralEdit
