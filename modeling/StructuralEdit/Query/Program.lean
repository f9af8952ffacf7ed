/-
  StructuralEdit.Query.Program
  ────────────────────────────
  **QUERIES AS LISTS OF STEPS.**

  To run a clause its form is laid out flat.  Each step consumes one node, at a
  depth counted from where the clause started; a step that asks for something
  below a node has a greater depth than the step for that node, and siblings
  have the same depth.  Choices and repetitions become alternatives:

    • a step may name another step at which a match could go on INSTEAD;
    • a `fork` consumes no node: the match goes on behind it, and also at its
      alternative (the way back of a repetition);
    • a `jump` consumes no node and only leads to its alternative (the end of a
      branch of a choice).

  The step number one past the end means that the clause has matched.
-/
import StructuralEdit.Query.Form

namespace StructuralEdit.Query

/-! ## §1. Steps. -/

/-- What a step is for. -/
inductive Role where
  /-- It consumes a node. -/
  | consume
  /-- It opens a second way. -/
  | fork
  /-- It leads elsewhere. -/
  | jump
  deriving DecidableEq, Repr

/-- One step of a clause. -/
structure Step where
  test : NodeTest
  depth : Nat
  role : Role := .consume
  missing : Bool := false
  /-- No named node may lie between the last one consumed and this one. -/
  immediate : Bool := false
  /-- No named node may follow this one. -/
  lastChild : Bool := false
  field : Option String := none
  absent : List String := []
  captures : List Nat := []
  alternative : Option Nat := none
  /-- Where the form that starts with this step stands in the query. -/
  offset : Option Nat := none
  deriving Repr

instance : Inhabited Step := ⟨{ test := .any false, depth := 0 }⟩

/-- The steps laid out so far. -/
abbrev Steps := Array Step

namespace Steps

/-- Change one step. -/
def change (s : Steps) (i : Nat) (f : Step → Step) : Steps :=
  s.modify i f

/-- The alternative of a step, provided that it is laid out already. -/
def laidAlternative? (s : Steps) (i limit : Nat) : Option Nat := do
  let a ← (← s[i]?).alternative
  if a < limit then some a else none

/-- The last step of the chain of alternatives that starts at `i`. -/
def chainEnd (s : Steps) (limit : Nat) : Nat → Nat → Nat
  | 0, i => i
  | fuel + 1, i =>
      match s.laidAlternative? i limit with
      | some a => chainEnd s limit fuel a
      | none => i

/-- Change step `i` and the steps further on in its chain of alternatives. -/
def changeForward (f : Step → Step) : Nat → Nat → Steps → Steps
  | 0, _, s => s
  | fuel + 1, i, s =>
      let s := s.change i f
      match s.laidAlternative? i s.size with
      | some a => if i < a then changeForward f fuel a s else s
      | none => s

/-- Change every step of the chain of alternatives that starts at `i`. -/
def changeChain (f : Step → Step) : Nat → Nat → Steps → Steps
  | 0, _, s => s
  | fuel + 1, i, s =>
      let s := s.change i f
      match s.laidAlternative? i s.size with
      | some a => changeChain f fuel a s
      | none => s

/-- Add a capture to a step, which can hold three. -/
def addCapture (id : Nat) (step : Step) : Step :=
  if step.captures.length < 3 then { step with captures := step.captures ++ [id] } else step

/-- Let the form that starts at `first` repeat or be left out. -/
def quantify (q : Quantifier) (depth first : Nat) (s : Steps) : Steps :=
  let again : Step := { test := .any false, depth := depth, role := .fork, alternative := first }
  match q with
  | .atLeastOnce => s.push again
  | .anyNumber =>
      let s : Steps := s.push again
      let last := s.chainEnd (s.size - 1) (s.size + 1) first
      s.change last fun step => { step with alternative := some s.size }
  | .atMostOnce =>
      let last := s.chainEnd s.size (s.size + 1) first
      s.change last fun step => { step with alternative := some s.size }

/-- Link the branches of a choice, each given by where it starts: a branch leads
to the next one as its alternative, and its last step jumps to the end. -/
def linkBranches : List Nat → Steps → Steps
  | first :: next :: rest, s =>
      let size := s.size
      let s := s.change first fun step => { step with alternative := some next }
      let s := s.change (next - 1) fun step =>
        { step with alternative := some size, role := .jump }
      linkBranches (next :: rest) s
  | _, s => s

end Steps

/-! ## §2. Laying out a form. -/

mutual

/-- Lay out a form at a depth; `offset?` is where an enclosing form that starts
with the same step stands. -/
def layOut (depth : Nat) (immediate : Bool) (offset? : Option Nat) : Form → Steps → Steps
  | .node offset test missing absent items, s =>
      let first := s.size
      let s : Steps := s.push
        { test := test, depth := depth, missing := missing, immediate := immediate
          absent := absent, offset := some (offset?.getD offset) }
      layOutItems first (depth + 1) false none items s
  | .choice offset branches, s =>
      layOutBranches depth immediate (some (offset?.getD offset)) [] branches s
  | .siblings offset items, s =>
      layOutSiblings depth immediate (some (offset?.getD offset)) items s
  | .field offset name form, s =>
      let first := s.size
      let s := layOut depth immediate (some (offset?.getD offset)) form s
      s.changeForward (fun step => { step with field := some name }) (s.size + 1) first
  | .quantified q form, s =>
      let first := s.size
      (layOut depth immediate offset? form s).quantify q depth first
  | .captured id form, s =>
      let first := s.size
      let s := layOut depth immediate offset? form s
      s.changeForward (Steps.addCapture id) (s.size + 1) first
  | .anchor, s => s
  | .condition, s => s

/-- Lay out the items of the node at step `parent`; `last` is the step of the
item before. -/
def layOutItems (parent depth : Nat) (immediate : Bool) (last : Option Nat) :
    List Form → Steps → Steps
  | [], s =>
      if immediate then
        s.changeChain (fun step => { step with lastChild := true }) (s.size + 1)
          (last.getD parent)
      else s
  | .anchor :: rest, s => layOutItems parent depth true last rest s
  | .condition :: rest, s => layOutItems parent depth false (some (s.size - 1)) rest s
  | form :: rest, s =>
      layOutItems parent depth false (some s.size) rest (layOut depth immediate none form s)

/-- Lay out siblings one after the other. -/
def layOutSiblings (depth : Nat) (immediate : Bool) (offset? : Option Nat) :
    List Form → Steps → Steps
  | [], s => s
  | .anchor :: rest, s => layOutSiblings depth true offset? rest s
  | form :: rest, s =>
      layOutSiblings depth false none rest (layOut depth immediate offset? form s)

/-- Lay out the branches of a choice; `starts` are those of the branches laid out
already. -/
def layOutBranches (depth : Nat) (immediate : Bool) (offset? : Option Nat) (starts : List Nat) :
    List Form → Steps → Steps
  | [], s => Steps.linkBranches starts s
  | form :: rest, s =>
      let first := s.size
      let s := layOut depth immediate offset? form s
      let s : Steps := if rest.isEmpty then s else s.push { test := .any false, depth := depth }
      layOutBranches depth immediate none (starts ++ [first]) rest s

end

/-- The steps of a form. -/
def stepsOf (form : Form) : Steps :=
  layOut 0 false none form #[]

/-! ## §3. Where a match can begin. -/

/-- A step at which a match of a clause can begin.  A rooted entry has all its
nodes below one. -/
structure EntryPoint where
  clause : Nat
  step : Nat
  rooted : Bool
  deriving Repr

/-- The step does not name a kind. -/
def Step.isOpen (s : Step) : Bool :=
  match s.test with
  | .kind _ _ => false
  | _ => true

/-- All steps after `first`, up to the end of its branch, lie deeper than it. -/
def isRooted (steps : Steps) (first : Nat) : Bool :=
  let depth := (steps[first]?.map (·.depth)).getD 0
  let after := (steps.toList.drop (first + 1)).takeWhile (·.role != .jump)
  depth == 0 && !after.any (·.depth == depth)

/-- A clause that asks for any node with a certain child can as well begin at
the child; the parent is looked at then. -/
def skipsRoot (steps : Steps) (first : Nat) : Bool :=
  match steps[first]?, steps[first + 1]? with
  | some a, some b =>
      a.isOpen && a.depth == 0 && a.field.isNone && !b.isOpen && b.depth == 1 && !b.immediate
  | _, _ => false

/-- The entry points from step `first` on, following alternatives. -/
def entryPointsFrom (steps : Steps) (clause : Nat) : Nat → Nat → Option Nat → List EntryPoint
  | 0, _, _ => []
  | fuel + 1, first, pending =>
      let skips := skipsRoot steps first
      let pending := if skips then (steps[first]?.bind (·.alternative)) else pending
      let start := if skips then first + 1 else first
      match steps[start]? with
      | none => []
      | some step =>
          let entry := { clause := clause, step := start, rooted := isRooted steps start }
          match step.alternative, pending with
          | some a, _ => entry :: entryPointsFrom steps clause fuel a pending
          | none, some a => entry :: entryPointsFrom steps clause fuel a none
          | none, none => [entry]

/-- The entry points of a clause. -/
def entryPoints (steps : Steps) (clause : Nat) : List EntryPoint :=
  entryPointsFrom steps clause (steps.size + 1) 0 none

end StructuralEdit.Query
