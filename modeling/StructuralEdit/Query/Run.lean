/-
  StructuralEdit.Query.Run
  ────────────────────────
  **RUNNING A QUERY OVER A TREE.**

  The tree is walked once, in pre-order.  At each node new threads start for the
  clauses that can begin there, and every thread that waits for a node at this
  depth either admits it, passes it over or dies.  A thread that admits a node
  although a later sibling would do as well leaves a copy behind that waits for
  that sibling.

  Two threads of one clause and one start are rivals.  Of two that stand at the
  same step the one whose captures the other has too is dropped, so that a
  repetition yields its longest match; and a thread that has matched is not
  reported while a rival that holds all it holds is still under way.
-/
import StructuralEdit.Tree
import StructuralEdit.Query.Program

namespace StructuralEdit.Query

/-! ## §1. Threads. -/

/-- What a capture holds: its number and the node. -/
abbrev Capture := Nat × Node

/-- A match of a clause under way. -/
structure Thread where
  clause : Nat
  step : Nat
  /-- The depth at which depth 0 of the clause lies. -/
  startDepth : Nat
  captures : List Capture := []
  /-- The very next node must do. -/
  seeking : Bool := true
  /-- A rival that holds all this thread holds is under way. -/
  hasRival : Bool := false
  /-- The clause began at its second step, and the node above has yet to be
  looked at. -/
  needsParent : Bool := false

/-- The threads under way, and those that have matched, in order. -/
structure Machine where
  threads : List Thread := []
  finished : List Thread := []

/-- A node on the walk, and what surrounds it inside the scope. -/
structure Site where
  node : Node
  depth : Nat
  parent : Option Node
  laterSiblings : List Tree

namespace Site

/-- A named sibling follows. -/
def hasLaterNamed (s : Site) : Bool :=
  s.laterSiblings.any (·.label.named)

/-- The field of the node; the scope itself has none. -/
def field (s : Site) : Option String :=
  s.parent.bind fun _ => s.node.label.field

/-- A sibling under the same field follows. -/
def hasLaterSameField (s : Site) : Bool :=
  s.laterSiblings.any (·.label.field == s.node.label.field)

end Site

/-! ## §2. Admitting a node. -/

/-- The node itself is of the sort a step asks for. -/
def Step.fits (step : Step) (site : Site) : Bool :=
  let l := site.node.label
  match step.test with
  | .any namedOnly => if step.missing then l.isMissing else !l.isError && (l.named || !namedOnly)
  | .kind name named => l.kind == name && l.named == named && (!step.missing || l.isMissing)
  | .family f => !l.isError && f.has l.kind site.field

/-- The step admits the node where it stands. -/
def Step.admits (step : Step) (site : Site) : Bool :=
  step.fits site
    && !(step.lastChild && site.hasLaterNamed)
    && (match step.field with
        | none => true
        | some f => site.field == some f)
    && step.absent.all fun f => (site.node.fieldChild? f).isNone

/-- A later sibling might do as well. -/
def canWait (t : Thread) (step : Step) (site : Site) : Bool :=
  !site.laterSiblings.isEmpty
    && !((step.immediate && site.node.isNamed) || t.seeking)
    && (match step.field with
        | none => true
        | some f => site.field != some f || site.hasLaterSameField)

/-- The step or one below it captures something. -/
def holdsCaptures (steps : Steps) (i : Nat) : Bool :=
  match steps[i]? with
  | none => false
  | some s =>
      !s.captures.isEmpty
        || ((steps.toList.drop (i + 1)).takeWhile (s.depth < ·.depth)).any (!·.captures.isEmpty)

/-- The step asks for something below the node. -/
def hasBelow (steps : Steps) (i : Nat) : Bool :=
  match steps[i]?, steps[i + 1]? with
  | some a, some b => a.depth < b.depth
  | _, _ => false

/-- The step at depth 0 that an entry one step further on has skipped. -/
def skippedRoot? (steps : Steps) (i : Nat) : Option Step :=
  ((steps.toList.take i).reverse).find? fun s => s.role == .consume && s.depth == 0

/-- The captures that a step adds for a node. -/
def capturesOf (step : Step) (n : Node) : List Capture :=
  step.captures.map fun id => (id, n)

/-- Follow forks, jumps and alternatives: all the threads that `t` stands for. -/
def unfold (steps : Steps) : Nat → Thread → List Thread
  | 0, t => [t]
  | fuel + 1, t =>
      match steps[t.step]? with
      | none => [t]
      | some s =>
          match s.alternative with
          | none => [t]
          | some a =>
              match s.role with
              | .jump => unfold steps fuel { t with step := a }
              | .fork =>
                  unfold steps fuel { t with step := t.step + 1 }
                    ++ unfold steps fuel { t with step := a, seeking := true }
              | .consume => t :: unfold steps fuel { t with step := a }

/-- The thread after its step has admitted the node; none if a node above is
needed and there is none. -/
def admitted (steps : Steps) (step : Step) (site : Site) (t : Thread) : List Thread :=
  let next := steps[t.step + 1]?
  let isOpenToken := match step.test with
    | .any true => false
    | .kind _ _ => false
    | _ => true
  let go (above : List Capture) : List Thread :=
    unfold steps (2 * steps.size + 4)
      { t with
        step := t.step + 1
        needsParent := false
        captures := t.captures ++ above ++ capturesOf step site.node
        seeking := isOpenToken && next.any (·.immediate) }
  if t.needsParent then
    match site.parent with
    | none => []
    | some up => go (match skippedRoot? steps t.step with
        | some root => capturesOf root up
        | none => [])
  else go []

/-- What becomes of a thread at a node. -/
def advance (steps : Steps) (site : Site) (t : Thread) : List Thread :=
  let t := { t with hasRival := false }
  match steps[t.step]? with
  | none => [t]
  | some step =>
      if t.startDepth + step.depth != site.depth then [t]
      else if !step.admits site then
        if canWait t step site then [t] else []
      else
        let waits := canWait t step site
          && (holdsCaptures steps t.step || hasBelow steps t.step)
        admitted steps step site t ++ (if waits then [t] else [])

/-! ## §3. Rivals. -/

/-- The order in which captures are compared: earlier start first, then the
longer node. -/
def compareNodes (a b : Node) : Ordering :=
  if a.id == b.id then .eq
  else (Ord.compare a.start b.start).then (Ord.compare b.stop a.stop)

/-- Whether the left captures hold all the right ones, and the other way
round. -/
def compareCaptures : List Capture → List Capture → Bool × Bool
  | [], [] => (true, true)
  | _ :: _, [] => (true, false)
  | [], _ :: _ => (false, true)
  | a :: as, b :: bs =>
      if a.1 == b.1 && a.2.id == b.2.id then compareCaptures as bs
      else match compareNodes a.2 b.2 with
        | .lt => ((compareCaptures as (b :: bs)).1, false)
        | .gt => (false, (compareCaptures (a :: as) bs).2)
        | .eq => (false, false)
termination_by as bs => as.length + bs.length

/-- Compare a thread with its rivals further on; `none` if it is dropped. -/
def faceRivals (t : Thread) : List Thread → Option Thread × List Thread
  | [] => (some t, [])
  | o :: rest =>
      if o.startDepth != t.startDepth || o.clause != t.clause then (some t, o :: rest)
      else
        let (holdsOther, heldByOther) := compareCaptures t.captures o.captures
        if t.step == o.step then
          if holdsOther then faceRivals t rest
          else if heldByOther then (none, o :: rest)
          else
            let (t, rest) := faceRivals t rest
            (t, o :: rest)
        else
          let o := if holdsOther then { o with hasRival := true } else o
          let (t, rest) := faceRivals (if heldByOther then { t with hasRival := true } else t) rest
          (t, o :: rest)

/-- Drop rivals that hold less, and report the threads that have matched. -/
def settle (isDone : Thread → Bool) : Nat → List Thread → Machine → Machine
  | 0, _, m => m
  | _ + 1, [], m => m
  | fuel + 1, t :: rest, m =>
      match faceRivals t rest with
      | (none, rest) => settle isDone fuel rest m
      | (some t, rest) =>
          if isDone t && !t.hasRival then
            settle isDone fuel rest { m with finished := m.finished ++ [t] }
          else settle isDone fuel rest { m with threads := m.threads ++ [t] }

/-! ## §4. Compiled queries. -/

/-- A query ready to run. -/
structure Compiled where
  clauses : Array Steps
  /-- Where clauses can begin, earlier clauses first. -/
  entries : List EntryPoint

namespace Compiled

/-- The steps of a clause. -/
def stepsOf (q : Compiled) (clause : Nat) : Steps :=
  q.clauses.getD clause #[]

/-- The thread has gone through all steps of its clause. -/
def isDone (q : Compiled) (t : Thread) : Bool :=
  (q.stepsOf t.clause).size ≤ t.step

/-- Put a new thread among those under way, which are ordered by depth of start
and clause; here the last comes first.  A thread at the same step makes it
superfluous. -/
def insertThread (t : Thread) : List Thread → List Thread
  | [] => [t]
  | p :: rest =>
      if p.startDepth < t.startDepth || (p.startDepth == t.startDepth && p.clause < t.clause) then
        t :: p :: rest
      else if p.startDepth == t.startDepth && p.clause == t.clause && p.step == t.step then
        p :: rest
      else p :: insertThread t rest

/-- A clause can begin at the node with the step of this entry. -/
def canBegin (q : Compiled) (site : Site) (openSteps : Bool) (e : EntryPoint) : Bool :=
  match (q.stepsOf e.clause)[e.step]? with
  | none => false
  | some step =>
      step.isOpen == openSteps
        && (match step.test with
            | .kind name named => site.node.kind == name && site.node.isNamed == named
            | _ => !site.node.label.isError)
        && (e.rooted || !site.parent.any (·.label.isError))
        && (match step.field with
            | none => true
            | some f => site.field == some f)
        && step.depth ≤ site.depth

/-- Start a thread at an entry. -/
def start (q : Compiled) (site : Site) (threads : List Thread) (e : EntryPoint) : List Thread :=
  let depth := ((q.stepsOf e.clause)[e.step]?.map (·.depth)).getD 0
  (insertThread
    { clause := e.clause, step := e.step, startDepth := site.depth - depth
      needsParent := depth == 1 }
    threads.reverse).reverse

/-- Come to a node. -/
def enter (q : Compiled) (site : Site) (m : Machine) : Machine :=
  let starting := q.entries.filter (q.canBegin site true) ++ q.entries.filter (q.canBegin site false)
  let threads := starting.foldl (q.start site) m.threads
  let threads := threads.flatMap fun t => advance (q.stepsOf t.clause) site t
  settle q.isDone (threads.length + 1) threads { m with threads := [] }

/-- Leave a node: what had to match below it has failed, and what has matched
and was only waiting for rivals is reported. -/
def leave (q : Compiled) (depth : Nat) (m : Machine) : Machine :=
  let ends (t : Thread) := q.isDone t && (depth < t.startDepth || depth == 0)
  let lives (t : Thread) :=
    match (q.stepsOf t.clause)[t.step]? with
    | none => true
    | some step => t.startDepth + step.depth ≤ depth
  { threads := m.threads.filter fun t => !ends t && lives t
    finished := m.finished ++ m.threads.filter ends }

mutual

/-- Walk through a tree with these ancestors. -/
def walk (q : Compiled) (depth : Nat) (parent : Option Node) (above : List (Nat × Tree))
    (later : List Tree) : Tree → Machine → Machine
  | .node l cs, m =>
      let here : Node := { tree := .node l cs, above := above }
      let m := q.enter { node := here, depth := depth, parent := parent, laterSiblings := later } m
      let m := walkAmong q (depth + 1) here 0 cs m
      q.leave depth m

/-- Walk through the children of a node from number `i` on. -/
def walkAmong (q : Compiled) (depth : Nat) (parent : Node) (i : Nat) :
    List Tree → Machine → Machine
  | [], m => m
  | c :: cs, m =>
      let m := walk q depth (some parent) ((i, parent.tree) :: parent.above) cs c m
      walkAmong q depth parent (i + 1) cs m

end

/-- All matches at or below the scope, in the order in which they are found. -/
def run (q : Compiled) (scope : Node) : List Thread :=
  (q.walk 0 none scope.above [] scope.tree {}).finished

end Compiled

end StructuralEdit.Query
