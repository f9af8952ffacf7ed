/-
  StructuralEdit.Payload
  ──────────────────────
  **FROM SELECTED NODES TO EDITS.**

  An intent says what happens to each selected node and a payload says with what
  text; an absent payload leaves its node alone.  `schedule` goes through the
  nodes in order, asks a callback for each payload, and puts the edits at the end
  of a queue.  The callback may keep a state of its own.  Where it fails, the
  edits of the nodes before are queued already and stay so.
-/
import StructuralEdit.Edit
import StructuralEdit.Selection

namespace StructuralEdit

/-- What a callback gives for one node: a text, or nothing to do. -/
abbrev Payload := Option Text

/-- What is done to each selected node. -/
inductive Intent where
  | remove
  | prepend
  | append
  | replace
  deriving DecidableEq, Repr

/-- The edit for one node.  Removing needs no payload. -/
def Intent.edit? (intent : Intent) (n : Node) (payload : Payload) : Option Edit :=
  match intent with
  | .remove => some ⟨n.start, n.stop, []⟩
  | .prepend => payload.map fun t => Edit.inserting n.start t
  | .append => payload.map fun t => Edit.inserting n.stop t
  | .replace => payload.map fun t => ⟨n.start, n.stop, t⟩

/-- A callback with a state: asked for the payload of a node. -/
abbrev Callback (σ : Type) := σ → Node → Except SelectionError Payload × σ

/-- What scheduling leaves behind. -/
structure Scheduled (σ : Type) where
  queue : List Edit
  state : σ
  error : Option SelectionError := none

/-- Queue an edit for each node in order, until the callback fails. -/
def scheduleNodes {σ : Type} (intent : Intent) (callback : Callback σ) :
    List Node → List Edit → σ → Scheduled σ
  | [], queue, state => { queue := queue, state := state }
  | n :: rest, queue, state =>
      match callback state n with
      | (.error e, state) => { queue := queue, state := state, error := some e }
      | (.ok payload, state) =>
          scheduleNodes intent callback rest (queue ++ (intent.edit? n payload).toList) state

/-- Queue an edit for each node of a selection. -/
def Selection.schedule {σ : Type} (s : Selection .root) (intent : Intent) (callback : Callback σ)
    (queue : List Edit) (state : σ) : Scheduled σ :=
  scheduleNodes intent callback s.nodes queue state

/-- Queue the removal of each node of a selection. -/
def Selection.remove (s : Selection .root) (queue : List Edit) : List Edit :=
  queue ++ s.nodes.filterMap fun n => Intent.remove.edit? n none

end StructuralEdit
