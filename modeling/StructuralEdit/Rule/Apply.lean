/-
  StructuralEdit.Rule.Apply
  ─────────────────────────
  **RUNNING RULES ON A DOCUMENT.**

  Rules run in order.  Each one queues its edits and commits them before the next
  one runs, so later rules see the text that earlier ones left.  The first rule
  that fails ends the run; the document then is what the rules before it made of
  it, together with whatever edits are still queued.
-/
import StructuralEdit.Rule.Basic

namespace StructuralEdit

/-! ## §1. Errors. -/

/-- Why a document cannot be transformed. -/
inductive TransformError where
  | selection (cause : SelectionError)
  | document (cause : DocumentError)
  deriving DecidableEq, Repr

/-- The wording of a transform error is that of its cause. -/
def TransformError.message : TransformError → String
  | .selection cause => cause.message
  | .document cause => cause.message

/-! ## §2. One rule. -/

namespace Rule

/-- Bind each name to the text of the first node that its pattern finds inside
the node; nothing if one of them finds none. -/
def bindAll (n : Node) : List (String × String) → Template → Document →
    Except SelectionError (Option Template) × Document
  | [], t, d => (.ok (some t), d)
  | (name, pattern) :: rest, t, d =>
      match d.queryInside n (.pattern pattern) with
      | (.error e, d) => (.error e, d)
      | (.ok found, d) =>
          match found.nodes.head? with
          | none => (.ok none, d)
          | some m => bindAll n rest (t.bind (Text.ofString name) (m.text d.text)) d

/-- The template filled in for a node; nothing if a pattern finds no node.  As a
callback it has the document that it queries for a state. -/
def render (r : Rule) (template : String) : Callback Document := fun d n =>
  let blank : Template := { source := Text.ofString template }
  match bindAll n r.bindings (blank.bind (Text.ofString nodeBinding) (n.text d.text)) d with
  | (.error e, d) => (.error e, d)
  | (.ok none, d) => (.ok none, d)
  | (.ok (some t), d) => (some <$> t.build.mapError .template, d)

/-- The nodes that a rule keeps: those that contain its text, if it has one. -/
def keeps (r : Rule) (d : Document) (n : Node) : Bool :=
  match r.contains with
  | some needle => Text.hasInfix (Text.ofString needle) (n.text d.text)
  | none => true

/-- Narrow a selection down. -/
def narrow (r : Rule) (s : Selection .root) : Except SelectionError (Selection .root) :=
  match r.select with
  | .all => .ok s
  | .first => s.first
  | .last => s.last
  | .unique => s.unique

/-- The nodes to operate on: found, kept, narrowed down and climbed from. -/
def targets (r : Rule) (d : Document) : Except SelectionError (Selection .root) × Document :=
  let (outcome, d) := d.query r.query
  let chosen := do
    let found ← outcome
    let kept ← found.filter (r.keeps d)
    let chosen ← r.narrow kept
    chosen.climb r.parent
  (chosen, d)

/-- Queue the operation for each node of a selection. -/
def operate (r : Rule) (d : Document) (s : Selection .root) :
    Except SelectionError Unit × Document :=
  let go (intent : Intent) (template : String) :=
    let (outcome, d', seen) := d.schedule s intent (r.render template) d
    (outcome, { d' with view := seen.view })
  match r.operation with
  | .remove => (.ok (), d.remove s)
  | .prepend template => go .prepend template
  | .append template => go .append template
  | .replace template => go .replace template

/-- Queue the edits of a rule. -/
def queue (r : Rule) (d : Document) : Except SelectionError Unit × Document :=
  match r.targets d with
  | (.error e, d) => (.error e, d)
  | (.ok s, d) => r.operate d s

/-- Queue the edits of a rule and commit them. -/
def apply (r : Rule) (d : Document) : Except TransformError Unit × Document :=
  match r.queue d with
  | (.error e, d) => (.error (.selection e), d)
  | (.ok _, d) =>
      match d.commitWithTally with
      | (.error e, d) => (.error (.document e), d)
      | (.ok _, d) => (.ok (), d)

end Rule

/-! ## §3. Rules in turn. -/

/-- Run rules in order, until one fails. -/
def applyRules : List Rule → Document → Except TransformError Unit × Document
  | [], d => (.ok (), d)
  | r :: rest, d =>
      match r.apply d with
      | (.error e, d) => (.error e, d)
      | (.ok _, d) => applyRules rest d

end StructuralEdit
