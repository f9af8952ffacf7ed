/-
  StructuralEdit.Rule.Cached
  ──────────────────────────
  **RUNNING RULES WITH THEIR QUERIES KEPT.**

  The same few queries are run on file after file, so what they compile to is kept
  from one file to the next.  The rules run as ever; only where a query is needed,
  its compiled form is asked of the caches, which compile it if they have to:

      a rule's own query      once for each document
      the patterns it binds   once for each node, in the midst of filling in its
                              template

  A `Desk` is a document with the caches that its queries go through.
-/
import StructuralEdit.Cache
import StructuralEdit.Rule.Apply

namespace StructuralEdit

/-- A document, and the compiled queries kept so far. -/
structure Desk where
  doc : Document
  compiled : Compiled

namespace Desk

/-! ## §1. Queries. -/

/-- The nodes of the scope, itself included, that a query selects, and the caches
after it. -/
def search (k : Desk) (scope : Node) : QueryText → Except SelectionError (List Node) × Compiled
  | .pattern source =>
      let (outcome, compiled) := k.compiled.pattern k.doc.parser k.doc.lang source
      let nodes := do
        let p ← outcome.mapError .pattern
        return p.search k.doc.viewed.text (Node.root k.doc.viewed.tree) scope
      (nodes, compiled)
  | .tree source =>
      let (outcome, compiled) := k.compiled.query k.doc.lang source
      let nodes := do
        let q ← outcome.mapError .query
        (q.search k.doc.text scope).mapError .query
      (nodes, compiled)

/-- All nodes that a query selects. -/
def query (k : Desk) (q : QueryText) : Except SelectionError (Selection .root) × Desk :=
  let (outcome, compiled) := k.search k.doc.root q
  (.many <$> outcome, ⟨k.doc.consulted q, compiled⟩)

/-- The nodes that a query selects inside a node, itself included. -/
def queryInside (k : Desk) (n : Node) (q : QueryText) :
    Except SelectionError (Selection .derived) × Desk :=
  let (outcome, compiled) := k.search n q
  (.many <$> outcome, ⟨k.doc.consulted q, compiled⟩)

/-! ## §2. One rule. -/

/-- Bind each name to the text of the first node that its pattern finds inside the
node; nothing if one of them finds none. -/
def bindAll (n : Node) : List (String × String) → Template → Desk →
    Except SelectionError (Option Template) × Desk
  | [], t, k => (.ok (some t), k)
  | (name, pattern) :: rest, t, k =>
      match k.queryInside n (.pattern pattern) with
      | (.error e, k) => (.error e, k)
      | (.ok found, k) =>
          match found.nodes.head? with
          | none => (.ok none, k)
          | some m => bindAll n rest (t.bind (Text.ofString name) (m.text k.doc.text)) k

/-- The template of a rule filled in for a node; nothing if a pattern finds no node. -/
def render (r : Rule) (template : String) : Callback Desk := fun k n =>
  let blank : Template := { source := Text.ofString template }
  match bindAll n r.bindings (blank.bind (Text.ofString nodeBinding) (n.text k.doc.text)) k with
  | (.error e, k) => (.error e, k)
  | (.ok none, k) => (.ok none, k)
  | (.ok (some t), k) => (some <$> t.build.mapError .template, k)

/-- The nodes that a rule operates on. -/
def targets (r : Rule) (k : Desk) : Except SelectionError (Selection .root) × Desk :=
  let (outcome, k) := k.query r.query
  let chosen := do
    let found ← outcome
    let kept ← found.filter (r.keeps k.doc)
    let chosen ← r.narrow kept
    chosen.climb r.parent
  (chosen, k)

/-- Queue the operation of a rule for each node of a selection. -/
def operate (r : Rule) (k : Desk) (s : Selection .root) : Except SelectionError Unit × Desk :=
  let go (intent : Intent) (template : String) :=
    let (outcome, d, seen) := k.doc.schedule s intent (render r template) k
    (outcome, ⟨{ d with view := seen.doc.view }, seen.compiled⟩)
  match r.operation with
  | .remove => (.ok (), { k with doc := k.doc.remove s })
  | .prepend template => go .prepend template
  | .append template => go .append template
  | .replace template => go .replace template

/-- Queue the edits of a rule. -/
def queue (r : Rule) (k : Desk) : Except SelectionError Unit × Desk :=
  match targets r k with
  | (.error e, k) => (.error e, k)
  | (.ok s, k) => operate r k s

/-- Queue the edits of a rule and commit them. -/
def apply (r : Rule) (k : Desk) : Except TransformError Unit × Desk :=
  match queue r k with
  | (.error e, k) => (.error (.selection e), k)
  | (.ok _, k) =>
      match k.doc.commitWithTally with
      | (.error e, d) => (.error (.document e), { k with doc := d })
      | (.ok _, d) => (.ok (), { k with doc := d })

/-! ## §3. Rules in turn. -/

/-- Run rules in order, until one fails. -/
def applyRules : List Rule → Desk → Except TransformError Unit × Desk
  | [], k => (.ok (), k)
  | r :: rest, k =>
      match apply r k with
      | (.error e, k) => (.error e, k)
      | (.ok _, k) => applyRules rest k

end Desk

end StructuralEdit
