/-
  StructuralEdit.Query.Basic
  ──────────────────────────
  **TREE QUERIES: FROM SOURCE TO SELECTED NODES.**

  A query selects what its capture `@match` holds or, where there is none, what
  its first capture holds.  `compile` reads, lays out and checks a query;
  `search` runs it below a scope and puts the selected nodes into document
  order.
-/
import StructuralEdit.Query.Feasible
import StructuralEdit.Query.Requirement
import StructuralEdit.Query.Run

namespace StructuralEdit

/-! ## §1. Errors. -/

/-- Why a query selects nothing at all. -/
inductive QueryError where
  | invalid (source : String) (flaw : Query.Flaw)
  /-- Nothing is captured, so nothing could be selected. -/
  | noCaptures (source : String)
  deriving DecidableEq, Repr

namespace Query

/-- The lines of a source, without their ends. -/
def linesOf (source : String) : List String :=
  let lines := cutAt '\n' source
  let lines := if lines.getLast? == some "" then lines.dropLast else lines
  lines.map fun line => if line.endsWith "\r" then (line.dropEnd 1).toString else line

/-- The row and column of an offset, and the line there; each line is taken to be
one byte longer than its text. -/
def placeOf (offset : Nat) : List String → Nat → Nat → Nat × Nat × Option String
  | [], row, start => (row, offset - start, none)
  | line :: rest, row, start =>
      let stop := start + line.utf8ByteSize + 1
      if offset < stop then (row, offset - start, some line) else placeOf offset rest (row + 1) stop

/-- The name in quotes at the front, up to a quote that is not escaped. -/
def quotedName : Bool → List Char → List Char
  | _, [] => []
  | true, c :: cs => c :: quotedName false cs
  | false, c :: cs =>
      if c == '"' then [] else c :: quotedName (c == '\\') cs

/-- The name that starts at an offset. -/
def nameFrom (source : String) (offset : Nat) : String :=
  let bytes := Text.ofString source
  let rest := (Text.toStr (bytes.drop offset)).toList
  if 0 < offset && bytes[offset - 1]? == some 34 then String.ofList (quotedName false rest)
  else String.ofList (rest.takeWhile fun c => c.isAlphanum || c == '_' || c == '-' || 127 < c.toNat)

/-- The line of an offset with a mark below the column. -/
def markedLine (column : Nat) : Option String → String
  | none => "Unexpected EOF"
  | some line => line ++ "\n" ++ String.ofList (List.replicate column ' ') ++ "^"

/-- Where a flaw is reported. -/
def Flaw.offset : Flaw → Nat
  | .malformed o | .unknownKind o | .unknownField o | .unknownCapture o | .impossible o => o
  | .badCondition o _ => o

/-- The wording of a flaw of a query. -/
def Flaw.message (source : String) (flaw : Flaw) : String :=
  let (row, column, line) := placeOf flaw.offset (linesOf source) 0 0
  let name := nameFrom source flaw.offset
  let (column, what) := match flaw with
    | .malformed _ => (column, "Invalid syntax:\n" ++ markedLine column line)
    | .impossible _ => (column, "Impossible pattern:\n" ++ markedLine column line)
    | .unknownKind _ => (column, "Invalid node type " ++ name)
    | .unknownField _ => (column, "Invalid field name " ++ name)
    | .unknownCapture _ => (column, "Invalid capture name " ++ name)
    | .badCondition _ reason => (0, "Invalid predicate: " ++ reason)
  s!"Query error at {row + 1}:{column + 1}. {what}"

end Query

/-- The wording of a query error. -/
def QueryError.message : QueryError → String
  | .invalid source flaw => "invalid tree-sitter query: " ++ flaw.message source
  | .noCaptures source => "query `" ++ source ++ "` has no captures to select nodes with"

/-! ## §2. Compiling. -/

/-- A compiled query. -/
structure TreeQuery where
  source : String
  captures : List String
  program : Query.Compiled
  requirements : Array (List Query.Requirement)

namespace Query

/-- The requirements of a clause. -/
def requirementsOf (captures : List String) (c : Clause) : Except Flaw (List Requirement) :=
  match c.conditions.mapM (Condition.requirement? captures) with
  | .ok found => .ok (found.filterMap id)
  | .error reason => .error (.badCondition c.offset reason)

/-- Read a query, lay it out and check it. -/
def compileWith (v : Vocabulary) (source : String) : Except Flaw TreeQuery := do
  let (clauses, captures) ← readQuery v source
  let steps := clauses.map fun c => stepsOf c.form
  match steps.findSome? (impossible? v) with
  | some offset => throw (.impossible offset)
  | none =>
      let requirements ← clauses.mapM (requirementsOf captures)
      let entries := (steps.mapIdx fun i s => (entryPoints s i).reverse).flatten
      return {
        source := source
        captures := captures
        program := { clauses := steps.toArray, entries := entries }
        requirements := requirements.toArray }

end Query

namespace TreeQuery

/-- Compile a query for a language. -/
def compile (lang : Language) (source : String) : Except QueryError TreeQuery :=
  (Query.compileWith lang.vocabulary source).mapError (.invalid source)

/-! ## §3. Searching. -/

/-- The capture that selects. -/
def selecting : String := "match"

/-- The number of the capture that selects. -/
def selected? (q : TreeQuery) : Option Nat :=
  match q.captures.findIdx? (· == selecting) with
  | some id => some id
  | none => if q.captures.isEmpty then none else some 0

/-- The nodes that a capture holds in a match. -/
def held (id : Nat) (t : Query.Thread) : List Node :=
  t.captures.filterMap fun c => if c.1 == id then some c.2 else none

/-- The match meets all requirements of its clause. -/
def isMet (q : TreeQuery) (text : Text) (t : Query.Thread) : Bool :=
  (q.requirements.getD t.clause []).all
    (Query.Requirement.isMet fun id => (held id t).map (·.text text))

/-- The nodes of the scope, itself included, that the query selects, in document
order. -/
def search (q : TreeQuery) (text : Text) (scope : Node) : Except QueryError (List Node) :=
  match q.selected? with
  | none => .error (.noCaptures q.source)
  | some id =>
      let found := (q.program.run scope).filter (q.isMet text)
      .ok (inDocumentOrder (found.flatMap (held id)))

end TreeQuery

end StructuralEdit
