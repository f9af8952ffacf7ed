/-
  StructuralEdit.TreeTable
  ────────────────────────
  **PARSE TREES FROM A TABLE.**

  The trees of source texts come from grammars that this library does not hold.  A
  table brings them along: rows of cells with tabs between them.  A row of three
  cells `parse`, language, text starts a tree, and each row after it is a node, in
  document order:

      depth   kind   start   stop   flags   [field]

  The flags are letters: `n` named, `e` an error, `m` missing, `x` extra, `h` with
  an error somewhere below or at it.  In a cell, `\t`, `\n`, `\r` and `\\` stand
  for a tab, a line feed, a carriage return and a backslash.
-/
import StructuralEdit.Cut
import StructuralEdit.Faults

namespace StructuralEdit

namespace TreeTable

/-- The characters of a cell. -/
def unescape : List Char → List Char
  | '\\' :: 't' :: rest => '\t' :: unescape rest
  | '\\' :: 'n' :: rest => '\n' :: unescape rest
  | '\\' :: 'r' :: rest => '\r' :: unescape rest
  | '\\' :: '\\' :: rest => '\\' :: unescape rest
  | c :: rest => c :: unescape rest
  | [] => []

/-- The cells of a row. -/
def cells (row : String) : List String :=
  (cutAt '\t' row).map fun cell => String.ofList (unescape cell.toList)

/-- The node of a row, with its depth. -/
def node? : List String → Option (Nat × Label)
  | depth :: kind :: start :: stop :: flags :: rest => do
      let has (c : Char) := flags.toList.contains c
      return (← depth.toNat?,
        { kind := kind
          start := ← start.toNat?
          stop := ← stop.toNat?
          named := has 'n'
          isError := has 'e'
          isMissing := has 'm'
          isExtra := has 'x'
          hasError := has 'h'
          field := rest.head? })
  | _ => none

/-- A text in a language, and the nodes of its tree. -/
structure Parse where
  lang : Language
  text : Text
  nodes : List (Nat × Label)

/-- The parses of a table, the last row of it first. -/
def parsesFrom : List (List String) → List (Nat × Label) → List Parse
  | [], _ => []
  | ["parse", lang, text] :: rest, nodes =>
      match Language.ofDisplayName? lang with
      | some lang => ⟨lang, Text.ofString text, nodes⟩ :: parsesFrom rest []
      | none => parsesFrom rest []
  | row :: rest, nodes => parsesFrom rest ((node? row).toList ++ nodes)

/-- The parses of a table; rows that say nothing are passed over. -/
def parses (table : String) : List Parse :=
  parsesFrom ((cutAt '\n' table).map cells).reverse []

end TreeTable

/-- The parser that looks trees up. -/
def parserOf (parses : List TreeTable.Parse) : Parser :=
  .afresh fun lang text =>
    match parses.find? fun p => p.lang = lang && p.text == text with
    | some p => Tree.ofPreorder? p.nodes
    | none => none

end StructuralEdit
