/-
  StructuralEdit.Toml.Value
  ─────────────────────────
  **TOML VALUES, AND HOW A DOCUMENT GROWS ITS TABLES.**

  A TOML document is one table that grows statement by statement.  What a later
  statement may still add to a table depends on how the table came to be, so a
  table remembers its `Origin`:

      implied   — a header named a table below it
      dotted    — a dotted key led through it
      header    — a header named it
      inline    — it was written between braces, and is closed

  An array of tables grows by headers too; an array written between brackets is
  closed.  `declare` is what a header does and `insert` what a key with a value
  does; both give nothing where a table would be defined twice.
-/

namespace StructuralEdit

namespace Toml

/-- How a table came to be. -/
inductive Origin where
  | implied
  | dotted
  | header
  | inline
  deriving DecidableEq, Repr

/-- A value.  Of fractions and points in time only the spelling is kept. -/
inductive Value where
  | string (s : String)
  | integer (i : Int)
  | float (spelling : String)
  | boolean (b : Bool)
  | moment (spelling : String)
  /-- An array; an `unfinished` one is an array of tables, which grows. -/
  | array (unfinished : Bool) (elements : List Value)
  | table (origin : Origin) (entries : List (String × Value))
  deriving Repr

/-- The keys and values of a table, each key once. -/
abbrev Entries := List (String × Value)

/-- The entries with a value put under a key, in place of an earlier one. -/
def Entries.put (es : Entries) (key : String) (v : Value) : Entries :=
  if (es.lookup key).isSome then es.map fun e => if e.1 = key then (key, v) else e
  else es ++ [(key, v)]

/-- Change the entries of the table at the end of a header's way: a table is
entered, and of an array of tables the last. -/
def Value.enter (change : Entries → Option Entries) : Value → Option Value
  | .table .inline _ => none
  | .table origin es => (change es).map (.table origin)
  | .array true elements =>
      match elements.getLast? with
      | some (.table origin es) =>
          (change es).map fun es => .array true (elements.dropLast ++ [.table origin es])
      | _ => none
  | _ => none

/-- What a header does to the entry that it names: it makes a new table, adopts
an implied one, or, when it is for an `element`, makes one more element. -/
def claim (element : Bool) : Option Value → Option Value
  | none => some (if element then .array true [.table .header []] else .table .header [])
  | some (.table .implied es) => if element then none else some (.table .header es)
  | some (.array true elements) =>
      if element then some (.array true (elements ++ [.table .header []])) else none
  | some _ => none

/-- Declare the table that a header names, or one more element of the array of
tables that it names; the tables on the way there are implied. -/
def declare (element : Bool) : List String → Entries → Option Entries
  | [], _ => none
  | [key], es => (claim element (es.lookup key)).map (es.put key)
  | key :: path, es =>
      match es.lookup key with
      | none => (declare element path []).map fun sub => es.put key (.table .implied sub)
      | some v => (v.enter (declare element path)).map (es.put key)

/-- Insert a value under a dotted key, none of whose tables may have been defined
by a header, and the last of which a dotted key must have led through before. -/
def insert (v : Value) : List String → Entries → Option Entries
  | [], _ => none
  | [key], es => if (es.lookup key).isSome then none else some (es.put key v)
  | key :: path, es =>
      match es.lookup key with
      | none => (insert v path []).map fun sub => es.put key (.table .dotted sub)
      | some (.table .dotted sub) =>
          (insert v path sub).map fun sub => es.put key (.table .dotted sub)
      | some (.table .implied sub) =>
          if path.length < 2 then none
          else (insert v path sub).map fun sub => es.put key (.table .implied sub)
      | some _ => none

/-- Insert a value under a dotted key of the table that a header named before. -/
def insertUnder (v : Value) (key : List String) : List String → Entries → Option Entries
  | [], es => insert v key es
  | name :: rest, es =>
      match es.lookup name with
      | some table => (table.enter (insertUnder v key rest)).map (es.put name)
      | none => none

end Toml

end StructuralEdit
