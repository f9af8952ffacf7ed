/-
  StructuralEdit.Rule.Decode
  ──────────────────────────
  **A RULE FILE AS A TOML DOCUMENT.**

  Each type has a decoder, which gives nothing for a value of another shape.
  Unknown keys are passed over.

    • A record is a table, or an array of its fields in their order, of which the
      last ones may be left out where they have a default.
    • A variant is a table whose `type` names it, or an array of that name and
      exactly its fields.
    • A choice is its name, or a table with that name as its one key and an empty
      table or array as the value.
-/
import StructuralEdit.Rule.Basic
import StructuralEdit.Toml.Reader

namespace StructuralEdit

namespace Decode

open Toml (Value Entries)

/-! ## §1. Plain values. -/

/-- A string. -/
def string : Value → Option String
  | .string s => some s
  | _ => none

/-- A natural number. -/
def natural : Value → Option Nat
  | .integer i => if 0 ≤ i then some i.toNat else none
  | _ => none

/-- An array. -/
def array {α : Type} (element : Value → Option α) : Value → Option (List α)
  | .array _ vs => vs.mapM element
  | _ => none

/-- A table of strings, in the order of its keys. -/
def stringMap : Value → Option (List (String × String))
  | .table _ es => do
      let pairs ← es.mapM fun (k, v) => do return (k, ← string v)
      return sortBy (fun a b => a.1 ≤ b.1) pairs
  | _ => none

/-! ## §2. Records and variants. -/

/-- The fields of a record, by name. -/
def record (names : List String) : Value → Option Entries
  | .table _ es => some es
  | .array _ vs => some (names.zip vs)
  | _ => none

/-- A field that must be there. -/
def required {α : Type} (es : Entries) (name : String) (decode : Value → Option α) : Option α :=
  (es.lookup name).bind decode

/-- A field with a default. -/
def optional {α : Type} (es : Entries) (name : String) (default : α)
    (decode : Value → Option α) : Option α :=
  match es.lookup name with
  | some v => decode v
  | none => some default

/-- The name of a variant and its fields; `names` gives the fields of each. -/
def variant (names : String → List String) : Value → Option (String × Entries)
  | .table _ es => do return (← required es "type" string, es)
  | .array _ (.string tag :: vs) =>
      if vs.length = (names tag).length then some (tag, (names tag).zip vs) else none
  | _ => none

/-! ## §3. Rule files. -/

/-- A query. -/
def query (v : Value) : Option QueryText := do
  let (tag, es) ← variant (fun _ => ["pattern"]) v
  match tag with
  | "ast-grep" => .pattern <$> required es "pattern" string
  | "tree-sitter" => .tree <$> required es "pattern" string
  | _ => none

/-- An operation. -/
def operation (v : Value) : Option Operation := do
  let (tag, es) ← variant (fun tag => if tag = "remove" then [] else ["template"]) v
  match tag with
  | "remove" => some .remove
  | "prepend" => .prepend <$> required es "template" string
  | "append" => .append <$> required es "template" string
  | "replace" => .replace <$> required es "template" string
  | _ => none

/-- The value holds nothing. -/
def isHollow : Value → Bool
  | .table _ es => es.isEmpty
  | .array _ vs => vs.isEmpty
  | _ => false

/-- A choice. -/
def choice : Value → Option Choice
  | .string s => Choice.ofName? s
  | .table _ [(name, v)] => if isHollow v then Choice.ofName? name else none
  | _ => none

/-- A rule. -/
def rule (v : Value) : Option Rule := do
  let es ← record ["id", "query", "contains", "select", "parent", "operation", "bind"] v
  return {
    id := ← required es "id" string
    query := ← required es "query" query
    contains := ← optional es "contains" none fun v => some <$> string v
    select := ← optional es "select" .all choice
    parent := ← optional es "parent" 0 natural
    operation := ← required es "operation" operation
    bindings := ← optional es "bind" [] stringMap }

/-- What a rule file says about itself. -/
def metadata (v : Value) : Option Metadata := do
  let es ← record ["name", "description", "lang", "include", "exclude"] v
  return {
    name := ← optional es "name" "" string
    description := ← optional es "description" none fun v => some <$> string v
    lang := ← optional es "lang" none fun v => some <$> string v
    includes := ← optional es "include" [] (array string)
    excludes := ← optional es "exclude" [] (array string) }

/-- A rule file. -/
def ruleFile (es : Entries) : Option RuleFile := do
  return {
    info := ← optional es "meta" {} metadata
    rules := ← optional es "rules" [] (array rule) }

end Decode

/-- The rule file that a text spells; nothing if it is no TOML or has another
shape. -/
def RuleFile.ofToml? (source : String) : Option RuleFile :=
  (Toml.read source).bind Decode.ruleFile

end StructuralEdit
