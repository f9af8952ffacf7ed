/-
  StructuralEdit.Json
  ───────────────────
  **WRITING JSON.**

  Strings, lists and records are all that reports need.  A value is written over
  several lines, each level indented by two blanks; an empty list stays on one
  line.  Strings escape quotes, backslashes and control characters only.
-/

namespace StructuralEdit

/-- A JSON value made of strings. -/
inductive Json where
  | string (s : String)
  | list (elements : List Json)
  | record (fields : List (String × Json))
  deriving Repr

namespace Json

/-- A number below 16 as a hexadecimal digit. -/
def hexDigit (n : Nat) : Char :=
  Nat.digitChar n

/-- A character between quotes. -/
def quotedChar (c : Char) : String :=
  match c with
  | '"' => "\\\""
  | '\\' => "\\\\"
  | '\n' => "\\n"
  | '\r' => "\\r"
  | '\t' => "\\t"
  | '\x08' => "\\b"
  | '\x0c' => "\\f"
  | c =>
      if c.toNat < 32 then
        "\\u00" ++ String.ofList [hexDigit (c.toNat / 16), hexDigit (c.toNat % 16)]
      else c.toString

/-- A string between quotes. -/
def quoted (s : String) : String :=
  "\"" ++ String.join (s.toList.map quotedChar) ++ "\""

/-- A new line, indented. -/
def newLine (level : Nat) : String :=
  "\n" ++ String.ofList (List.replicate (2 * level) ' ')

/-- Written items between brackets, each on a line of its own. -/
def enclose (level : Nat) (opening closing : String) (items : List String) : String :=
  if items.isEmpty then opening ++ closing
  else opening ++ newLine (level + 1) ++ ("," ++ newLine (level + 1)).intercalate items
    ++ newLine level ++ closing

mutual

/-- A value at a level of indentation. -/
def write (level : Nat) : Json → String
  | .string s => quoted s
  | .list elements => enclose level "[" "]" (writeAll (level + 1) elements)
  | .record fields => enclose level "\x7b" "\x7d" (writeFields (level + 1) fields)

/-- Each of some values. -/
def writeAll (level : Nat) : List Json → List String
  | [] => []
  | j :: rest => write level j :: writeAll level rest

/-- Each of some fields. -/
def writeFields (level : Nat) : List (String × Json) → List String
  | [] => []
  | (name, j) :: rest => (quoted name ++ ": " ++ write level j) :: writeFields level rest

end

/-- A value over several lines. -/
def pretty (j : Json) : String :=
  write 0 j

end Json

end StructuralEdit
