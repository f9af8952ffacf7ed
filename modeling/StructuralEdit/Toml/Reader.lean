/-
  StructuralEdit.Toml.Reader
  ──────────────────────────
  **READING A TOML DOCUMENT.**

  A document is a list of lines, each a header, a key with its value, or nothing,
  followed by a comment or not.  Values may go on over several lines, between
  brackets, braces or tripled quotes.  `read` gives the entries of the document,
  or nothing if there is any fault in it.

  Reading ends because every item takes at least one character: loops are bounded
  by the length of the input, and nesting by `nestingLimit`.
-/
import StructuralEdit.Toml.Quoted

namespace StructuralEdit.Toml

/-! ## §1. Blanks and comments. -/

/-- The input behind a comment, if it starts with one. -/
def dropComment : List Char → List Char
  | '#' :: rest => rest.dropWhile isPlain
  | cs => cs

/-- The input behind blanks, line feeds and comments, at most `bound` of them. -/
def dropGaps : Nat → List Char → List Char
  | 0, cs => cs
  | bound + 1, cs =>
      let next := dropNewline (dropComment (cs.dropWhile isBlank))
      if next.length < cs.length then dropGaps bound next else cs

/-- The input behind all that may stand between two items of a list. -/
def skipGaps (cs : List Char) : List Char :=
  dropGaps cs.length cs

/-- The input behind the end of a line: blanks, a comment, and a line feed or the
end of the input. -/
def lineEnd? (cs : List Char) : Option (List Char) :=
  let rest := dropComment (cs.dropWhile isBlank)
  if rest.isEmpty then some []
  else if startsWithNewline rest then some (dropNewline rest)
  else none

/-! ## §2. Keys. -/

/-- A character of a key without quotes. -/
def isBare (c : Char) : Bool :=
  c.isAlphanum || c == '_' || c == '-'

/-- One part of a key. -/
def simpleKey : Reader String
  | '"' :: '"' :: '"' :: _ => none
  | '\'' :: '\'' :: '\'' :: _ => none
  | '"' :: rest => (basic rest).map fun (s, rest) => (String.ofList s, rest)
  | '\'' :: rest => (literal rest).map fun (s, rest) => (String.ofList s, rest)
  | cs =>
      let name := cs.takeWhile isBare
      if name.isEmpty then none else some (String.ofList name, cs.dropWhile isBare)

/-- The parts of a key, at most `bound` of them, with blanks around the dots. -/
def keyFrom : Nat → Reader (List String)
  | 0, _ => none
  | bound + 1, cs => do
      let (part, cs) ← simpleKey (cs.dropWhile isBlank)
      match cs.dropWhile isBlank with
      | '.' :: rest => (keyFrom bound rest).map fun (parts, rest) => (part :: parts, rest)
      | rest => some ([part], rest)

/-- A key and the blanks behind it. -/
def key (cs : List Char) : Option (List String × List Char) :=
  keyFrom cs.length cs

/-! ## §3. Values. -/

/-- Items divided by commas, at most `bound` of them, up to the closing
character; a comma may stand behind the last one. -/
def itemsFrom {α : Type} (item : Reader α) (close : Char) : Nat → Reader (List α)
  | 0, _ => none
  | bound + 1, cs =>
      match skipGaps cs with
      | [] => none
      | c :: rest =>
          if c = close then some ([], rest)
          else do
            let (x, cs) ← item (c :: rest)
            match skipGaps cs with
            | ',' :: rest =>
                (itemsFrom item close bound rest).map fun (xs, rest) => (x :: xs, rest)
            | c :: rest => if c = close then some ([x], rest) else none
            | [] => none

/-- Items divided by commas, up to the closing character. -/
def items {α : Type} (item : Reader α) (close : Char) (cs : List Char) :
    Option (List α × List Char) :=
  itemsFrom item close (cs.length + 1) cs

/-- A key, an equals sign and a value. -/
def pair (value : Reader Value) (cs : List Char) :
    Option ((List String × Value) × List Char) := do
  let (k, cs) ← key cs
  match cs with
  | '=' :: rest =>
      let (v, rest) ← value (rest.dropWhile isBlank)
      some ((k, v), rest)
  | _ => none

/-- A character of a word: a number, a truth value or a point in time. -/
def isWordPart (c : Char) : Bool :=
  c.isAlphanum || c == '_' || c == '-' || c == '+' || c == '.' || c == ':'

/-- A word at the front.  One space inside stands between a date and a time. -/
def word (cs : List Char) : List Char × List Char :=
  let first := cs.takeWhile isWordPart
  let rest := cs.dropWhile isWordPart
  match date? first, rest with
  | some [], ' ' :: c :: _ =>
      if c.isDigit then
        let second := (rest.drop 1).takeWhile isWordPart
        (first ++ ' ' :: second, (rest.drop 1).dropWhile isWordPart)
      else (first, rest)
  | _, _ => (first, rest)

/-- The string that a reader gives. -/
def stringOf (r : Option (List Char × List Char)) : Option (Value × List Char) :=
  r.map fun (s, rest) => (.string (String.ofList s), rest)

/-- Arrays and inline tables may be nested this deep. -/
def nestingLimit : Nat := 80

/-- A value in which arrays and inline tables are nested at most `depth` deep. -/
def value : Nat → Reader Value
  | _, '"' :: '"' :: '"' :: rest => stringOf (longBasic (dropNewline rest))
  | _, '\'' :: '\'' :: '\'' :: rest => stringOf (longLiteral (dropNewline rest))
  | _, '"' :: rest => stringOf (basic rest)
  | _, '\'' :: rest => stringOf (literal rest)
  | 0, '[' :: _ => none
  | depth + 1, '[' :: rest =>
      (items (value depth) ']' rest).map fun (vs, rest) => (.array false vs, rest)
  | 0, '\x7b' :: _ => none
  | depth + 1, '\x7b' :: rest => do
      let (pairs, rest) ← items (pair (value depth)) '\x7d' rest
      let es ← pairs.foldlM (fun es (k, v) => insert v k es) []
      some (.table .inline es, rest)
  | _, cs => do
      let (w, rest) := word cs
      some (← scalar? w, rest)

/-! ## §4. Documents. -/

/-- A document that is being read: its entries so far, and the table that the
last header named. -/
structure Draft where
  entries : Entries := []
  current : List String := []

/-- A header behind its opening bracket. -/
def header (d : Draft) (cs : List Char) : Option (Draft × List Char) := do
  match cs with
  | '[' :: rest =>
      let (path, rest) ← key rest
      match rest with
      | ']' :: ']' :: rest => some (⟨← declare true path d.entries, path⟩, rest)
      | _ => none
  | _ =>
      let (path, rest) ← key cs
      match rest with
      | ']' :: rest => some (⟨← declare false path d.entries, path⟩, rest)
      | _ => none

/-- The statement of one line, without the end of the line. -/
def statement (d : Draft) (cs : List Char) : Option (Draft × List Char) :=
  match cs with
  | '[' :: rest => header d rest
  | _ => do
      let ((k, v), rest) ← pair (value nestingLimit) cs
      some ({ d with entries := ← insertUnder v k d.current d.entries }, rest)

/-- The lines of a document, at most `bound` of them. -/
def lines : Nat → Draft → List Char → Option Draft
  | 0, d, cs => if cs.isEmpty then some d else none
  | bound + 1, d, cs =>
      if cs.isEmpty then some d
      else match lineEnd? cs with
        | some rest => lines bound d rest
        | none => do
            let (d, rest) ← statement d (cs.dropWhile isBlank)
            lines bound d (← lineEnd? rest)

/-- The input without a byte order mark in front. -/
def dropMark : List Char → List Char
  | '\uFEFF' :: rest => rest
  | cs => cs

/-- The entries of a document. -/
def read (source : String) : Option Entries :=
  let cs := dropMark source.toList
  (lines cs.length {} cs).map (·.entries)

end StructuralEdit.Toml
