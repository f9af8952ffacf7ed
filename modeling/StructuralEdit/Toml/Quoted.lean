/-
  StructuralEdit.Toml.Quoted
  ──────────────────────────
  **STRINGS IN QUOTES.**

  There are four kinds of strings: `"basic"`, `'literal'`, and both over several
  lines between tripled quotes.  Basic strings have escapes, literal strings have
  none.  A string over several lines drops a line feed right behind its opening
  quotes, and may end with one or two quotes of its own before the closing three.
  In a basic one, a backslash at the end of a line swallows the line feed and all
  blanks up to the next character.

  Every reader here takes the characters behind the opening quotes and gives the
  string's characters and the rest behind the closing quotes.
-/
import StructuralEdit.Toml.Scalar

namespace StructuralEdit.Toml

/-- Reads something at the front of the input; what it read, and the rest. -/
abbrev Reader (α : Type) := List Char → Option (α × List Char)

/-- A space or a tab. -/
def isBlank (c : Char) : Bool :=
  c == ' ' || c == '\t'

/-- A character that may stand as it is in a comment or a string: no control
character but the tab. -/
def isPlain (c : Char) : Bool :=
  c == '\t' || (' ' ≤ c && c ≠ '\x7f')

/-- Put characters in front of what is read. -/
def adding (cs : List Char) (r : Option (List Char × List Char)) :
    Option (List Char × List Char) :=
  r.map fun (s, rest) => (cs ++ s, rest)

/-! ## §1. Escapes. -/

/-- The character behind a backslash, for the escapes of one character. -/
def simpleEscape? : Char → Option Char
  | 'b' => some '\x08'
  | 't' => some '\t'
  | 'n' => some '\n'
  | 'f' => some '\x0c'
  | 'r' => some '\r'
  | 'e' => some '\x1b'
  | '"' => some '"'
  | '\\' => some '\\'
  | _ => none

/-- The number of hexadecimal digits behind the escapes that have some. -/
def escapeLength? : Char → Option Nat
  | 'x' => some 2
  | 'u' => some 4
  | 'U' => some 8
  | _ => none

/-- The character with a number; surrogates are none. -/
def scalarValue? (n : Nat) : Option Char :=
  if n < 0xD800 || (0xDFFF < n && n < 0x110000) then some (Char.ofNat n) else none

/-- The character that an escape stands for, and how many characters of the input
it takes behind the backslash. -/
def escape? : List Char → Option (Char × Nat)
  | [] => none
  | c :: rest =>
      match escapeLength? c with
      | none => (simpleEscape? c).map fun e => (e, 1)
      | some count =>
          let ds := rest.take count
          if ds.length = count && ds.all isHex then
            (scalarValue? (numeral 16 ds)).map fun e => (e, count + 1)
          else none

/-! ## §2. Strings on one line. -/

/-- A literal string. -/
def literal : Reader (List Char)
  | [] => none
  | c :: rest =>
      if c = '\'' then some ([], rest)
      else if isPlain c then adding [c] (literal rest)
      else none

/-- A basic string, whose first `skip` characters belong to an escape already
read. -/
def basicFrom : Nat → Reader (List Char)
  | _, [] => none
  | skip + 1, _ :: rest => basicFrom skip rest
  | 0, c :: rest =>
      if c = '"' then some ([], rest)
      else if c = '\\' then
        match escape? rest with
        | some (e, count) => adding [e] (basicFrom count rest)
        | none => none
      else if isPlain c then adding [c] (basicFrom 0 rest)
      else none

/-- A basic string. -/
def basic : Reader (List Char) :=
  basicFrom 0

/-! ## §3. Strings over several lines. -/

/-- The input without a line feed in front. -/
def dropNewline : List Char → List Char
  | '\n' :: rest => rest
  | '\r' :: '\n' :: rest => rest
  | cs => cs

/-- The input starts with a line feed. -/
def startsWithNewline (cs : List Char) : Bool :=
  (dropNewline cs).length < cs.length

/-- The quotes of its own that a string ends with, and the rest behind the
closing quotes, if the string ends here. -/
def closing? (quote : Char) (cs : List Char) : Option (List Char × List Char) :=
  let run := (cs.takeWhile (· == quote)).length
  if run < 3 then none
  else some (List.replicate (min run 5 - 3) quote, cs.drop (min run 5))

/-- The character may stand in a string over several lines; a carriage return
needs a line feed behind it. -/
def isPlainOrNewline (c : Char) (rest : List Char) : Bool :=
  isPlain c || c == '\n' || (c == '\r' && rest.head? == some '\n')

/-- A literal string over several lines. -/
def longLiteral : Reader (List Char)
  | [] => none
  | c :: rest =>
      match closing? '\'' (c :: rest) with
      | some r => some r
      | none => if isPlainOrNewline c rest then adding [c] (longLiteral rest) else none

/-- A basic string over several lines.  `skip` characters belong to an escape
already read, and after a backslash that ends its line, blanks and line feeds
are `swallowed`. -/
def longBasicFrom : Nat → Bool → Reader (List Char)
  | _, _, [] => none
  | skip + 1, swallowed, _ :: rest => longBasicFrom skip swallowed rest
  | 0, swallowed, c :: rest =>
      if swallowed && (isBlank c || startsWithNewline (c :: rest)) then
        longBasicFrom (if c == '\r' then 1 else 0) true rest
      else match closing? '"' (c :: rest) with
        | some r => some r
        | none =>
            if c = '\\' then
              if startsWithNewline (rest.dropWhile isBlank) then longBasicFrom 0 true rest
              else match escape? rest with
                | some (e, count) => adding [e] (longBasicFrom count false rest)
                | none => none
            else if isPlainOrNewline c rest then adding [c] (longBasicFrom 0 false rest)
            else none

/-- A basic string over several lines. -/
def longBasic : Reader (List Char) :=
  longBasicFrom 0 false

end StructuralEdit.Toml
