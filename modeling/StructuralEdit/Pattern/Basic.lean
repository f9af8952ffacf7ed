/-
  StructuralEdit.Pattern.Basic
  ────────────────────────────
  **PATTERNS: SOURCE TEXT WITH METAVARIABLES.**

  A pattern is written in the language it searches, with `$NAME` wherever any
  node may stand and `$$$NAME` wherever any number of nodes may.  To compile it:

    • `disguise` replaces the dollars of metavariables by a character that the
      language admits in identifiers;
    • the parser makes a tree of the result, of which `core` is the part that
      was meant: the root less the wrappers that hold a single node;
    • `ofTree` turns the core into a `Pattern`, and each node whose text reads
      as a metavariable into one.
-/
import StructuralEdit.Tree
import StructuralEdit.Faults

namespace StructuralEdit

/-! ## §1. Metavariables. -/

/-- A metavariable of a pattern. -/
inductive Metavariable where
  /-- One node, remembered under a name; `namedOnly` refuses mere tokens. -/
  | capture (name : String) (namedOnly : Bool)
  /-- One node, not remembered. -/
  | wild (namedOnly : Bool)
  /-- Any number of nodes. -/
  | ellipsis
  /-- Any number of nodes, remembered under a name. -/
  | namedEllipsis (name : String)
  deriving DecidableEq, Repr

namespace Metavariable

/-- A character that a metavariable's name can start with. -/
def isStart (c : Char) : Bool :=
  c == '_' || c.isUpper

/-- A character that a metavariable's name can hold. -/
def isPart (c : Char) : Bool :=
  isStart c || c.isDigit

/-- The metavariable that a name with three signs before it denotes. -/
def ofLong? (name : List Char) : Option Metavariable :=
  if !name.all isPart then none
  else match name with
    | [] | '_' :: _ => some ellipsis
    | _ => some (namedEllipsis (String.ofList name))

/-- The metavariable that a name with one or two signs before it denotes. -/
def ofShort? (namedOnly : Bool) (name : List Char) : Option Metavariable :=
  match name with
  | [] => none
  | c :: rest =>
      if !isStart c || !rest.all isPart then none
      else if c == '_' then some (wild namedOnly)
      else some (capture (String.ofList name) namedOnly)

/-- The metavariable that a text spells, `sign` standing for the dollar. -/
def ofChars? (sign : Char) (cs : List Char) : Option Metavariable :=
  if [sign, sign, sign].isPrefixOf cs then ofLong? (cs.drop 3)
  else if [sign, sign].isPrefixOf cs then ofShort? false (cs.drop 2)
  else if [sign].isPrefixOf cs then ofShort? true (cs.drop 1)
  else none

end Metavariable

/-! ## §2. Patterns. -/

/-- A compiled pattern. -/
inductive Pattern where
  | metavariable (v : Metavariable)
  /-- A node without children: kind, whether named, and text. -/
  | leaf (kind : String) (named : Bool) (text : Text)
  /-- A node with children. -/
  | branch (kind : String) (named : Bool) (children : List Pattern)
  deriving Repr

/-- Why a pattern does not compile; the text is the disguised one. -/
inductive PatternFlaw where
  /-- The text has no parse tree. -/
  | unparsable
  /-- The tree is empty. -/
  | noRoot (text : Text)
  /-- There is more than one node at the top. -/
  | severalRoots (text : Text)
  deriving DecidableEq, Repr

/-- The wording of a flaw. -/
def PatternFlaw.message : PatternFlaw → String
  | .unparsable => "Tree-Sitter fails to parse the pattern."
  | .noRoot text =>
      "No AST root is detected. Please check the pattern source `" ++ text.toStr ++ "`."
  | .severalRoots text =>
      "Multiple AST nodes are detected. Please check the pattern source `" ++ text.toStr ++ "`."

/-- A pattern, as it was written, that does not compile. -/
structure PatternError where
  source : String
  flaw : PatternFlaw
  deriving DecidableEq, Repr

/-- The wording of a pattern error. -/
def PatternError.message (e : PatternError) : String :=
  "invalid pattern `" ++ e.source ++ "`: " ++ e.flaw.message

namespace Pattern

/-- The kind of error nodes. -/
def errorKind : String := "ERROR"

/-- The sign for a run of `count` dollars before the character `next?`: the
stand-in before a name, and for a run of exactly three. -/
def signFor (sign : Char) (count : Nat) (next? : Option Char) : Char :=
  if count == 3 || next?.any Metavariable.isStart then sign else '$'

/-- Write `sign` for the dollars of metavariables; `count` dollars are already
read. -/
def disguiseFrom (sign : Char) : Nat → List Char → List Char
  | count, [] => List.replicate count (signFor sign count none)
  | count, c :: cs =>
      if c == '$' then disguiseFrom sign (count + 1) cs
      else List.replicate count (signFor sign count (some c)) ++ c :: disguiseFrom sign 0 cs

/-- The text that is parsed for a pattern of this language. -/
def disguise (lang : Language) (source : String) : Text :=
  Text.ofString (String.ofList (disguiseFrom lang.expando 0 source.toList))

/-- A second child that the parser added and that nobody wrote. -/
def isPhantom (t : Tree) : Bool :=
  t.label.isMissing || t.label.kind == ""

/-- The tree holds a single node. -/
def isWrapper (t : Tree) : Bool :=
  match t.children with
  | [_] => true
  | [_, second] => isPhantom second
  | _ => false

/-- The tree without the wrappers around it. -/
def core : Tree → Tree
  | .node l [c] => if isWrapper (.node l [c]) then core c else .node l [c]
  | .node l [c, d] => if isWrapper (.node l [c, d]) then core c else .node l [c, d]
  | t => t

mutual

/-- The pattern of a tree over the disguised text. -/
def ofTree (sign : Char) (text : Text) : Tree → Pattern
  | .node l cs =>
      match Metavariable.ofChars? sign (text.slice l.start l.stop).toStr.toList with
      | some v => .metavariable v
      | none =>
          match cs with
          | [] => .leaf l.kind l.named (text.slice l.start l.stop)
          | c :: rest => .branch l.kind l.named (ofTrees sign text (c :: rest))

/-- The patterns of several trees; missing nodes are left out. -/
def ofTrees (sign : Char) (text : Text) : List Tree → List Pattern
  | [] => []
  | c :: cs =>
      if c.label.isMissing then ofTrees sign text cs
      else ofTree sign text c :: ofTrees sign text cs

end

/-- Compile a pattern. -/
def compile (parser : Parser) (lang : Language) (source : String) :
    Except PatternError Pattern :=
  let text := disguise lang source
  match parser.parse lang text with
  | none => .error ⟨source, .unparsable⟩
  | some tree =>
      if tree.children.isEmpty then .error ⟨source, .noRoot text⟩
      else if !isWrapper tree then .error ⟨source, .severalRoots text⟩
      else .ok (ofTree lang.expando text (core tree))

end Pattern

end StructuralEdit
