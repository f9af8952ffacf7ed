/-
  StructuralEdit.Document
  ───────────────────────
  **DOCUMENTS: A TEXT, ITS TREE, AND EDITS THAT WAIT.**

  Queries read the tree of the current text and queue edits; nothing changes
  until `commit` splices the whole queue into the text and parses the result.  A
  commit either succeeds as a whole, empties the queue and marks the document as
  touched, or fails and leaves the document as it was.  Committing an empty queue
  does nothing.

  Pattern searches have a tree of their own to look at, the `View`.  The first
  search makes it, later ones find it there, and a commit takes it away.
-/
import StructuralEdit.Splice
import StructuralEdit.Payload
import StructuralEdit.FileSystem

namespace StructuralEdit

/-! ## §1. Errors. -/

/-- Why a document cannot be opened or committed. -/
inductive DocumentError where
  | unparsable
  | edit (cause : EditError)
  | unreadable (path : Path) (cause : FileError)
  | unknownLanguage (path : Path)
  deriving DecidableEq, Repr

namespace DocumentError

/-- The wording of a document error. -/
def message : DocumentError → String
  | unparsable => "tree-sitter error: " ++ FormError.unparsable.message
  | edit cause => "edit error: " ++ cause.message
  | unreadable path cause => "I/O error reading " ++ path.spelling ++ ": " ++ cause.message
  | unknownLanguage path => "cannot detect language of " ++ path.spelling

/-- The wordings of what lies behind an error, nearest first. -/
def causes : DocumentError → List String
  | unparsable => [FormError.unparsable.message]
  | edit cause => [cause.message]
  | unreadable _ cause => [cause.message]
  | unknownLanguage _ => []

end DocumentError

/-! ## §2. Documents. -/

/-- A query as a user writes it. -/
inductive QueryText where
  /-- Source text with metavariables. -/
  | pattern (source : String)
  /-- An S-expression over node kinds. -/
  | tree (source : String)
  deriving DecidableEq, Repr

/-- A text and its tree, as pattern searches see them. -/
@[ext]
structure View where
  text : Text
  tree : Tree

/-- A parsed text with edits that wait. -/
structure Document where
  parser : Parser
  lang : Language
  text : Text
  tree : Tree
  path : Option Path := none
  /-- What pattern searches see, once one has been made. -/
  view : Option View := none
  /-- The edits that wait, in the order in which they were queued. -/
  queue : List Edit := []
  /-- A commit has changed something, be it to the same text. -/
  touched : Bool := false

namespace Document

/-- Parse a text. -/
def parse (parser : Parser) (lang : Language) (text : Text) : Except DocumentError Document :=
  match parser.parse lang text with
  | some tree => .ok { parser := parser, lang := lang, text := text, tree := tree }
  | none => .error .unparsable

/-- Read and parse a file in the given language. -/
def openAs (parser : Parser) (fs : FileSystem) (path : Path) (lang : Language) :
    Except DocumentError Document := do
  let text ← (fs.readText path).mapError (.unreadable path)
  let d ← parse parser lang text
  return { d with path := some path }

/-- Read and parse a file in the language that its extension gives away. -/
def openDetected (parser : Parser) (fs : FileSystem) (path : Path) :
    Except DocumentError Document :=
  match path.language? with
  | some lang => openAs parser fs path lang
  | none => .error (.unknownLanguage path)

/-- Read and parse a file, in the given language or in that of its extension. -/
def openFile (parser : Parser) (fs : FileSystem) (path : Path) (lang : Option Language) :
    Except DocumentError Document :=
  match lang with
  | some lang => openAs parser fs path lang
  | none => openDetected parser fs path

/-- The root node. -/
def root (d : Document) : Node :=
  Node.root d.tree

/-- Edits wait. -/
def dirty (d : Document) : Bool :=
  !d.queue.isEmpty

/-! ## §3. Queries. -/

/-- The view at hand, or else a new one of the current text.  A text that has been
parsed once is parsed again here; the tree of the document stands in only so that
there always is one. -/
def viewed (d : Document) : View :=
  d.view.getD { text := d.text, tree := (d.parser.parse d.lang d.text).getD d.tree }

/-- The document after a query has looked at it: a pattern leaves the view behind. -/
def consulted (d : Document) : QueryText → Document
  | .pattern _ => { d with view := some d.viewed }
  | .tree _ => d

/-- The nodes of the scope, itself included, that a query selects. -/
def search (d : Document) (scope : Node) : QueryText → Except SelectionError (List Node)
  | .pattern source => do
      let p ← (Pattern.compile d.parser d.lang source).mapError .pattern
      return p.search d.viewed.text (Node.root d.viewed.tree) scope
  | .tree source => do
      let q ← (TreeQuery.compile d.lang source).mapError .query
      (q.search d.text scope).mapError .query

/-- All nodes that a query selects. -/
def query (d : Document) (q : QueryText) : Except SelectionError (Selection .root) × Document :=
  (.many <$> d.search d.root q, d.consulted q)

/-- The nodes that a query selects inside a node, itself included. -/
def queryInside (d : Document) (n : Node) (q : QueryText) :
    Except SelectionError (Selection .derived) × Document :=
  (.many <$> d.search n q, d.consulted q)

/-! ## §4. Edits. -/

/-- Queue an edit. -/
def push (d : Document) (e : Edit) : Document :=
  { d with queue := d.queue ++ [e] }

/-- Drop all edits that wait; the edits, and the document without them. -/
def discard (d : Document) : List Edit × Document :=
  (d.queue, { d with queue := [] })

/-- Queue an edit for each node of a selection, until the callback fails. -/
def schedule {σ : Type} (d : Document) (s : Selection .root) (intent : Intent)
    (callback : Callback σ) (state : σ) : Except SelectionError Unit × Document × σ :=
  let r := s.schedule intent callback d.queue state
  let outcome := match r.error with
    | some e => .error e
    | none => .ok ()
  (outcome, { d with queue := r.queue }, r.state)

/-- Queue the removal of each node of a selection. -/
def remove (d : Document) (s : Selection .root) : Document :=
  { d with queue := s.remove d.queue }

/-- One of the four calls that edit: an edit is queued for each node of a selection,
and the selection is handed on to the next call.  Removing asks no callback. -/
def mutate {σ : Type} (d : Document) (s : Selection .root) (intent : Intent)
    (callback : Callback σ) (state : σ) :
    Except SelectionError (Selection .root) × Document × σ :=
  match intent with
  | .remove => (.ok s, d.remove s, state)
  | intent =>
      let (outcome, d, state) := d.schedule s intent callback state
      (outcome.map fun _ => s, d, state)

/-- The queue spliced into the text. -/
def spliced (d : Document) : Except DocumentError Splice :=
  (splice d.text d.queue).mapError .edit

/-- The tree of a spliced text, parsed with the help of the tree from before. -/
def reparse (d : Document) (s : Splice) : Except DocumentError Tree :=
  match d.parser.reparse d.lang d.tree s.changes s.text with
  | some tree => .ok tree
  | none => .error .unparsable

/-- The steps of a commit.  A step that fails leaves what the steps before it have
made of the document. -/
def commitSteps : ExceptT DocumentError (StateM Document) Tally := do
  let d ← get
  if d.queue.isEmpty then
    return {}
  let s ← liftExcept d.spliced
  let tree ← liftExcept (d.reparse s)
  modify fun d => { d with queue := [] }
  modify fun d => { d with text := s.text }
  modify fun d => { d with tree := tree }
  modify fun d => { d with view := none }
  modify fun d => { d with touched := true }
  return s.tally

/-- Splice the queue into the text and parse the result; how many edits were
applied and dropped, and the document after it. -/
def commitWithTally (d : Document) : Except DocumentError Tally × Document :=
  commitSteps.run.run d

/-- Splice the queue into the text and parse the result. -/
def commit (d : Document) : Except DocumentError Unit × Document :=
  let (outcome, d) := d.commitWithTally
  (outcome.map fun _ => (), d)

/-! ## §5. Display. -/

/-- A character that is shown by its number: controls, characters that cannot be
seen, and marks that combine with the one before. -/
def isHidden (c : Char) : Bool :=
  let n := c.toNat
  let within (lo hi : Nat) := lo ≤ n && n ≤ hi
  n < 32 || within 0x7F 0x9F || n == 0xAD || within 0x300 0x36F || within 0x200B 0x200F
    || within 0x2028 0x202E || within 0x2060 0x206F || within 0xE000 0xF8FF
    || within 0xFE00 0xFE0F || n == 0xFEFF

/-- A character inside quotes. -/
def quotedChar (c : Char) : String :=
  match c with
  | '"' => "\\\""
  | '\\' => "\\\\"
  | '\n' => "\\n"
  | '\r' => "\\r"
  | '\t' => "\\t"
  | '\x00' => "\\0"
  | c =>
      if isHidden c then "\\u\x7b" ++ String.ofList (Nat.toDigits 16 c.toNat) ++ "\x7d"
      else c.toString

/-- A text in quotes. -/
def quoted (s : String) : String :=
  "\"" ++ String.join (s.toList.map quotedChar) ++ "\""

/-- How a document is shown. -/
def describe (d : Document) : String :=
  let path := match d.path with
    | some p => "Some(" ++ quoted p.spelling ++ ")"
    | none => "None"
  let size := d.text.length
  let waiting := d.queue.length
  "Document \x7b path: " ++ path ++ ", lang: " ++ d.lang.name ++ s!", len: {size}, pending: {waiting}"
    ++ s!", touched: {d.touched} \x7d"

end Document

end StructuralEdit
