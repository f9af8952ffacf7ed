/-
  StructuralEdit.Query.Form
  ─────────────────────────
  **TREE QUERIES AS THEY ARE WRITTEN.**

  A query is a list of S-expressions.  `(kind child …)` asks for a node and for
  children below it, in order but not necessarily side by side; `_` and `(_)`
  ask for any node, `"x"` for a token, `field: …` for a node stored under a
  field and `!field` for its absence.  `[…]` is a choice, `(… …)` a sequence of
  siblings, `*`, `+` and `?` repeat, `.` ties neighbours together, `@name`
  captures, and `(#name? …)` puts a condition on what is captured.

  Reading checks every name against the vocabulary as it goes, so the first
  fault from the left is the one that is reported, with the byte offset at
  which it was found.
-/
import StructuralEdit.Query.Vocabulary

namespace StructuralEdit.Query

/-! ## §1. Forms. -/

/-- Which nodes a form admits. -/
inductive NodeTest where
  /-- Every node but an error; `namedOnly` refuses tokens. -/
  | any (namedOnly : Bool)
  | kind (name : String) (named : Bool)
  /-- Every node that belongs to a family. -/
  | family (f : Family)
  deriving Repr

/-- How often a form may match. -/
inductive Quantifier where
  | atMostOnce
  | anyNumber
  | atLeastOnce
  deriving DecidableEq, Repr

/-- An argument of a condition: a capture by its number, or a text. -/
inductive Argument where
  | capture (id : Nat)
  | literal (s : String)
  deriving DecidableEq, Repr

/-- A condition as it is written: its name, mark included, and its arguments. -/
structure Condition where
  name : String
  arguments : List Argument
  deriving DecidableEq, Repr

/-- One expression of a query; offsets say where it starts. -/
inductive Form where
  /-- A node: what it may be, whether it has to be missing, the fields it must
  not have, and the items inside. -/
  | node (offset : Nat) (test : NodeTest) (missing : Bool) (absent : List String)
      (items : List Form)
  | choice (offset : Nat) (branches : List Form)
  | siblings (offset : Nat) (items : List Form)
  | field (offset : Nat) (name : String) (form : Form)
  | quantified (quantifier : Quantifier) (form : Form)
  | captured (id : Nat) (form : Form)
  /-- The dot between two items, or at the end of the items of a node. -/
  | anchor
  /-- A condition stands among the items and asks for no node. -/
  | condition
  deriving Repr

/-- What is wrong with a query, and where. -/
inductive Flaw where
  | malformed (offset : Nat)
  | unknownKind (offset : Nat)
  | unknownField (offset : Nat)
  | unknownCapture (offset : Nat)
  /-- No tree of the grammar can match. -/
  | impossible (offset : Nat)
  /-- A condition of the clause that starts at `offset` makes no sense. -/
  | badCondition (offset : Nat) (reason : String)
  deriving DecidableEq, Repr

/-! ## §2. The reader. -/

/-- A query half read. -/
structure Reading where
  rest : List Char
  offset : Nat := 0
  /-- The capture names met so far; a capture's number is its place here. -/
  captures : List String := []
  /-- The conditions of the clause being read. -/
  conditions : List Condition := []

/-- A reader of part of a query. -/
abbrev Reader := StateT Reading (Except Flaw)

namespace Reader

/-- The next character, the NUL character at the end. -/
def peek : Reader Char := do
  return (← get).rest.headD '\x00'

/-- Where the next character stands. -/
def here : Reader Nat := do
  return (← get).offset

/-- Take the next character. -/
def advance : Reader Unit :=
  modify fun r =>
    match r.rest with
    | [] => r
    | c :: cs => { r with rest := cs, offset := r.offset + c.utf8Size }

/-- Give up here. -/
def giveUp {α : Type} : Reader α := do
  throw (.malformed (← here))

/-- A blank character. -/
def isBlank (c : Char) : Bool :=
  c == ' ' || (9 ≤ c.toNat && c.toNat ≤ 13)

/-- A name can start with the character. -/
def startsName (c : Char) : Bool :=
  c.isAlphanum || c == '_' || c == '-'

/-- A name can go on with the character. -/
def continuesName (c : Char) : Bool :=
  startsName c || c == '.'

/-- The number of bytes of some characters. -/
def widthOf : List Char → Nat
  | [] => 0
  | c :: rest => c.utf8Size + widthOf rest

/-- Take characters while they satisfy `p`. -/
def takeWhile (p : Char → Bool) : Reader String := do
  let r ← get
  let taken := r.rest.takeWhile p
  set { r with rest := r.rest.drop taken.length, offset := r.offset + widthOf taken }
  return String.ofList taken

/-- What skipping blanks has come to. -/
inductive Mode where
  | blank
  | comment
  | stopped

/-- Skip blanks and comments, which run from `;` to the end of the line. -/
def skipBlanks : Reader Unit :=
  modify fun r =>
    let (skipped, _) := r.rest.foldl
      (fun (taken, mode) c =>
        match mode with
        | Mode.stopped => (taken, mode)
        | Mode.comment => (c :: taken, if c == '\n' then Mode.blank else mode)
        | Mode.blank =>
            if isBlank c then (c :: taken, mode)
            else if c == ';' then (c :: taken, Mode.comment)
            else (taken, Mode.stopped))
      ([], Mode.blank)
    { r with
      rest := r.rest.drop skipped.length
      offset := r.offset + widthOf skipped }

/-- A name. -/
def name : Reader String :=
  takeWhile continuesName

/-- What a backslash and the character after it stand for. -/
def unescape : Char → Char
  | 'n' => '\n'
  | 'r' => '\r'
  | 't' => '\t'
  | '0' => '\x00'
  | c => c

/-- The inside of a quoted text and what follows its quote, with the number of
bytes read; `none` if it does not end on its line. -/
def quotedFrom : List Char → Option (List Char × Nat × List Char)
  | [] => none
  | '"' :: rest => some ([], 1, rest)
  | '\n' :: _ => none
  | ['\\'] => none
  | '\\' :: c :: rest => do
      let (text, width, rest) ← quotedFrom rest
      some (unescape c :: text, width + 1 + c.utf8Size, rest)
  | c :: rest => do
      let (text, width, rest) ← quotedFrom rest
      some (c :: text, width + c.utf8Size, rest)

/-- A quoted text. -/
def quoted : Reader String := do
  let r ← get
  match r.rest with
  | '"' :: cs =>
      match quotedFrom cs with
      | some (text, width, rest) =>
          set { r with rest := rest, offset := r.offset + 1 + width }
          return String.ofList text
      | none => giveUp
  | _ => giveUp

/-- The number of a capture, a new one for a new name. -/
def captureId (name : String) : Reader Nat := do
  let r ← get
  match r.captures.findIdx? (· == name) with
  | some id => return id
  | none =>
      set { r with captures := r.captures ++ [name] }
      return r.captures.length

end Reader

open Reader

/-! ## §3. Names of nodes. -/

/-- The kind of error nodes, which every grammar has. -/
def errorName : String := "ERROR"

/-- The word for a missing node. -/
def missingName : String := "MISSING"

/-- The test for a named node.  A beginning of the word for errors will do for
the word. -/
def testOfName (v : Vocabulary) (name : String) : Option NodeTest :=
  if errorName.startsWith name then some (.kind errorName true)
  else match v.family? name with
    | some f => some (.family f)
    | none => if v.hasKind name then some (.kind name true) else none

/-- A named node, whose name starts at `offset`. -/
def knownNode (v : Vocabulary) (offset : Nat) (name : String) : Reader NodeTest :=
  match testOfName v name with
  | some test => return test
  | none => throw (.unknownKind offset)

/-- A token in quotes. -/
def knownToken (v : Vocabulary) : Reader NodeTest := do
  let start ← here
  let text ← quoted
  if v.hasToken text then return .kind text false else throw (.unknownKind (start + 1))

/-- What follows the word for a missing node: a name, a token, or nothing. -/
def missingTest (v : Vocabulary) : Reader NodeTest := do
  skipBlanks
  let c ← peek
  if startsName c then
    let start ← here
    knownNode v start (← name)
  else if c == '"' then knownToken v
  else if c == ')' then return .any true
  else giveUp

/-- The name of a node after its parenthesis: what it may be, and whether it has
to be missing. -/
def nodeTest (v : Vocabulary) : Reader (NodeTest × Bool) := do
  if !startsName (← peek) then giveUp
  let start ← here
  let word ← name
  if word == "_" then return (.any true, false)
  else if missingName.startsWith word then return (← missingTest v, true)
  else
    let test ← knownNode v start word
    if (← peek) == '/' then
      match test with
      | .family _ =>
          advance
          let start ← here
          if startsName (← peek) then return (← knownNode v start (← name), false)
          else if (← peek) == '"' then return (← knownToken v, false)
          else giveUp
      | _ => throw (.impossible (start - 1))
    else return (test, false)

/-! ## §4. Conditions. -/

/-- The arguments of a condition up to its parenthesis. -/
def readArguments : Nat → List Argument → Reader (List Argument)
  | 0, _ => giveUp
  | fuel + 1, done => do
      skipBlanks
      let c ← peek
      if c == ')' then
        advance
        skipBlanks
        return done
      else if c == '@' then
        advance
        if !startsName (← peek) then giveUp
        let start ← here
        let word ← name
        match (← get).captures.findIdx? (· == word) with
        | some id => readArguments fuel (done ++ [.capture id])
        | none => throw (.unknownCapture start)
      else if c == '"' then
        let text ← quoted
        readArguments fuel (done ++ [.literal text])
      else if startsName c then
        let word ← name
        readArguments fuel (done ++ [.literal word])
      else giveUp

/-- A condition after its sign; its name ends in `?` or `!`. -/
def readCondition (fuel : Nat) : Reader Unit := do
  if !startsName (← peek) then giveUp
  let word ← name
  let mark ← peek
  if mark != '?' && mark != '!' then giveUp
  advance
  let arguments ← readArguments fuel []
  modify fun r => { r with
    conditions := r.conditions ++ [{ name := word.push mark, arguments := arguments }] }

/-! ## §5. Forms. -/

/-- A field that must not be there, after its sign. -/
def readAbsentField (v : Vocabulary) : Reader String := do
  advance
  skipBlanks
  if !startsName (← peek) then giveUp
  let start ← here
  let word ← name
  skipBlanks
  if v.hasField word then return word else throw (.unknownField start)

/-- A dot before an item. -/
def readAnchor : Reader Bool := do
  if (← peek) == '.' then
    advance
    skipBlanks
    return true
  else return false

mutual

/-- One form with its marks; `none` before a closing bracket. -/
def readForm (v : Vocabulary) : Nat → Reader (Option Form)
  | 0 => giveUp
  | fuel + 1 => do
      let c ← peek
      let start ← here
      if c == ')' || c == ']' then return none
      else if c == '[' then
        advance
        skipBlanks
        let branches ← readBranches v fuel []
        return some (← readMarks v fuel (.choice start branches))
      else if c == '(' then
        advance
        skipBlanks
        let c ← peek
        if c == '(' || c == '"' || c == '[' then
          let (items, _) ← readItems v fuel false [] []
          return some (← readMarks v fuel (.siblings start items))
        else if c == '.' || c == '#' then
          advance
          readCondition fuel
          return some .condition
        else
          let (test, missing) ← nodeTest v
          skipBlanks
          let (items, absent) ← readItems v fuel true [] []
          return some (← readMarks v fuel (.node start test missing absent items))
      else if c == '_' then
        advance
        return some (← readMarks v fuel (.node start (.any false) false [] []))
      else if c == '"' then
        let test ← knownToken v
        return some (← readMarks v fuel (.node start test false [] []))
      else if startsName c then
        let word ← name
        skipBlanks
        if (← peek) != ':' then throw (.malformed start)
        advance
        skipBlanks
        match ← readForm v fuel with
        | none => giveUp
        | some form =>
            if v.hasField word then return some (← readMarks v fuel (.field start word form))
            else throw (.unknownField start)
      else giveUp

/-- The branches of a choice up to its bracket; there is at least one. -/
def readBranches (v : Vocabulary) : Nat → List Form → Reader (List Form)
  | 0, _ => giveUp
  | fuel + 1, done => do
      match ← readForm v fuel with
      | some form => readBranches v fuel (done ++ [form])
      | none =>
          if (← peek) == ']' && !done.isEmpty then
            advance
            return done
          else giveUp

/-- The items of a node, or of a sequence of siblings, up to the parenthesis. -/
def readItems (v : Vocabulary) : Nat → Bool → List Form → List String →
    Reader (List Form × List String)
  | 0, _, _, _ => giveUp
  | fuel + 1, inNode, items, absent => do
      if inNode && (← peek) == '!' then
        let field ← readAbsentField v
        readItems v fuel inNode items (absent ++ [field])
      else
        let anchored ← readAnchor
        let items' := if anchored then items ++ [.anchor] else items
        match ← readForm v fuel with
        | some form => readItems v fuel inNode (items' ++ [form]) absent
        | none =>
            if (← peek) != ')' || (inNode && anchored && items.isEmpty) then giveUp
            advance
            return (items', absent)

/-- The marks after a form: repetitions and captures, in order. -/
def readMarks (v : Vocabulary) : Nat → Form → Reader Form
  | 0, _ => giveUp
  | fuel + 1, form => do
      skipBlanks
      let c ← peek
      if c == '+' then
        advance
        readMarks v fuel (.quantified .atLeastOnce form)
      else if c == '*' then
        advance
        readMarks v fuel (.quantified .anyNumber form)
      else if c == '?' then
        advance
        readMarks v fuel (.quantified .atMostOnce form)
      else if c == '@' then
        advance
        if !startsName (← peek) then giveUp
        let id ← captureId (← name)
        readMarks v fuel (.captured id form)
      else return form

end

/-! ## §6. Whole queries. -/

/-- One expression at the top of a query, with its conditions. -/
structure Clause where
  offset : Nat
  form : Form
  conditions : List Condition
  deriving Repr

/-- The clauses from here to the end. -/
def readClauses (v : Vocabulary) : Nat → List Clause → Reader (List Clause)
  | 0, _ => giveUp
  | fuel + 1, done => do
      skipBlanks
      if (← get).rest.isEmpty then return done
      let start ← here
      modify fun r => { r with conditions := [] }
      match ← readForm v fuel with
      | none => giveUp
      | some form =>
          let clause := { offset := start, form := form, conditions := (← get).conditions }
          readClauses v fuel (done ++ [clause])

/-- Read a query: its clauses and the names of its captures. -/
def readQuery (v : Vocabulary) (source : String) : Except Flaw (List Clause × List String) := do
  let fuel := 4 * source.length + 8
  let (clauses, r) ← (readClauses v fuel []).run { rest := source.toList }
  return (clauses, r.captures)

end StructuralEdit.Query
