/-
  StructuralEdit.Glob
  ───────────────────
  **GLOB PATTERNS FOR PATHS.**

      ?        one character
      *        any characters, slashes too
      **       nothing, or everything up to and with some slash, or all the rest;
               it must be a whole component, and takes the slash behind it along
      [a-z.]   one character of a set, which is never empty: `[]]` holds `]`
      [!a-z]   one character that is not in the set

  Anything else stands for itself; there is no escape.  Letter case matters.
-/

namespace StructuralEdit

/-! ## §1. Errors. -/

/-- What is wrong with a glob. -/
inductive GlobFlaw where
  /-- More than two stars in a row. -/
  | wildcards
  /-- Two stars that are not a whole component. -/
  | recursion
  /-- A set without its end. -/
  | set
  deriving DecidableEq, Repr

/-- A flaw and the number of characters before it. -/
structure GlobError where
  position : Nat
  flaw : GlobFlaw
  deriving DecidableEq, Repr

/-- The wording of a flaw. -/
def GlobFlaw.message : GlobFlaw → String
  | .wildcards => "wildcards are either regular `*` or recursive `**`"
  | .recursion => "recursive wildcards must form a single path component"
  | .set => "invalid range pattern"

/-- The wording of a glob error. -/
def GlobError.message (e : GlobError) : String :=
  s!"Pattern syntax error near position {e.position}: " ++ e.flaw.message

/-! ## §2. Globs. -/

/-- The characters from `first` to `last`. -/
structure CharRange where
  first : Char
  last : Char
  deriving DecidableEq, Repr

/-- A piece of a glob. -/
inductive GlobToken where
  | char (c : Char)
  | anyChar
  | star
  | deepStar
  | set (negated : Bool) (ranges : List CharRange)
  deriving DecidableEq, Repr

/-- A glob: its pieces, from left to right. -/
structure Glob where
  tokens : List GlobToken
  deriving DecidableEq, Repr

namespace Glob

/-- The ranges between the brackets of a set. -/
def rangesOf : List Char → List CharRange
  | a :: '-' :: b :: rest => ⟨a, b⟩ :: rangesOf rest
  | a :: rest => ⟨a, a⟩ :: rangesOf rest
  | [] => []

/-- The characters of a set behind its opening bracket; the first of them does
not close it. -/
def setAt : List Char → Option (List Char)
  | [] => none
  | c :: rest =>
      if rest.contains ']' then some (c :: rest.takeWhile (· != ']')) else none

/-- The set behind an opening bracket, and how many characters it takes. -/
def set? : List Char → Option (GlobToken × Nat)
  | '!' :: rest => (setAt rest).map fun cs => (.set true (rangesOf cs), cs.length + 2)
  | rest => (setAt rest).map fun cs => (.set false (rangesOf cs), cs.length + 1)

/-- The tokens of a glob from `position` on, behind the character `before`.  The
first `skip` characters belong to a token already read. -/
def tokensFrom : Nat → Nat → Option Char → List Char → Except GlobError (List GlobToken)
  | _, _, _, [] => .ok []
  | skip + 1, position, _, c :: rest => tokensFrom skip (position + 1) (some c) rest
  | 0, position, before, c :: rest =>
      let next (skip : Nat) := tokensFrom skip (position + 1) (some c) rest
      match c, rest with
      | '?', _ => (.anyChar :: ·) <$> next 0
      | '*', '*' :: '*' :: _ => .error ⟨position + 2, .wildcards⟩
      | '*', '*' :: tail =>
          if before.any (· != '/') then .error ⟨position - 1, .recursion⟩
          else match tail with
            | [] => (.deepStar :: ·) <$> next 1
            | '/' :: _ => (.deepStar :: ·) <$> next 2
            | _ => .error ⟨position + 2, .recursion⟩
      | '*', _ => (.star :: ·) <$> next 0
      | '[', _ =>
          match set? rest with
          | some (token, count) => (token :: ·) <$> next count
          | none => .error ⟨position, .set⟩
      | _, _ => (.char c :: ·) <$> next 0

/-- Read a glob. -/
def compile (source : String) : Except GlobError Glob :=
  Glob.mk <$> tokensFrom 0 0 none source.toList

/-! ## §3. Matching. -/

/-- The character is what a token other than the stars asks for. -/
def accepts (token : GlobToken) (c : Char) : Bool :=
  match token with
  | .char c' => c == c'
  | .anyChar => true
  | .set negated ranges => ranges.any (fun r => r.first ≤ c && c ≤ r.last) != negated
  | .star | .deepStar => false

/-- Some end of a text, the text itself included, satisfies a test. -/
def anySuffix (test : List Char → Bool) : List Char → Bool
  | [] => test []
  | c :: rest => test (c :: rest) || anySuffix test rest

/-- What follows some slash of a text satisfies a test. -/
def anyTail (test : List Char → Bool) : List Char → Bool
  | [] => false
  | c :: rest => (c == '/' && test rest) || anyTail test rest

/-- The tokens match a text as a whole. -/
def matchTokens : List GlobToken → List Char → Bool
  | [], cs => cs.isEmpty
  | .star :: rest, cs => anySuffix (matchTokens rest) cs
  | .deepStar :: rest, cs =>
      matchTokens rest cs || anyTail (matchTokens rest) cs || matchTokens rest []
  | token :: rest, cs =>
      match cs with
      | [] => false
      | c :: cs => accepts token c && matchTokens rest cs

/-- The glob matches a text as a whole. -/
def isMatch (g : Glob) (s : String) : Bool :=
  matchTokens g.tokens s.toList

end Glob

end StructuralEdit
