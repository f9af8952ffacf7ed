/-
  StructuralEdit.Query.Regex
  ──────────────────────────
  **REGULAR EXPRESSIONS FOR TEXT PREDICATES.**

  The usual notation: characters and `.`, classes `[a-z]` and `[^a-z]`, escapes
  such as `\d`, groups, `|`, the anchors `^ $ \b \B`, and the repetitions `*`,
  `+`, `?`, `{m}`, `{m,}`, `{m,n}`, lazy forms included.  Whether a text matches
  does not depend on greed, so the matcher only computes WHERE a match that
  starts at a given place can end: `Regex.ends`, by recursion on the expression.
  A repetition never needs more rounds than there are characters left.
-/
import StructuralEdit.Sorting

namespace StructuralEdit

/-! ## §1. Expressions. -/

/-- A regular expression. -/
inductive Regex where
  /-- Nothing at all. -/
  | empty
  /-- One character of a class: inside one of the ranges, or inside none. -/
  | one (inside : Bool) (ranges : List (Char × Char))
  | sequence (a b : Regex)
  | either (a b : Regex)
  /-- Any number of times. -/
  | many (a : Regex)
  /-- The start of the text. -/
  | atStart
  /-- The end of the text. -/
  | atEnd
  /-- Between a word character and something else, or the opposite. -/
  | wordEdge (holds : Bool)
  deriving Repr

namespace Regex

/-- A single character. -/
def char (c : Char) : Regex :=
  one true [(c, c)]

/-- Exactly `n` times. -/
def times (a : Regex) : Nat → Regex
  | 0 => empty
  | n + 1 => sequence a (times a n)

/-- At most `n` times. -/
def upTo (a : Regex) : Nat → Regex
  | 0 => empty
  | n + 1 => either empty (sequence a (upTo a n))

/-- Decimal digits. -/
def digits : List (Char × Char) :=
  [('0', '9')]

/-- Letters, digits and the underscore; every character beyond ASCII counts as a
letter. -/
def wordChars : List (Char × Char) :=
  [('0', '9'), ('A', 'Z'), ('_', '_'), ('a', 'z'), (Char.ofNat 0xAA, Char.ofNat 0x10FFFF)]

/-- White space. -/
def blanks : List (Char × Char) :=
  [('\t', '\r'), (' ', ' '), (Char.ofNat 0x85, Char.ofNat 0x85),
    (Char.ofNat 0xA0, Char.ofNat 0xA0)]

/-- The character lies in one of the ranges. -/
def inRanges (ranges : List (Char × Char)) (c : Char) : Bool :=
  ranges.any fun r => r.1 ≤ c && c ≤ r.2

/-! ## §2. Matching. -/

/-- The character at a place is a word character. -/
def isWordAt (text : Array Char) (i : Nat) : Bool :=
  text[i]?.any (inRanges wordChars)

/-- Merge places, without repeats. -/
def join (a b : List Nat) : List Nat :=
  a ++ b.filter (!a.contains ·)

/-- Repeat a step from the places reached so far, at most `fuel` rounds. -/
def closure (step : Nat → List Nat) : Nat → List Nat → List Nat
  | 0, reached => reached
  | fuel + 1, reached => closure step fuel (join reached (reached.flatMap step))

/-- The places where a match that starts at `i` can end. -/
def ends (text : Array Char) : Regex → Nat → List Nat
  | empty, i => [i]
  | one inside ranges, i =>
      match text[i]? with
      | some c => if inRanges ranges c == inside then [i + 1] else []
      | none => []
  | sequence a b, i => ((ends text a i).flatMap (ends text b)).eraseDups
  | either a b, i => join (ends text a i) (ends text b i)
  | many a, i => closure (ends text a) (text.size + 1 - i) [i]
  | atStart, i => if i == 0 then [i] else []
  | atEnd, i => if i == text.size then [i] else []
  | wordEdge holds, i =>
      let before := 0 < i && isWordAt text (i - 1)
      if (before != isWordAt text i) == holds then [i] else []

/-- Some stretch of the text matches. -/
def isMatch (r : Regex) (text : String) : Bool :=
  let chars := text.toList.toArray
  (List.range (chars.size + 1)).any fun i => !(ends chars r i).isEmpty

/-! ## §3. Reading. -/

/-- What is left to read. -/
abbrev Rest := List Char

/-- The class of an escape that stands for several characters. -/
def classEscape? : Char → Option (Bool × List (Char × Char))
  | 'd' => some (true, digits)
  | 'D' => some (false, digits)
  | 'w' => some (true, wordChars)
  | 'W' => some (false, wordChars)
  | 's' => some (true, blanks)
  | 'S' => some (false, blanks)
  | _ => none

/-- The character of an escape that stands for one; punctuation stands for
itself. -/
def charEscape? : Char → Option Char
  | 'n' => some '\n'
  | 't' => some '\t'
  | 'r' => some '\r'
  | 'a' => some (Char.ofNat 7)
  | 'f' => some (Char.ofNat 12)
  | 'v' => some (Char.ofNat 11)
  | c => if c.toNat < 128 && !c.isAlphanum && 32 ≤ c.toNat then some c else none

/-- A decimal number at the front. -/
def number? (cs : Rest) : Option (Nat × Rest) :=
  match cs.takeWhile Char.isDigit with
  | [] => none
  | ds => some (ds.foldl (fun n d => 10 * n + (d.toNat - 48)) 0, cs.dropWhile Char.isDigit)

/-- The ranges of a set that counts the other way round. -/
def complement (ranges : List (Char × Char)) : List (Char × Char) :=
  let sorted := sortBy (fun a b => a.1 ≤ b.1) ranges
  let (next, gaps) := sorted.foldl
    (fun (next, gaps) r =>
      let gaps := if next < r.1.toNat then gaps ++ [(Char.ofNat next, Char.ofNat (r.1.toNat - 1))]
        else gaps
      (max next (r.2.toNat + 1), gaps))
    (0, [])
  if next ≤ 0x10FFFF then gaps ++ [(Char.ofNat next, Char.ofNat 0x10FFFF)] else gaps

/-- One character of a class, or a set that an escape stands for. -/
def classItem? : Rest → Option ((Char ⊕ List (Char × Char)) × Rest)
  | '\\' :: c :: cs =>
      match classEscape? c with
      | some (true, ranges) => some (.inr ranges, cs)
      | some (false, ranges) => some (.inr (complement ranges), cs)
      | none => (charEscape? c).map fun c => (.inl c, cs)
  | ['\\'] => none
  | c :: cs => some (.inl c, cs)
  | [] => none

/-- The inside of a class up to its bracket; a bracket that comes first is a
character. -/
def readClass : Nat → Bool → List (Char × Char) → Rest → Option (List (Char × Char) × Rest)
  | 0, _, _, _ => none
  | fuel + 1, isFirst, ranges, cs =>
      match cs with
      | ']' :: rest => if isFirst then more fuel ranges cs else some (ranges, rest)
      | _ => more fuel ranges cs
where
  more (fuel : Nat) (ranges : List (Char × Char)) (cs : Rest) :
      Option (List (Char × Char) × Rest) := do
    let (item, cs) ← classItem? cs
    match item, cs with
    | .inr set, cs => readClass fuel false (ranges ++ set) cs
    | .inl lo, '-' :: ']' :: rest => some (ranges ++ [(lo, lo), ('-', '-')], rest)
    | .inl lo, '-' :: cs =>
        match ← classItem? cs with
        | (.inl hi, cs) =>
            if hi < lo then none else readClass fuel false (ranges ++ [(lo, hi)]) cs
        | (.inr _, _) => none
    | .inl c, cs => readClass fuel false (ranges ++ [(c, c)]) cs

/-- The repetition marks after an expression; a lazy mark changes nothing. -/
def readRepeats : Nat → Regex → Rest → Option (Regex × Rest)
  | 0, _, _ => none
  | fuel + 1, r, cs =>
      match cs with
      | '*' :: cs => readRepeats fuel (many r) (dropLazy cs)
      | '+' :: cs => readRepeats fuel (sequence r (many r)) (dropLazy cs)
      | '?' :: cs => readRepeats fuel (either r empty) (dropLazy cs)
      | '\x7b' :: cs => do
          let (low, cs) ← number? cs
          match cs with
          | '\x7d' :: cs => readRepeats fuel (times r low) (dropLazy cs)
          | ',' :: '\x7d' :: cs => readRepeats fuel (sequence (times r low) (many r)) (dropLazy cs)
          | ',' :: cs =>
              let (high, cs) ← number? cs
              match cs with
              | '\x7d' :: cs =>
                  if high < low then none
                  else readRepeats fuel (sequence (times r low) (upTo r (high - low))) (dropLazy cs)
              | _ => none
          | _ => none
      | _ => some (r, cs)
where
  dropLazy : Rest → Rest
    | '?' :: cs => cs
    | cs => cs

mutual

/-- Alternatives up to the end or a closing parenthesis. -/
def readAlternatives : Nat → Rest → Option (Regex × Rest)
  | 0, _ => none
  | fuel + 1, cs => do
      let (a, cs) ← readSequence fuel empty cs
      match cs with
      | '|' :: cs =>
          let (b, cs) ← readAlternatives fuel cs
          some (either a b, cs)
      | _ => some (a, cs)

/-- Items one after the other, `done` being read already. -/
def readSequence : Nat → Regex → Rest → Option (Regex × Rest)
  | 0, _, _ => none
  | fuel + 1, done, cs =>
      match cs with
      | [] | '|' :: _ | ')' :: _ => some (done, cs)
      | _ => do
          let (item, cs) ← readItem fuel cs
          let (item, cs) ← readRepeats fuel item cs
          readSequence fuel (sequence done item) cs

/-- One item: a character, a class, a group, an anchor. -/
def readItem : Nat → Rest → Option (Regex × Rest)
  | 0, _ => none
  | fuel + 1, cs =>
      match cs with
      | '(' :: '?' :: ':' :: cs => readGroup fuel cs
      | '(' :: cs => readGroup fuel cs
      | '[' :: '^' :: cs => do
          let (ranges, cs) ← readClass fuel true [] cs
          some (one false ranges, cs)
      | '[' :: cs => do
          let (ranges, cs) ← readClass fuel true [] cs
          some (one true ranges, cs)
      | '.' :: cs => some (one false [('\n', '\n')], cs)
      | '^' :: cs => some (atStart, cs)
      | '$' :: cs => some (atEnd, cs)
      | '\\' :: 'b' :: cs => some (wordEdge true, cs)
      | '\\' :: 'B' :: cs => some (wordEdge false, cs)
      | '\\' :: 'A' :: cs => some (atStart, cs)
      | '\\' :: 'z' :: cs => some (atEnd, cs)
      | '\\' :: c :: cs =>
          match classEscape? c with
          | some (inside, ranges) => some (one inside ranges, cs)
          | none => (charEscape? c).map fun c => (char c, cs)
      | '*' :: _ | '+' :: _ | '?' :: _ | '\x7b' :: _ | ['\\'] | [] => none
      | c :: cs => some (char c, cs)

/-- The rest of a group, its parenthesis included. -/
def readGroup : Nat → Rest → Option (Regex × Rest)
  | 0, _ => none
  | fuel + 1, cs => do
      match ← readAlternatives fuel cs with
      | (r, ')' :: cs) => some (r, cs)
      | _ => none

end

/-- Read a regular expression; `none` if it is not one. -/
def ofString? (source : String) : Option Regex :=
  match readAlternatives (4 * source.length + 8) source.toList with
  | some (r, []) => some r
  | _ => none

end Regex

end StructuralEdit
