/-
  StructuralEdit.Pattern.Match
  ────────────────────────────
  **DOES A NODE MATCH A PATTERN?**

  A leaf asks for kind and, if it is named, for text; a branch asks for kind and
  matches its children from left to right.  Between the children of the
  candidate, mere tokens that the pattern does not mention are passed over, and
  what follows the last child of the pattern does not matter.

  An ellipsis takes candidates until the next child of the pattern matches.
  Tokens of the pattern right after an ellipsis (a separator, say) are left out
  of the comparison, and as many nodes at the end of the stretch are left out
  of what a named ellipsis remembers.

  The memory of metavariables is threaded through all attempts, failed ones
  included: a name once bound by an attempt stays bound for the rest of the
  match.
-/
import StructuralEdit.Pattern.Basic

namespace StructuralEdit

/-! ## §1. What a match remembers. -/

/-- What the metavariables have been bound to. -/
structure Memory where
  single : List (String × Tree) := []
  several : List (String × List Tree) := []

/-- The tree has no named child. -/
def Tree.isNamedLeaf (t : Tree) : Bool :=
  !t.children.any (·.label.named)

mutual

/-- Two trees over one text say the same: equal texts if either has no named
child, otherwise equal kinds and children that say the same one by one. -/
def Tree.saysSame (text : Text) : Tree → Tree → Bool
  | .node l cs, other =>
      if Tree.isNamedLeaf (.node l cs) || other.isNamedLeaf then
        text.slice l.start l.stop == text.slice other.label.start other.label.stop
      else
        l.kind == other.label.kind && l.named == other.label.named
          && Tree.allSaySame text cs other.children

/-- The lists are equally long and say the same one by one. -/
def Tree.allSaySame (text : Text) : List Tree → List Tree → Bool
  | [], [] => true
  | c :: cs, d :: ds => Tree.saysSame text c d && Tree.allSaySame text cs ds
  | _, _ => false

end

namespace Memory

/-- Bind a name to a node; a name that is bound already must say the same. -/
def bindOne (m : Memory) (text : Text) (name : String) (t : Tree) : Bool × Memory :=
  match m.single.lookup name with
  | some old => (Tree.saysSame text old t, m)
  | none => (true, { m with single := (name, t) :: m.single })

/-- Bind a name to several nodes; a name that is bound already must have the
same named nodes. -/
def bindMany (m : Memory) (text : Text) (name : String) (ts : List Tree) : Bool × Memory :=
  let namedOf (xs : List Tree) := xs.filter (·.label.named)
  match m.several.lookup name with
  | some old => (Tree.allSaySame text (namedOf old) (namedOf ts), m)
  | none => (true, { m with several := (name, ts) :: m.several })

end Memory

/-! ## §2. One node. -/

/-- What comparing a pattern with one candidate says. -/
inductive Verdict where
  | matched
  /-- The candidate is a token that may be passed over. -/
  | skip
  | failed
  deriving DecidableEq, Repr

namespace Pattern

/-- The kinds agree; the error kind agrees with every kind. -/
def kindMatches (kind : String) (named : Bool) (l : Label) : Bool :=
  (kind == l.kind && named == l.named) || kind == errorKind

/-- Compare a leaf with a candidate. -/
def matchLeaf (text : Text) (kind : String) (named : Bool) (spelling : Text) (l : Label) :
    Verdict :=
  if kindMatches kind named l && (!named || spelling == text.slice l.start l.stop) then .matched
  else if l.named then .failed
  else .skip

/-- Compare a metavariable with a candidate. -/
def matchVariable (text : Text) (v : Metavariable) (t : Tree) (m : Memory) : Bool × Memory :=
  match v with
  | .capture name namedOnly =>
      if namedOnly && !t.label.named then (false, m) else m.bindOne text name t
  | .wild namedOnly => (!namedOnly || t.label.named, m)
  | .ellipsis => (true, m)
  | .namedEllipsis name => m.bindOne text name t

/-- The name of an ellipsis, `some none` for one without a name. -/
def ellipsis? : Pattern → Option (Option String)
  | .metavariable .ellipsis => some none
  | .metavariable (.namedEllipsis name) => some (some name)
  | _ => none

/-- A token of the pattern. -/
def isToken : Pattern → Bool
  | .leaf _ named _ => !named
  | _ => false

/-- An ellipsis has taken `taken`; the last `slack` of them are forgotten. -/
def closeEllipsis (text : Text) (name : Option String) (taken : List Tree) (slack : Nat)
    (m : Memory) : Bool × Memory :=
  match name with
  | none => (true, m)
  | some name => m.bindMany text name (taken.take (taken.length - slack))

/-! ## §3. Lists of candidates. -/

/-- A comparison of some pattern with a candidate. -/
abbrev Comparison := Tree → Memory → Verdict × Memory

/-- Pass over tokens until the comparison succeeds; what follows the candidate
that matched is left. -/
def passOver (compare : Comparison) : List Tree → Memory → Option (List Tree) × Memory
  | [], m => (none, m)
  | c :: cs, m =>
      match compare c m with
      | (.matched, m) => (some cs, m)
      | (.skip, m) => passOver compare cs m
      | (.failed, m) => (none, m)

/-- Take candidates until the comparison succeeds; the candidates taken, and
those left, the one that matched among them. -/
def takeUntil (compare : Comparison) : List Tree → Memory → Option (List Tree × List Tree) × Memory
  | [], m => (none, m)
  | c :: cs, m =>
      match compare c m with
      | (.matched, m) => (some ([], c :: cs), m)
      | (_, m) =>
          match takeUntil compare cs m with
          | (some (taken, left), m) => (some (c :: taken, left), m)
          | (none, m) => (none, m)

mutual

/-- Compare a pattern with a candidate. -/
def matchTree (text : Text) : Pattern → Comparison
  | .leaf kind named spelling, t, m => (matchLeaf text kind named spelling t.label, m)
  | .metavariable v, t, m =>
      match matchVariable text v t m with
      | (true, m) => (.matched, m)
      | (false, m) => (.failed, m)
  | .branch kind named children, t, m =>
      if kindMatches kind named t.label && !t.children.isEmpty then
        match matchChildren text children t.children m with
        | (true, m) => (.matched, m)
        | (false, m) => (.failed, m)
      else (.failed, m)

/-- Match the children of a branch with a list of candidates that is not
empty. -/
def matchChildren (text : Text) : List Pattern → List Tree → Memory → Bool × Memory
  | [], _, m => (true, m)
  | p :: ps, cs, m =>
      match ellipsis? p with
      | some name => matchAfterEllipsis text name 0 ps cs m
      | none =>
          match passOver (matchTree text p) cs m with
          | (none, m) => (false, m)
          | (some rest, m) =>
              if ps.isEmpty then (true, m)
              else if rest.isEmpty then (false, m)
              else matchChildren text ps rest m

/-- Match what follows an ellipsis; `slack` tokens of the pattern have been
left out. -/
def matchAfterEllipsis (text : Text) (name : Option String) (slack : Nat) :
    List Pattern → List Tree → Memory → Bool × Memory
  | [], cs, m => closeEllipsis text name cs slack m
  | p :: ps, cs, m =>
      if isToken p then matchAfterEllipsis text name (slack + 1) ps cs m
      else match ellipsis? p with
        | some next =>
            if cs.length ≤ 1 then (false, m)
            else match closeEllipsis text name (cs.take 1) slack m with
              | (false, m) => (false, m)
              | (true, m) => matchAfterEllipsis text next 0 ps (cs.drop 1) m
        | none =>
            match takeUntil (matchTree text p) cs m with
            | (none, m) => (false, m)
            | (some (taken, left), m) =>
                match closeEllipsis text name taken slack m with
                | (false, m) => (false, m)
                | (true, m) =>
                    match passOver (matchTree text p) left m with
                    | (none, m) => (false, m)
                    | (some rest, m) =>
                        if ps.isEmpty then (true, m)
                        else if rest.isEmpty then (false, m)
                        else matchChildren text ps rest m

end

/-- The kind a node must have to be tried at all: a metavariable and a branch
of the error kind are tried everywhere. -/
def isCandidate (p : Pattern) (l : Label) : Bool :=
  match p with
  | .metavariable _ => true
  | .leaf kind named _ => kind == l.kind && named == l.named
  | .branch kind named _ => kind == errorKind || (kind == l.kind && named == l.named)

/-- The tree over this text matches the pattern. -/
def accepts (p : Pattern) (text : Text) (t : Tree) : Bool :=
  p.isCandidate t.label && (matchTree text p t {}).1 == .matched

end Pattern

end StructuralEdit
