/-
  StructuralEdit.Query.Feasible
  ─────────────────────────────
  **PATTERNS THAT CAN NEVER MATCH.**

  If the vocabulary knows what can stand below a kind, then a step that asks for
  such a node with certain children can be checked against it: walk through all
  that could stand there and see how far the steps for the children get.  Where
  none of the ways gets through all of them, the pattern is impossible, and the
  step that came furthest is to blame.
-/
import StructuralEdit.Query.Program

namespace StructuralEdit.Query

/-- A child that could stand somewhere satisfies a step. -/
def Step.couldAdmit (kind : String) (named : Bool) (field : Option String) (s : Step) : Bool :=
  let fieldFits := match s.field with
    | none => true
    | some f => field == some f
  match s.test with
  | .any namedOnly => (named || !namedOnly) && fieldFits
  | .kind name isNamed =>
      if name == errorName && isNamed then true
      else name == kind && isNamed == named && fieldFits
  | .family f => f.has kind field && fieldFits

/-- The first step after `i` that does not lie below step `i`. -/
def skipBelow (steps : Steps) (i : Nat) : Nat :=
  let depth := (steps[i]?.map (·.depth)).getD 0
  i + 1 + ((steps.toList.drop (i + 1)).takeWhile (depth < ·.depth)).length

/-- The steps at which the matching can go on from step `i`: forks lead on, jumps
only to their alternative, and alternatives further on count too. -/
def onward (steps : Steps) : Nat → Nat → List Nat
  | 0, i => [i]
  | fuel + 1, i =>
      match steps[i]? with
      | none => [i]
      | some s =>
          if s.role == .fork then onward steps fuel (i + 1)
          else
            let here := if s.role == .jump then [] else [i]
            match s.alternative with
            | some a => if i < a then here ++ onward steps fuel a else here
            | none => here

/-- Where the steps stand after one more child; a step that is not satisfied
stays where it is. -/
def afterChild (steps : Steps) (kind : String) (named : Bool) (field : Option String)
    (reached : List Nat) : List Nat :=
  (reached.flatMap fun i =>
    match steps[i]? with
    | some s =>
        if s.couldAdmit kind named field then onward steps (steps.size + 1) (skipBelow steps i)
        else [i]
    | none => [i]).eraseDups

/-- Where the steps can stand after an extra that may or may not be there. -/
def afterExtras (v : Vocabulary) (steps : Steps) (reached : List Nat) : List Nat :=
  (reached ++ v.extras.flatMap fun kind => afterChild steps kind true none reached).eraseDups

/-- Where the steps can stand after all the children. -/
def afterContent (v : Vocabulary) (steps : Steps) : Content → List Nat → List Nat
  | .nothing, reached => reached
  | .child kind named field, reached =>
      afterChild steps kind named field (afterExtras v steps reached)
  | .sequence a b, reached => afterContent v steps b (afterContent v steps a reached)
  | .either a b, reached =>
      (afterContent v steps a reached ++ afterContent v steps b reached).eraseDups
  | .many a, reached =>
      afterExtras v steps
        ((List.range (steps.size + 1)).foldl
          (fun reached _ => (reached ++ afterContent v steps a reached).eraseDups) reached)

/-- The offset of a step, or of the next one that has one. -/
def offsetOf (steps : Steps) (i : Nat) : Nat :=
  match (steps.toList.drop i).findSome? (·.offset) with
  | some offset => offset
  | none => (steps.toList.reverse.findSome? (·.offset)).getD 0

/-- The offset of what makes the children of step `i` impossible. -/
def impossibleBelow? (v : Vocabulary) (steps : Steps) (i : Nat) : Option Nat :=
  match steps[i]?, steps[i + 1]? with
  | some parent, some child =>
      match parent.test with
      | .kind kind true =>
          if child.depth ≤ parent.depth || kind == errorName then none
          else if v.leaves.contains kind then some (offsetOf steps (i + 1))
          else match v.contents.lookup kind with
            | none => none
            | some content =>
                let last := skipBelow steps i
                let reached := afterContent v steps content [i + 1]
                if reached.any (last ≤ ·) then none
                else some (offsetOf steps (reached.foldl max i))
      | _ => none
  | _, _ => none

/-- The offset of the first thing that makes a clause impossible. -/
def impossible? (v : Vocabulary) (steps : Steps) : Option Nat :=
  (List.range steps.size).findSome? (impossibleBelow? v steps)

end StructuralEdit.Query
