/-
  StructuralEdit.Cut
  ──────────────────
  **CUTTING A STRING AT A CHARACTER.**

  `cutAt sep s` gives the pieces of a string between separators: always one more
  than there are separators, so the empty string has one piece, the empty one.
-/

namespace StructuralEdit

/-- The pieces of a list of characters between separators. -/
def cutChars (sep : Char) : List Char → List (List Char)
  | [] => [[]]
  | c :: rest =>
      if c = sep then [] :: cutChars sep rest
      else match cutChars sep rest with
        | [] => [[c]]
        | piece :: pieces => (c :: piece) :: pieces

/-- The pieces of a string between separators. -/
def cutAt (sep : Char) (s : String) : List String :=
  (cutChars sep s.toList).map String.ofList

end StructuralEdit
