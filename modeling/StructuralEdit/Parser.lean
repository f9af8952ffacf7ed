/-
  StructuralEdit.Parser
  ─────────────────────
  **WHERE TREES COME FROM.**

  The grammars are not part of this library, so a parser is what it is given: a
  way to read a text from scratch, and a way to read a text again with the help
  of the tree that the text had before it was changed.
-/
import StructuralEdit.Language
import StructuralEdit.Splice
import StructuralEdit.Tree

namespace StructuralEdit

/-- What turns texts of a language into trees; `none` when parsing fails. -/
structure Parser where
  /-- The tree of a text. -/
  parse : Language → Text → Option Tree
  /-- The tree of a text, given the tree from before and what has changed since. -/
  reparse : Language → Tree → List Change → Text → Option Tree

/-- The parser that makes no use of earlier trees. -/
def Parser.afresh (parse : Language → Text → Option Tree) : Parser :=
  { parse := parse
    reparse := fun lang _ _ text => parse lang text }

end StructuralEdit
