/-
  StructuralEdit.Path
  ───────────────────
  **FILE PATHS AND THEIR COMPONENTS.**

  A path keeps the spelling it was given, and that spelling is what is shown.
  It is COMPARED by components: empty components and inner `.` count for
  nothing, a leading `.` counts, and `..` stays as it is.
-/
import StructuralEdit.Cut
import StructuralEdit.Language

namespace StructuralEdit

/-- A path as it was spelled. -/
structure Path where
  spelling : String
  deriving DecidableEq, Repr, Inhabited

/-- A component of a path. -/
inductive Component where
  /-- The leading slash of an absolute path. -/
  | root
  /-- A leading `.`. -/
  | here
  /-- Any `..`. -/
  | up
  | name (s : String)
  deriving DecidableEq, Repr

/-- The order of components: the slash, `.`, `..`, then names by code points. -/
def Component.compare : Component → Component → Ordering
  | .name a, .name b => Ord.compare a b
  | a, b => Ord.compare (rank a) (rank b)
where
  rank : Component → Nat
    | .root => 0
    | .here => 1
    | .up => 2
    | .name _ => 3

namespace Path

/-- What stands between the slashes. -/
def pieces (p : Path) : List String :=
  cutAt '/' p.spelling

/-- The path starts with a slash. -/
def isAbsolute (p : Path) : Bool :=
  p.spelling.startsWith "/"

/-- A piece that stands for no step: nothing, or a `.`. -/
def isIdle (piece : String) : Bool :=
  piece == "" || piece == "."

/-- The component of a piece that is not idle. -/
def componentOf (piece : String) : Component :=
  if piece == ".." then .up else .name piece

/-- The components. -/
def components (p : Path) : List Component :=
  let rest := (p.pieces.filter (!isIdle ·)).map componentOf
  match p.pieces with
  | "" :: _ :: _ => .root :: rest
  | "." :: _ => .here :: rest
  | _ => rest

/-- Lexicographic comparison of components. -/
def compareAll : List Component → List Component → Ordering
  | [], [] => .eq
  | [], _ :: _ => .lt
  | _ :: _, [] => .gt
  | a :: as, b :: bs => (a.compare b).then (compareAll as bs)

/-- `p` sorts no later than `q`. -/
def le (p q : Path) : Bool :=
  (compareAll p.components q.components).isLE

/-- The paths have the same components, however they are spelled. -/
def same (p q : Path) : Bool :=
  p.components == q.components

/-- The last component, when it is a name. -/
def fileName? (p : Path) : Option String :=
  match p.components.getLast? with
  | some (.name s) => some s
  | _ => none

/-- What follows the last dot of a file name; a dot at the very front does not
count. -/
def extension? (p : Path) : Option String := do
  let name ← p.fileName?
  match (cutAt '.' name).reverse with
  | [] | [_] => none
  | [_, ""] => none
  | last :: _ => some last

/-- The language that the extension gives away. -/
def language? (p : Path) : Option Language :=
  p.extension?.bind Language.ofExtension?

/-- The path of an entry of the directory `p`. -/
def join (p : Path) (entry : String) : Path :=
  if p.spelling == "" || p.spelling.endsWith "/" then ⟨p.spelling ++ entry⟩
  else ⟨p.spelling ++ "/" ++ entry⟩

/-- The path without a leading `.` and the idle pieces at either end that this
lays bare; a path that does not start with `.` is left alone. -/
def withoutLeadingDot (p : Path) : Path :=
  match p.pieces with
  | "." :: rest =>
      let trimmed := ((rest.dropWhile isIdle).reverse.dropWhile isIdle).reverse
      ⟨"/".intercalate trimmed⟩
  | _ => p

/-- The directory that holds the file: all pieces up to the last component. -/
def directory (p : Path) : Path :=
  let kept := (p.pieces.reverse.dropWhile isIdle).tail.reverse
  match kept with
  | [] => ⟨"."⟩
  | [""] => ⟨"/"⟩
  | _ => ⟨"/".intercalate kept⟩

end Path

end StructuralEdit
