/-
  StructuralEdit.Discovery
  ────────────────────────
  **WHICH FILES A RUN WORKS ON.**

  A root that is a file is always kept.  A root that is a directory stands for the
  files below it that are reached through names without a leading dot, that pass
  the filter, and whose language is known: it is given, or the extension gives it
  away.  The files come out in the order of their components, and of paths with
  the same components only the first is kept.
-/
import StructuralEdit.Glob
import StructuralEdit.FileSystem
import StructuralEdit.Sorting

namespace StructuralEdit

/-! ## §1. Filters. -/

/-- The globs that a path must and must not match. -/
structure FileFilter where
  includes : List Glob := []
  excludes : List Glob := []
  deriving DecidableEq, Repr

namespace FileFilter

/-- Read the globs of a filter; the first bad one is the error. -/
def compile (includes excludes : List String) : Except GlobError FileFilter := do
  return { includes := ← includes.mapM Glob.compile, excludes := ← excludes.mapM Glob.compile }

/-- The path matches some glob that it must, if there are any, and none that it
must not.  A leading `.` does not count. -/
def accepts (f : FileFilter) (p : Path) : Bool :=
  let s := p.withoutLeadingDot.spelling
  (f.includes.isEmpty || f.includes.any (·.isMatch s)) && !f.excludes.any (·.isMatch s)

end FileFilter

/-! ## §2. Walking. -/

/-- A root that cannot be walked. -/
structure WalkError where
  path : Path
  cause : FileError
  deriving DecidableEq, Repr

/-- The wording of a walk error. -/
def WalkError.message (e : WalkError) : String :=
  "IO error for operation on " ++ e.path.spelling ++ ": " ++ e.cause.message

/-- A name that a walk passes by. -/
def isHiddenName (name : String) : Bool :=
  name.startsWith "."

/-- The names that lead from a directory to an entry below it. -/
def wayFrom? (dir loc : Location) : Option (List String) :=
  if dir.isPrefixOf loc && dir.length < loc.length then some (loc.drop dir.length) else none

/-- The paths of the files below a directory, reached through names that are not
hidden. -/
def filesBelow (fs : FileSystem) (root : Path) (dir : Location) : List Path :=
  fs.entries.filterMap fun
    | (loc, .file _) =>
        match wayFrom? dir loc with
        | some way => if way.any isHiddenName then none else some (way.foldl Path.join root)
        | none => none
    | (_, .directory) => none

/-- The path is of interest: its language is known and it passes the filter. -/
def isWanted (filter : FileFilter) (lang : Option Language) (p : Path) : Bool :=
  (lang.isSome || p.language?.isSome) && filter.accepts p

/-- The files that one root stands for. -/
def filesOfRoot (fs : FileSystem) (filter : FileFilter) (lang : Option Language) (root : Path) :
    Except WalkError (List Path) :=
  match fs.resolve root with
  | .ok (_, .file _) => .ok [root]
  | .ok (dir, .directory) => .ok ((filesBelow fs root dir).filter (isWanted filter lang))
  | .error cause => .error ⟨root, cause⟩

/-! ## §3. Sorted files. -/

/-- Keep of neighbouring paths with the same components the first. -/
def dropSame : List Path → List Path
  | [] => []
  | p :: rest =>
      match dropSame rest with
      | [] => [p]
      | q :: qs => if p.same q then p :: qs else p :: q :: qs

/-- The files that the roots stand for, in order and each once; the first root
that cannot be walked is the error. -/
def discover (fs : FileSystem) (roots : List Path) (filter : FileFilter)
    (lang : Option Language) : Except WalkError (List Path) := do
  let found ← roots.mapM (filesOfRoot fs filter lang)
  return dropSame (sortBy Path.le found.flatten)

end StructuralEdit
