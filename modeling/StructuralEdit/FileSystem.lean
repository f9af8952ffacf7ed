/-
  StructuralEdit.FileSystem
  ─────────────────────────
  **FILES AND DIRECTORIES AS A VALUE.**

  A file system lists its entries, each with its location: the names on the way to
  it from the root.  One location is that of the current directory.  A path that
  starts with a slash is followed from the root, and any other from the current
  directory, piece by piece; each piece, also an empty one after a trailing slash,
  asks that what has been reached so far be a directory.  A `..` goes to what that
  directory lies in; the root lies in itself.

      /a/b     root, a, b
      a/../b   current directory, a, current directory, b

  An entry is a file or a directory, and a path leads to one location at most.  Left out
  are symbolic links, by which paths go on elsewhere; special files; and what else is
  known of an entry, such as its times and permissions.

  Writing replaces a whole file or fails and changes nothing.  A `Writer` is whatever
  does so in the end; it may fail where `FileSystem.write` would not, for want of room
  or of leave, and says why in words of its own.
-/
import StructuralEdit.Text
import StructuralEdit.Path

namespace StructuralEdit

/-- The names that lead from the root to an entry. -/
abbrev Location := List String

/-- What stands at a location. -/
inductive Entry where
  | file (content : Text)
  | directory
  deriving DecidableEq, Repr

/-- Why a file cannot be read or written. -/
inductive FileError where
  | notFound
  | notADirectory
  | isADirectory
  /-- The file can be read but is not UTF-8. -/
  | notText
  deriving DecidableEq, Repr

/-- The wording of a file error. -/
def FileError.message : FileError → String
  | .notFound => "No such file or directory (os error 2)"
  | .notADirectory => "Not a directory (os error 20)"
  | .isADirectory => "Is a directory (os error 21)"
  | .notText => "stream did not contain valid UTF-8"

/-- The entries below the root, and where paths without a leading slash start. -/
structure FileSystem where
  entries : List (Location × Entry) := []
  /-- The current directory.  Where it is gone, paths from it lead nowhere. -/
  current : Location := []
  deriving DecidableEq, Repr

namespace FileSystem

/-! ## §1. Looking up. -/

/-- The entry at a location; the root itself is a directory. -/
def entry? (fs : FileSystem) (loc : Location) : Option Entry :=
  if loc = [] then some .directory else fs.entries.lookup loc

/-- What has been reached is a directory. -/
def requireDirectory (fs : FileSystem) (loc : Location) : Except FileError Unit :=
  match fs.entry? loc with
  | some .directory => .ok ()
  | some (.file _) => .error .notADirectory
  | none => .error .notFound

/-- Where one piece of a path leads from a directory. -/
def step (dir : Location) (piece : String) : Location :=
  if Path.isIdle piece then dir
  else if piece == ".." then dir.dropLast
  else dir ++ [piece]

/-- One piece of a path, taken from a location. -/
def follow (fs : FileSystem) (loc : Location) (piece : String) : Except FileError Location := do
  fs.requireDirectory loc
  return step loc piece

/-- Where a path starts. -/
def startOf (fs : FileSystem) (p : Path) : Location :=
  if p.isAbsolute then [] else fs.current

/-- The location a path leads to.  Nothing need stand there, but the way there
must be directories.  The empty path leads nowhere. -/
def locate (fs : FileSystem) (p : Path) : Except FileError Location :=
  if p.spelling == "" then .error .notFound else p.pieces.foldlM fs.follow (fs.startOf p)

/-- The location a path leads to, and the entry that stands there. -/
def resolve (fs : FileSystem) (p : Path) : Except FileError (Location × Entry) := do
  let loc ← fs.locate p
  match fs.entry? loc with
  | some e => return (loc, e)
  | none => throw .notFound

/-- The entry a path leads to. -/
def find (fs : FileSystem) (p : Path) : Except FileError Entry :=
  (·.2) <$> fs.resolve p

/-- The path leads to a file. -/
def isFile (fs : FileSystem) (p : Path) : Bool :=
  match fs.find p with
  | .ok (.file _) => true
  | _ => false

/-! ## §2. Reading and writing. -/

/-- The bytes of a file. -/
def read (fs : FileSystem) (p : Path) : Except FileError Text := do
  match ← fs.find p with
  | .file content => return content
  | .directory => throw .isADirectory

/-- The bytes of a file that holds UTF-8. -/
def readText (fs : FileSystem) (p : Path) : Except FileError Text := do
  let content ← fs.read p
  if content.decode.isSome then return content else throw .notText

/-- Put an entry at a location, in place of what stood there. -/
def put (fs : FileSystem) (loc : Location) (e : Entry) : FileSystem :=
  if (fs.entries.lookup loc).isSome then
    { fs with entries := fs.entries.map fun old => if old.1 = loc then (loc, e) else old }
  else { fs with entries := fs.entries ++ [(loc, e)] }

/-- Remove the entry at a location. -/
def remove (fs : FileSystem) (loc : Location) : FileSystem :=
  { fs with entries := fs.entries.filter (·.1 ≠ loc) }

/-- Replace a file as a whole: the new content is written beside it and then
takes its name. -/
def write (fs : FileSystem) (p : Path) (content : Text) : Except FileError FileSystem := do
  let dir ← fs.locate p.directory
  fs.requireDirectory dir
  if p.spelling.endsWith "/" then
    match fs.find p with
    | .ok _ => throw .isADirectory
    | .error _ => throw .notADirectory
  let loc ← fs.locate p
  match fs.entry? loc with
  | some .directory => throw .isADirectory
  | _ => return fs.put loc (.file content)

end FileSystem

/-- What replaces the file at a path: the files after it, or the wording of why not. -/
abbrev Writer := FileSystem → Path → Text → Except String FileSystem

/-- The writer that fails only where the file system has no place for a file. -/
def FileSystem.writer : Writer := fun fs path content =>
  (fs.write path content).mapError FileError.message

end StructuralEdit
