/-
  StructuralEdit.Main
  ───────────────────
  **THE PROGRAM.**

  Reads what the paths of a call lead to, answers the call on it, prints what there
  is to print, and writes back the files that changed.  Parse trees are looked up in
  the table whose file name is in `STRUCTURAL_EDIT_TREES`.
-/
import StructuralEdit.CommandLine.Execute
import StructuralEdit.TreeTable

namespace StructuralEdit.Program

/-! ## §1. What to read. -/

/-- The paths that a call names. -/
def pathsOf : CommandLine.Request → List Path
  | .run r => r.rules :: CommandLine.rootsOf r.paths
  | .query r => CommandLine.rootsOf r.paths
  | .check path => [path]
  | .version => []

/-- The locations that a path passes, its end first. -/
def passed (fs : FileSystem) (p : Path) : List Location :=
  p.pieces.foldl (fun locs piece => FileSystem.step (locs.headD []) piece :: locs) [fs.startOf p]

/-- The location lies below some of the others. -/
def isBelow (locs : List Location) (loc : Location) : Bool :=
  locs.any fun dir => (wayFrom? dir loc).isSome

/-! ## §2. Reading. -/

/-- The bytes of a text. -/
def bytesOf (t : Text) : ByteArray :=
  ⟨t.toArray⟩

/-- The absolute path of a location. -/
def spelled (loc : Location) : String :=
  "/" ++ "/".intercalate loc

/-- The place of a location on the disk. -/
def placeOf (loc : Location) :=
  (· / spelled loc) <$> IO.currentDir

/-- What stands at a location. -/
def entryAt (loc : Location) : IO (List (Location × Entry)) := do
  let place ← placeOf loc
  if ← place.isDir then return [(loc, .directory)]
  else if ← place.pathExists then
    return [(loc, .file (← IO.FS.readBinFile place).data.toList)]
  else return []

/-- All entries below a location; links are passed over. -/
partial def entriesBelow (dir : Location) : IO (List (Location × Entry)) := do
  let place ← placeOf dir
  if !(← place.isDir) then return []
  let parts ← (← place.readDir).toList.mapM fun e => do
    let loc := dir ++ [e.fileName]
    match (← e.path.symlinkMetadata).type with
    | .dir => return (loc, .directory) :: (← entriesBelow loc)
    | .file => return [(loc, .file (← IO.FS.readBinFile e.path).data.toList)]
    | _ => return []
  return parts.flatten

/-- The entries that paths pass, and all that lies below their ends. -/
def readFiles (paths : List Path) : IO FileSystem := do
  let spelling := (← IO.currentDir).toString
  let fs : FileSystem := { current := (cutAt '/' spelling).filter (!Path.isIdle ·) }
  let ends := (paths.map fun p => (passed fs p).headD []).eraseDups
  -- an end below another is read with it
  let tops := ends.filter (!isBelow ends ·)
  let onTheWay := ((⟨spelling⟩ :: paths).flatMap (passed fs)).eraseDups.filter fun loc =>
    !loc.isEmpty && !isBelow tops loc
  let above ← onTheWay.mapM entryAt
  let below ← tops.mapM entriesBelow
  return { fs with entries := above.flatten ++ below.flatten }

/-- The parser of a call. -/
def readParser : IO Parser := do
  match ← IO.getEnv "STRUCTURAL_EDIT_TREES" with
  | some file => return parserOf (TreeTable.parses (← IO.FS.readFile file))
  | none => return parserOf []

/-! ## §3. Writing. -/

/-- Write a file beside its place and move it there. -/
def replaceFile (loc : Location) (content : Text) : IO Unit := do
  let path := spelled loc
  let beside := path ++ ".new"
  IO.FS.writeBinFile beside (bytesOf content)
  IO.FS.rename beside path

/-- Write back the files that changed. -/
def writeFiles (before after : FileSystem) : IO Unit := do
  for (loc, entry) in after.entries do
    if let .file content := entry then
      if before.entry? loc != some entry then replaceFile loc content

end StructuralEdit.Program

open StructuralEdit Program in
/-- Answer a call. -/
def main (args : List String) : IO UInt32 := do
  let files ← readFiles ((CommandLine.request args).elim [] pathsOf)
  let answer := CommandLine.execute (← readParser) files args
  (← IO.getStdout).write (bytesOf answer.out)
  (← IO.getStderr).write (bytesOf answer.err)
  writeFiles files answer.files
  return answer.code.toUInt32
