import KernelRegistry.FileTree.Changes
import KernelRegistry.Sight

/-!
# The command line

Reads the files that a run looks at, lets the run decide, and does to the files what it decided.
The permissions of a file cannot be read here, so every file counts as one that may be run; of an
interpreter, only a script can be run.
-/

set_option autoImplicit false
namespace KernelRegistry
namespace Main

open Text (Bytes)

/-- A location as the text of a path. -/
def pathText (location : Location) : String :=
  (Path.mk (Path.slash :: Path.joinSegments location)).display

/-- The bytes of a file. -/
def bytesOf (content : ByteArray) : Bytes := content.toList

/-- Everything at a path, read into a tree. -/
partial def look (location : Location) : IO FileTree := do
  let here ← IO.currentDir
  let path := here / pathText location
  match (← path.symlinkMetadata).type with
  | .dir =>
    let entries ← (← path.readDir).toList.mapM fun entry => do
      let name := Text.encode entry.fileName
      return (name, ← look (location ++ [name]))
    return .directory entries
  | .symlink => return .link (Text.encode (← IO.FS.realPath path).toString)
  | _ => return .file 0o755 (bytesOf (← IO.FS.readBinFile path))

/-- Whether a path leads to a directory; links are followed. -/
def isDirectory (location : Location) : IO Bool := do
  try
    let path := (← IO.currentDir) / pathText location
    match (← path.metadata).type with
    | .dir => return true
    | _ => return false
  catch _ => return false

/-- Adds what is at a location.  If it is missing because there is a file where a directory should
be, the file is added. -/
def observe (tree : FileTree) (location : Location) : IO FileTree := do
  for n in List.range location.length do
    let above := location.take (n + 1)
    if !(← isDirectory above) then
      try
        return tree.graft (← look above) above
      catch _ => return tree
  return tree.graft (← look location) location

/-- Carries out one change on the real disk. -/
def apply : FileTree.Change → IO Unit
  | .remove location => do
    let path := (← IO.currentDir) / pathText location
    match (← path.symlinkMetadata).type with
    | .dir => IO.FS.removeDirAll path
    | _ => IO.FS.removeFile path
  | .makeDirectory location => IO.FS.createDirAll (pathText location)
  | .writeFile location _ content => do
    IO.FS.writeBinFile (pathText location) ⟨content.toArray⟩
    IO.setAccessRights (pathText location) {
      user := { read := true, write := true, execution := true }
      group := { read := true, execution := true }
      other := { read := true, execution := true }
    }
  | .makeLink .. => return

/-- The variables that matter to a run. -/
def variableNames : List String := ["HOME", "JUPYTER_DATA_DIR", "PATH", "XDG_DATA_HOME"]

/-- The machine as far as the paths tell that a run looks at. -/
def machine (program : ProgramDirectory) (argv : List Bytes) : IO Machine := do
  let directory := Path.ofString (← IO.currentDir).toString
  let working := locationOf directory directory
  let bindings ← variableNames.filterMapM fun name => do
    return (← IO.getEnv name).map fun value => (Text.encode name, Text.encode value)
  let blank : FileTree := (FileTree.directory []).graft (.directory []) working
  let mut m : Machine := { tree := blank, working, bindings }
  for _ in List.range sightRounds do
    let tree ← (sight program m argv).foldlM
      (fun tree p => observe tree (locationOf directory p)) blank
    m := { m with tree }
  return m

/-- The name that the program was called by, and its directory, beside which the manifest is looked
for. -/
def programDirectory : IO (String × ProgramDirectory) := do
  try
    let name := (← IO.appPath).toString
    match Path.parent? (.ofString name) with
    | some directory => return (name, .known directory)
    | none => return (name, .missing)
  catch e => return ("", .unlocated (.other (toString e)))

/-- How a line of the log starts. -/
def levelText : Level → String
  | .info => " INFO "
  | .warning => " WARN "

end Main
end KernelRegistry

open KernelRegistry in
/-- Installs the kernelspec that the manifest names. -/
def main (arguments : List String) : IO UInt32 := do
  let (name, program) ← Main.programDirectory
  let argv := (name :: arguments).map Text.encode
  let m ← Main.machine program argv
  let (outcome, after) := run id program m argv
  for change in FileTree.changes [] m.tree after do
    Main.apply change
  for line in outcome.log do
    IO.eprintln (Main.levelText line.level ++ line.message)
  IO.print outcome.stdout
  IO.eprint outcome.stderr
  return UInt32.ofNat outcome.exitCode
