import KernelRegistry.FileTree.Disk
import KernelRegistry.FileTree.Walk

/-!
# Operations on files

Each operation takes a path seen from a working directory and leaves a file tree, also when it
fails.  It asks the disk for every change it makes.

Looking something up is never forbidden: a path that cannot be followed is one that the tree does
not have.  Who may read, write or pass through a directory is left to the disk, which can refuse
any change and any reading.  Files are closed again, so there is no limit on how many are open, and
permissions can always be set on a file that was opened; they are set as they were read, with the
bits that some systems clear.  A working directory that was removed is found nowhere, so that no
relative path leads anywhere from it.

* `isFileAt`, `isDirectoryAt`, `existsAt` — questions, which follow links and never fail.
* `bytesAt`, `textAt` — the content of a file.
* `makeDirectory`, `makeDirectories` — one directory, or all that a path is missing.
* `writeFile` — a file with its directories.
* `copyFile` — content and permissions of a file.
* `removeAll` — whatever is at a path; the targets of links are spared.
-/

set_option autoImplicit false
namespace KernelRegistry
namespace FileTree

open Text (Bytes)

/-! ## Questions -/

/-- Whether anything is at the end of the path.  A path that cannot be followed counts as one at
which nothing is. -/
def existsAt (root : FileTree) (working : Location) (p : Path) : Bool :=
  (find root working true p).toBool

/-- Whether a file is at the end of the path. -/
def isFileAt (root : FileTree) (working : Location) (p : Path) : Bool :=
  match find root working true p with
  | .ok (_, node) => node.isFile
  | .error _ => false

/-- Whether a directory is at the end of the path. -/
def isDirectoryAt (root : FileTree) (working : Location) (p : Path) : Bool :=
  match find root working true p with
  | .ok (_, node) => node.isDirectory
  | .error _ => false

/-- The content of a file. -/
def bytesAt (root : FileTree) (working : Location) (p : Path) : Except FileError Bytes := do
  match ← find root working true p with
  | (_, .file _ content) => return content
  | _ => .error .isDirectory

/-- The content of a file that is text. -/
def textAt (root : FileTree) (working : Location) (p : Path) : Except FileError String := do
  match Text.decode? (← bytesAt root working p) with
  | some s => return s
  | none => .error .notText

/-! ## Operations -/

section Operations

variable [Disk]

/-- The content of a file that is text, once the disk has opened it. -/
def readText (working : Location) (p : Path) : Action String := do
  let (location, _) ← answer fun root => find root working true p
  ask (.read location)
  answer fun root => textAt root working p

/-! ### Directories -/

/-- Makes a directory whose parent exists. -/
def makeDirectory (working : Location) (p : Path) : Action Unit := do
  match ← answer fun root => locateEntry root working p with
  | .present .. => throw .exists
  | .absent above name _ => do
    ask (.makeDirectory (above ++ [name]))
    place (above ++ [name]) (some (.directory []))

/-- Makes a directory, unless there is one. -/
def ensureDirectory (working : Location) (p : Path) : Action Unit := fun root =>
  match makeDirectory working p root with
  | .error e root => if isDirectoryAt root working p then .ok () root else .error e root
  | made => made

/-- Makes a directory after those that the path is missing.  A path has fewer components than
bytes, which bounds the number of steps. -/
def makeMissing (working : Location) : Nat → Path → Action Unit
  | 0, _ => throw .notFound
  | steps + 1, p => fun root =>
    if p.isEmpty then .ok () root
    else
      match ensureDirectory working p root with
      | .error .notFound root =>
        match p.parent? with
        | some parent => (do makeMissing working steps parent; ensureDirectory working p) root
        | none => .error .notFound root
      | done => done

/-- Makes the directories that a path is missing. -/
def makeDirectories (working : Location) (p : Path) : Action Unit :=
  makeMissing working (p.bytes.length + 1) p

/-- Makes the directories above a path. -/
def makeParents (working : Location) (p : Path) : Action Unit :=
  match p.parent? with
  | some parent => makeDirectories working parent
  | none => pure ()

/-! ### Files -/

/-- The permissions of a file that is made for writing. -/
def newFileMode : Nat := 0o644

/-- Where a file that is opened for writing is, and its permissions if it is there. -/
def openTarget (root : FileTree) (working : Location) (p : Path) :
    Except FileError (Location × Option Nat) :=
  if p.bytes.getLast? = some Path.slash then do
    let _ ← locateEntry root working p
    .error .isDirectory
  else do
    match ← locate root working true p with
    | .present location (.file mode _) => return (location, some mode)
    | .present .. => .error .isDirectory
    | .absent above name false => return (above ++ [name], none)
    | .absent _ _ true => .error .isDirectory

/-- Writes a file in a directory that exists; a file that was there keeps its permissions. -/
def overwrite (working : Location) (p : Path) (content : Bytes) : Action Unit := do
  let (location, mode) ← answer fun root => openTarget root working p
  ask (.openFile location)
  write location (mode.getD newFileMode) content

/-- Writes a file after making its directories. -/
def writeFile (working : Location) (p : Path) (content : Bytes) : Action Unit := do
  makeParents working p
  overwrite working p content

/-- Copies content and permissions of a file; gives the number of bytes.  The target is emptied
before the source is read, so a file that is copied to itself ends up empty. -/
def copyOver (working : Location) (source target : Path) : Action Nat := do
  let (here, node) ← answer fun root => find root working true source
  ask (.read here)
  match node with
  | .file mode _ => do
    let (there, _) ← answer fun root => openTarget root working target
    ask (.openFile there)
    place there (some (.file mode []))
    let content ← answer fun root =>
      match root.get? here with
      | some (.file _ content) => .ok content
      | _ => .ok []
    write there mode content
    return content.length
  | _ => throw .notRegular

/-- Copies a file after making the directories of the target. -/
def copyFile (working : Location) (source target : Path) : Action Nat := do
  makeParents working target
  copyOver working source target

/-! ### Removal -/

/-- The last segment of a path without slashes at its end. -/
def lastSegment (p : Path) : Bytes :=
  ((Path.segments (dropSlashes p).bytes).getLast?).getD []

/-- Removes a directory without entries. -/
def removeEmpty (working : Location) (p : Path) : Action Unit := do
  let last := lastSegment p
  match ← answer fun root => locate root working false (dropSlashes p) with
  | .absent .. => throw .notFound
  | .present location node =>
    if last = [Path.dot] then throw .invalidArgument
    else if last = [Path.dot, Path.dot] then throw .notEmpty
    else
      match node with
      | .directory [] => do
        ask (.removeDirectory location)
        place location none
      | .directory _ => throw .notEmpty
      | _ => throw .notDirectory

/-- Removes something with all that is in it.  What is in a directory goes first, in the order in
which the directory holds it. -/
def removeNode (location : Location) : FileTree → Action Unit
  | directory entries => do
    ask (.read location)
    removeEntries location entries
    ask (.removeDirectory location)
    place location none
  | _ => do
    ask (.unlink location)
    place location none
where
  /-- Removes what is in a directory. -/
  removeEntries (location : Location) : List (Bytes × FileTree) → Action Unit
    | [] => pure ()
    | (name, node) :: rest => do
      removeNode (location ++ [name]) node
      removeEntries location rest

/-- Removes what is in the directory at a path, and then the directory; that it has vanished by
then is no error. -/
def removeDirectory (working : Location) (location : Location) (entries : List (Bytes × FileTree))
    (p : Path) : Action Unit := do
  ask (.read location)
  removeNode.removeEntries location entries
  fun root =>
    match removeEmpty working p root with
    | .error .notFound root => .ok () root
    | done => done

/-- Removes a directory with all that is in it, or a link; not a file. -/
def removeTree (working : Location) (p : Path) : Action Unit := do
  match ← answer fun root => find root working false p with
  | (location, .link _) => do
    ask (.unlink location)
    place location none
  | (location, .directory entries) => removeDirectory working location entries p
  | (_, .file ..) => throw .notDirectory

/-- Removes what `removeTree` removes, and says whether there was something. -/
def removeAll (working : Location) (p : Path) : Action Bool := fun root =>
  match removeTree working p root with
  | .ok () root => .ok true root
  | .error .notFound root => .ok false root
  | .error e root => .error e root

end Operations

end FileTree
end KernelRegistry
