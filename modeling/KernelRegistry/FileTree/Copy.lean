import KernelRegistry.FileTree.Actions

/-!
# Copying a directory

A directory is copied entry by entry, in whatever order its entries are listed.  Directories are
copied as directories; of anything else, what it is or links to is copied as a file.

* `Listing` — an order for the entries of each directory.
* `readDirectory` — the names in a directory, as they are listed.
* `copyTree` — the copy, and the number of files copied.
-/

set_option autoImplicit false
namespace KernelRegistry
namespace FileTree

open Text (Bytes)

/-- The order in which the entries of a directory are listed.  It is seen where they are, so it may
differ from one directory to another even if their names do not.  With each entry goes whether it
is a directory itself. -/
abbrev Listing := List (Location × Bool) → List (Location × Bool)

/-- The names in a directory, as they are listed, and for each whether it is a directory itself. -/
def listNames (listing : Listing) (directory : Location) (entries : List (Bytes × FileTree)) :
    List (Bytes × Bool) :=
  let located := (FileTree.directory entries).names.map fun name =>
    (directory ++ [name], ((child? name entries).map FileTree.isDirectory).getD false)
  (listing located).map fun (entry, isDirectory) => (entry.getLastD [], isDirectory)

section Copying

variable [Disk]

/-- The names in a directory, as they are listed. -/
def readDirectory (listing : Listing) (working : Location) (p : Path) :
    Action (List (Bytes × Bool)) := do
  match ← answer fun root => find root working true p with
  | (location, .directory entries) => do
    ask (.read location)
    return listNames listing location entries
  | _ => throw .notDirectory

/-- Copies a directory that is nested less than `depth` deep.  Every level makes the path longer, so
the limit of paths is reached first. -/
def copyNested (listing : Listing) (working : Location) :
    (depth : Nat) → (source target : Path) → Action Nat
  | 0, _, _ => throw .nameTooLong
  | depth + 1, source, target => do
    makeDirectories working target
    let entries ← readDirectory listing working source
    entries.foldlM
      (fun count (name, isDirectory) => do
        let inner := Path.mk name
        if isDirectory then
          let copied ← copyNested listing working depth (source.join inner) (target.join inner)
          return count + copied
        else
          let _ ← copyFile working (source.join inner) (target.join inner)
          return count + 1)
      0

/-- Copies a directory; gives the number of files. -/
def copyTree (listing : Listing) (working : Location)
    (source target : Path) : Action Nat :=
  copyNested listing working pathLimit source target

end Copying

end FileTree
end KernelRegistry
