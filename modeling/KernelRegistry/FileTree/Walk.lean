import KernelRegistry.Error
import KernelRegistry.FileTree.Basic

/-!
# Where a path leads

A path is followed name by name from the root or from the working directory.  Symbolic links on the
way are followed, up to a limit; the last one only where the operation asks for it.

* `Place` — something that is there, or the directory and the name where it is missing.
* `walk` — follows the names of a path; `walkOn` does it up to a link, so that the recursion is on
  the names and, at a link, on the links that may still be followed.
* `locate` — where a path leads; `locateEntry` — where the entry is that it names.
-/

set_option autoImplicit false
namespace KernelRegistry
namespace FileTree

open Text (Bytes)

/-- Where a path leads. -/
inductive Place where
  | present (location : Location) (node : FileTree)
  /-- Nothing is there; `slash` if the path ends in a slash. -/
  | absent (above : Location) (name : Bytes) (slash : Bool)

/-- How many symbolic links are followed. -/
def linkLimit : Nat := 40

/-- The largest number of bytes in a name. -/
def nameLimit : Nat := 255

/-- The number of bytes that no path reaches. -/
def pathLimit : Nat := 4096

/-- Follows segments of a path up to a link that has to be followed.  `trail` holds the names of the
directory `here`, the last one first.  `again` goes on after a link; it is missing if no more links
may be followed. -/
def walkOn (root : FileTree) (follow : Bool)
    (again : Option (List Bytes → FileTree → List Bytes → Except FileError Place))
    (trail : List Bytes) (here : FileTree) (segments : List Bytes) : Except FileError Place :=
  match segments with
  | [] => .ok (.present trail.reverse here)
  | name :: rest =>
    if Path.isTrivial name then walkOn root follow again trail here rest
    else if name = [Path.dot, Path.dot] then
      walkOn root follow again trail.tail ((root.get? trail.tail.reverse).getD root) rest
    else if nameLimit < name.length then .error .nameTooLong
    else
      match here.get? [name] with
      | none =>
        if rest.all (·.isEmpty) then .ok (.absent trail.reverse name (!rest.isEmpty))
        else .error .notFound
      | some (.link target) =>
        if rest.isEmpty && !follow then
          .ok (.present (name :: trail).reverse (.link target))
        else
          match again with
          | none => .error .tooManyLinks
          | some again =>
            let more := Path.segments target ++ rest
            if (Path.mk target).isAbsolute then again [] root more else again trail here more
      | some (.file mode content) =>
        if rest.isEmpty then .ok (.present (name :: trail).reverse (.file mode content))
        else .error .notDirectory
      | some (.directory entries) =>
        walkOn root follow again (name :: trail) (.directory entries) rest

/-- Follows segments of a path, and so many links.  The segments of a link take the place of its
name, so there may be more of them afterwards; that is why the links are counted. -/
def walk (root : FileTree) (follow : Bool) :
    (links : Nat) → (trail : List Bytes) → (here : FileTree) → (segments : List Bytes) →
      Except FileError Place
  | 0 => walkOn root follow none
  | links + 1 => walkOn root follow (some (walk root follow links))

/-- Where a path leads, seen from a working directory. -/
def locate (root : FileTree) (working : Location) (follow : Bool) (p : Path) :
    Except FileError Place :=
  if p.bytes.contains 0 then .error .nulByte
  else if p.isEmpty then .error .notFound
  else if pathLimit ≤ p.bytes.length then .error .nameTooLong
  else if p.isAbsolute then walk root follow linkLimit [] root (Path.segments p.bytes)
  else
    match root.get? working with
    | some here => walk root follow linkLimit working.reverse here (Path.segments p.bytes)
    | none => .error .notFound

/-- The location and the tree at the end of a path; an error if nothing is there. -/
def find (root : FileTree) (working : Location) (follow : Bool) (p : Path) :
    Except FileError (Location × FileTree) :=
  match locate root working follow p with
  | .ok (.present location node) => .ok (location, node)
  | .ok (.absent ..) => .error .notFound
  | .error e => .error e

/-- A path without slashes at its end; the root stays. -/
def dropSlashes (p : Path) : Path :=
  match p.bytes.reverse.dropWhile (· = Path.slash) with
  | [] => if p.isAbsolute then ⟨[Path.slash]⟩ else p
  | bytes => ⟨bytes.reverse⟩

/-- Where the entry is that a path names, whether or not it ends in slashes.  The limit counts the
slashes. -/
def locateEntry (root : FileTree) (working : Location) (p : Path) : Except FileError Place :=
  if p.bytes.contains 0 then .error .nulByte
  else if pathLimit ≤ p.bytes.length then .error .nameTooLong
  else locate root working false (dropSlashes p)

end FileTree
end KernelRegistry
