import KernelRegistry.FileTree.Basic

/-!
# What changed in a file tree

A run works on a file tree as a value.  These are the steps that carry over what it did to the place
that the tree was read from.

* `graft` — puts something at a location, with the directories above it.
* `Change` — one step from a file tree to another one.
* `changes` — the steps between two file trees, in an order in which they can be done.
-/

set_option autoImplicit false
namespace KernelRegistry
namespace FileTree

open Text (Bytes)

/-- The entries of a directory; nothing else has any. -/
def entries : FileTree → List (Bytes × FileTree)
  | directory entries => entries
  | _ => []

/-- Puts something at a location, with the directories above it. -/
def graft (t node : FileTree) : Location → FileTree
  | [] => node
  | name :: rest =>
    let below := (child? name t.entries).getD (directory [])
    directory (setEntry name (below.graft node rest) t.entries)

/-- One step from a file tree to another one. -/
inductive Change where
  /-- Removes what is there, with all that is in it. -/
  | remove (location : Location)
  | makeDirectory (location : Location)
  | writeFile (location : Location) (mode : Nat) (content : Bytes)
  | makeLink (location : Location) (target : Bytes)
  deriving DecidableEq, Repr

/-- The steps that make something where nothing is. -/
def additions (location : Location) : FileTree → List Change
  | file mode content => [.writeFile location mode content]
  | link target => [.makeLink location target]
  | directory entries => .makeDirectory location :: inner location entries
where
  inner (location : Location) : List (Bytes × FileTree) → List Change
    | [] => []
    | (name, node) :: rest => additions (location ++ [name]) node ++ inner location rest

/-- The steps that remove the entries whose names are gone. -/
def removals (location : Location) (before after : List (Bytes × FileTree)) : List Change :=
  (before.filter fun e => (child? e.1 after).isNone).map fun e => .remove (location ++ [e.1])

/-- The steps from one file tree to another one. -/
def changes (location : Location) (before : FileTree) : FileTree → List Change
  | directory entries =>
    match before with
    | directory old => removals location old entries ++ inner location old entries
    | _ => .remove location :: additions location (directory entries)
  | file mode content =>
    match before with
    | file oldMode oldContent =>
      if oldMode = mode ∧ oldContent = content then [] else [.writeFile location mode content]
    | _ => .remove location :: additions location (file mode content)
  | link target =>
    match before with
    | link oldTarget =>
      if oldTarget = target then [] else [.remove location, .makeLink location target]
    | _ => .remove location :: additions location (link target)
where
  inner (location : Location) (old : List (Bytes × FileTree)) :
      List (Bytes × FileTree) → List Change
    | [] => []
    | (name, node) :: rest =>
      (match child? name old with
        | some t => changes (location ++ [name]) t node
        | none => additions (location ++ [name]) node) ++ inner location old rest

end FileTree
end KernelRegistry
