import KernelRegistry.Text.Utf8

/-!
# File trees

* `FileTree` — a file, a symbolic link, or a directory with what is in it.
* `FileTree.get?` — what is at a location, the names from the root down.
* `FileTree.update` — puts something at a location, or removes what is there.
* `FileTree.names` — the names in a directory, in the order of their bytes; `names_perm` says that
  they are the names of the entries.

## What is left out

A file has one location, so there are no hard links, and a change to one file is never seen in
another one.  There are no special files such as pipes and devices: reading a file comes to an end,
and whatever is no file and no link is a directory.  Permissions are numbers that are copied with a
file; owners and times are not there.  The tree is changed by nobody else while a program runs.
-/

set_option autoImplicit false
namespace KernelRegistry

open Text (Bytes)

/-- A file with its permissions, a symbolic link, or a directory. -/
inductive FileTree where
  | file (mode : Nat) (content : Bytes)
  | link (target : Bytes)
  | directory (entries : List (Bytes × FileTree))

/-- Names from the root down. -/
abbrev Location := List Bytes

namespace FileTree

instance : Inhabited FileTree := ⟨directory []⟩

/-! ## Entries of a directory -/

/-- The entry with a name. -/
def child? (name : Bytes) : List (Bytes × FileTree) → Option FileTree
  | [] => none
  | e :: es => if e.1 = name then some e.2 else child? name es

/-- Changes the entry with a name if there is one, and else adds it at the end. -/
def setEntry (name : Bytes) (t : FileTree) : List (Bytes × FileTree) → List (Bytes × FileTree)
  | [] => [(name, t)]
  | e :: es => if e.1 = name then (name, t) :: es else e :: setEntry name t es

/-- The entries without those with a name. -/
def removeEntry (name : Bytes) (entries : List (Bytes × FileTree)) : List (Bytes × FileTree) :=
  entries.filter (·.1 ≠ name)

/-- The entries with another one, or none, under a name. -/
def replaceEntry (name : Bytes) (new : Option FileTree) (entries : List (Bytes × FileTree)) :
    List (Bytes × FileTree) :=
  match new with
  | some t => setEntry name t entries
  | none => removeEntry name entries

theorem child?_setEntry (name other : Bytes) (t : FileTree) (entries : List (Bytes × FileTree)) :
    child? other (setEntry name t entries) =
      if name = other then some t else child? other entries := by
  induction entries with
  | nil => simp [setEntry, child?]
  | cons e es ih =>
    rw [setEntry]
    split
    · next h => subst h; by_cases h' : e.1 = other <;> simp [child?, h']
    · next h =>
      rw [child?, ih, child?]
      by_cases h' : e.1 = other
      · have : ¬ name = other := fun h'' => h (h'.trans h''.symm)
        simp [h', this]
      · simp [h']

theorem child?_removeEntry (name other : Bytes) (entries : List (Bytes × FileTree)) :
    child? other (removeEntry name entries) =
      if name = other then none else child? other entries := by
  induction entries with
  | nil => simp [removeEntry, child?]
  | cons e es ih =>
    rw [removeEntry] at ih ⊢
    by_cases h : e.1 = name
    · rw [List.filter_cons_of_neg (by simpa using h), ih, child?]
      by_cases h' : name = other <;> simp [h, h']
    · rw [List.filter_cons_of_pos (by simpa using h), child?, ih, child?]
      by_cases h' : e.1 = other
      · have : ¬ name = other := fun h'' => h (h'.trans h''.symm)
        simp [h', this]
      · simp [h']

@[simp]
theorem child?_replaceEntry (name other : Bytes) (new : Option FileTree)
    (entries : List (Bytes × FileTree)) :
    child? other (replaceEntry name new entries) =
      if name = other then new else child? other entries := by
  cases new with
  | none => exact child?_removeEntry name other entries
  | some t => exact child?_setEntry name other t entries

/-! ## Locations -/

/-- The tree at a location.  Links are not followed, so this is a lookup by names alone. -/
def get? (t : FileTree) : Location → Option FileTree
  | [] => some t
  | name :: rest =>
    match t with
    | directory entries => (child? name entries).bind fun child => child.get? rest
    | _ => none

/-- Puts something at a location whose directory exists, or removes what is there. -/
def update (t : FileTree) (new : Option FileTree) : Location → FileTree
  | [] => new.getD t
  | [name] =>
    match t with
    | directory entries => directory (replaceEntry name new entries)
    | _ => t
  | name :: rest =>
    match t with
    | directory entries =>
      match child? name entries with
      | some child => directory (setEntry name (child.update new rest) entries)
      | none => t
    | _ => t

/-- Directories are the only trees with anything below them. -/
def isDirectory : FileTree → Bool
  | directory _ => true
  | _ => false

/-- Files are the only trees with content; a link to a file is none. -/
def isFile : FileTree → Bool
  | file _ _ => true
  | _ => false

/-- The order of names byte by byte, which does not depend on any language. -/
def nameLe : Bytes → Bytes → Bool
  | [], _ => true
  | _ :: _, [] => false
  | a :: as, b :: bs => a < b || (a = b && nameLe as bs)

/-- Puts a name at its place among names in the order of their bytes. -/
def insertName (name : Bytes) : List Bytes → List Bytes
  | [] => [name]
  | other :: rest =>
    if nameLe name other then name :: other :: rest else other :: insertName name rest

/-- The names in a directory, in the order of their bytes. -/
def names : FileTree → List Bytes
  | directory entries => (entries.map Prod.fst).foldr insertName []
  | _ => []

theorem insertName_perm (name : Bytes) (names : List Bytes) :
    (insertName name names).Perm (name :: names) := by
  induction names with
  | nil => exact .refl _
  | cons other rest ih =>
    rw [insertName]
    split
    · exact .refl _
    · exact (ih.cons other).trans (.swap name other rest)

theorem names_perm (entries : List (Bytes × FileTree)) :
    (directory entries).names.Perm (entries.map Prod.fst) := by
  rw [names]
  induction entries.map Prod.fst with
  | nil => exact .refl _
  | cons name rest ih => exact (insertName_perm name _).trans (ih.cons name)

end FileTree
end KernelRegistry
