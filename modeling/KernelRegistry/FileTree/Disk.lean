import KernelRegistry.Error
import KernelRegistry.FileTree.Basic

/-!
# The disk below a file tree

Where a path leads is decided by the file tree, but a change that the tree allows may still be
refused: by a disk that is full or cannot be written, by permissions, or by something that is
mounted in the way.  An operation takes several calls, and it stops at the first one that is
refused, so what the calls before it did stays done.

A refusal gives one of the errors that have a wording here.  Systems have others, such as that of
a full disk; which one it is only shows in the text of the message, since no operation looks at
the error of a refused call except for whether something is missing.

* `Action` — changes a file tree, and gives a value or an error.
* `Call`, `Refusal` — what a disk is asked, and how it refuses.
* `Disk` — which calls a disk refuses; `Disk.sound` refuses none, and is the disk of whatever does
  not name another one.
* `ask` — a call that changes nothing itself; `write` — a call that may be carried out in part.
-/

set_option autoImplicit false
namespace KernelRegistry
namespace FileTree

open Text (Bytes)

/-! ## Actions -/

/-- Changes a file tree and gives a value or an error; both leave the tree as it was changed. -/
abbrev Action := EStateM FileError FileTree

/-- A value that does not depend on changes, or an error. -/
def answer {α : Type} (f : FileTree → Except FileError α) : Action α := fun root =>
  match f root with
  | .ok a => .ok a root
  | .error e => .error e root

/-- Puts something at a location, or removes what is there. -/
def place (location : Location) (new : Option FileTree) : Action Unit := fun root =>
  .ok () (root.update new location)

/-! ## Disks -/

/-- The requests to a disk that can be refused.  Lookups are not among them: the tree answers
those. -/
inductive Call where
  /-- To open a file or a directory, for what is in it. -/
  | read (location : Location)
  | makeDirectory (location : Location)
  /-- To open a file for writing, which makes it or empties it. -/
  | openFile (location : Location)
  /-- To write the content of a file that was opened. -/
  | write (location : Location) (content : Bytes)
  /-- To remove a file or a link. -/
  | unlink (location : Location)
  /-- To remove a directory without entries. -/
  | removeDirectory (location : Location)
  deriving DecidableEq, Repr

/-- How a call is refused. -/
structure Refusal where
  error : FileError
  /-- How many bytes were written before, if the call was to write. -/
  written : Nat := 0
  /-- That something is missing is seen in the tree; no disk makes it up. -/
  isFault : error ≠ .notFound

/-- Which calls a disk refuses.  The answer may depend on the whole tree, so on how far an
operation has got. -/
class Disk where
  refusal? : Call → FileTree → Option Refusal

/-- The disk that refuses nothing. -/
instance Disk.sound : Disk where
  refusal? _ _ := none

section Calls

variable [Disk]

/-- Asks the disk for something that changes nothing by itself. -/
def ask (call : Call) : Action Unit := fun root =>
  match Disk.refusal? call root with
  | none => .ok () root
  | some refusal => .error refusal.error root

/-- Writes a file that was opened.  If the disk refuses, the file is left with what was written
before; of its old content nothing is left, because opening it has emptied it. -/
def write (location : Location) (mode : Nat) (content : Bytes) : Action Unit := fun root =>
  match Disk.refusal? (.write location content) root with
  | none => place location (some (.file mode content)) root
  | some refusal =>
    .error refusal.error
      (root.update (some (.file mode (content.take refusal.written))) location)

end Calls

end FileTree
end KernelRegistry
