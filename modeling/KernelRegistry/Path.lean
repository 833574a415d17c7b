import KernelRegistry.Text.Utf8

/-!
# Paths

A path is a string of bytes.  It is kept as it was written; what it means is given by its
components.

* `Path` — the bytes, with `Path.display` for messages.
* `Path.components` — root, current directory, parent directory and names.  Repeated slashes, a
  slash at the end and single dots, one at the front of a relative path excepted, are no components.
* `Path.join` — a path seen from another one.
* `Path.parent?` — the path without its last component.
* `Path.absolute` — a path seen from a directory, spelled by its components.
-/

set_option autoImplicit false
namespace KernelRegistry

open Text (Bytes)

/-- A path as it is written. -/
structure Path where
  bytes : Bytes
  deriving DecidableEq, Repr

namespace Path

instance : Inhabited Path := ⟨⟨[]⟩⟩

/-- The byte of the slash. -/
def slash : UInt8 := 0x2F

/-- The byte of the dot. -/
def dot : UInt8 := 0x2E

/-- The path with the bytes of a text. -/
def ofString (s : String) : Path := ⟨Text.encode s⟩

/-- A path as text. -/
def display (p : Path) : String := Text.decodeLossy p.bytes

/-- The empty path leads nowhere, not even to the directory it is seen from. -/
def isEmpty (p : Path) : Bool := p.bytes.isEmpty

/-- A path that starts at the root means the same in every working directory. -/
def isAbsolute (p : Path) : Bool := p.bytes.head? = some slash

/-- A path seen from another one: an absolute path stays what it is. -/
def join (base p : Path) : Path :=
  if p.isAbsolute then p
  else if base.isEmpty || base.bytes.getLast? = some slash then ⟨base.bytes ++ p.bytes⟩
  else ⟨base.bytes ++ slash :: p.bytes⟩

/-- A text seen from a path. -/
def joinText (base : Path) (s : String) : Path := base.join (ofString s)

/-! ## Components -/

/-- A part of a path. -/
inductive Component where
  | root
  | current
  | parent
  | name (bytes : Bytes)
  deriving DecidableEq, Repr

/-- The bytes between slashes. -/
def segments (bytes : Bytes) : List Bytes := bytes.splitOn slash

/-- Segments that do not count: an empty one between two slashes, and a single dot. -/
def isTrivial (segment : Bytes) : Bool := segment.isEmpty || segment = [dot]

/-- A segment that is neither empty nor a dot, as a component. -/
def Component.ofSegment (segment : Bytes) : Component :=
  if segment = [dot, dot] then .parent else .name segment

/-- The root or the dot that a path starts with, and the bytes after it.  Anywhere else in a path
neither of them counts. -/
def head (p : Path) : Option Component × Bytes :=
  match p.bytes with
  | [] => (none, [])
  | b :: rest =>
    if b = slash then (some .root, rest)
    else if b = dot && (rest.isEmpty || rest.head? = some slash) then (some .current, rest)
    else (none, b :: rest)

/-- The components of a path. -/
def components (p : Path) : List Component :=
  p.head.1.toList ++ ((segments p.head.2).filter (!isTrivial ·)).map Component.ofSegment

/-- The bytes of a component. -/
def Component.bytes : Component → Bytes
  | .root => [slash]
  | .current => [dot]
  | .parent => [dot, dot]
  | .name bytes => bytes

/-- The bytes of segments with slashes between them. -/
def joinSegments (segments : List Bytes) : Bytes := [slash].intercalate segments

/-- Segments up to the last one that is neither empty nor a dot. -/
def trimTrivial (segments : List Bytes) : List Bytes :=
  (segments.reverse.dropWhile isTrivial).reverse

/-- The path without its last component; `none` for the root and for the empty path. -/
def parent? (p : Path) : Option Path :=
  let (start, body) := p.head
  let startBytes := (start.map Component.bytes).getD []
  match (segments body).reverse.dropWhile isTrivial with
  | _ :: before => some ⟨startBytes ++ joinSegments (trimTrivial before.reverse)⟩
  | [] => if start = some .current then some ⟨[]⟩ else none

/-! ## Absolute paths -/

/-- A path with further components. -/
def extend (base : Path) (components : List Component) : Path :=
  components.foldl (fun p c => p.join ⟨c.bytes⟩) base

/-- A path seen from a directory.  It is spelled by its components; exactly two slashes at the front
stay two, and a slash at the end stays. -/
def absolute (directory p : Path) : Path :=
  let twoSlashes := p.bytes.take 2 = [slash, slash] && p.bytes[2]? ≠ some slash
  let components := p.components.filter fun c => c ≠ .current
  let whole :=
    if twoSlashes then (Path.mk [slash, slash]).extend (components.drop 1)
    else if p.isAbsolute then (Path.mk []).extend components
    else directory.extend components
  if p.bytes.getLast? = some slash then whole.join ⟨[]⟩ else whole

end Path
end KernelRegistry
