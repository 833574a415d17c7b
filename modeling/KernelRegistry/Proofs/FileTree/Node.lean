import KernelRegistry.FileTree.Basic
import KernelRegistry.Proofs.Path

/-!
# What is where in a file tree

A file tree is seen as a function from locations to nodes, which forgets the order of the entries
of a directory.  Every later statement about a file tree is about this function.

* `FileTree.Node` — a file, a link, or a directory without what is in it.
* `FileTree.node?` — the node at a location; `node?_update_elsewhere` and `get?_update_append`
  say what putting something at a location does to it.
* `update_update`, `update_append` — changes at one location, or below another one, as one change.
* `FileTree.Proper` — the trees that a file system can have: the root is a directory, and entries
  have names.
-/

set_option autoImplicit false
namespace KernelRegistry
namespace FileTree

open Text (Bytes)

/-! ## Nodes -/

/-- A tree without what is in it.  Trees are compared node by node: what is in a directory is at
places of its own, and the order in which it is kept there is not compared. -/
inductive Node where
  | file (mode : Nat) (content : Bytes)
  | link (target : Bytes)
  | directory
  deriving DecidableEq, Repr

/-- The node at the root of a tree. -/
def node : FileTree → Node
  | file mode content => .file mode content
  | link target => .link target
  | directory _ => .directory

/-- The node at a location. -/
def node? (t : FileTree) (location : Location) : Option Node := (t.get? location).map node

theorem exists_directory_of_node {t : FileTree} (h : t.node = .directory) :
    ∃ entries, t = directory entries := by
  cases t <;> simp_all [node]

theorem isDirectory_iff {t : FileTree} : t.isDirectory = true ↔ t.node = .directory := by
  cases t <;> simp [isDirectory, node]

@[simp]
theorem get?_nil (t : FileTree) : t.get? [] = some t := by
  rw [get?]

@[simp]
theorem get?_directory_cons (entries : List (Bytes × FileTree)) (name : Bytes) (rest : Location) :
    (directory entries).get? (name :: rest) = (child? name entries).bind (·.get? rest) := by
  rw [get?]

theorem get?_cons_of_not_directory {t : FileTree} (h : t.node ≠ .directory) (name : Bytes)
    (rest : Location) : t.get? (name :: rest) = none := by
  cases t <;> simp_all [node, get?]

/-- A lookup below a location goes on from there. -/
theorem get?_append (t : FileTree) (a b : Location) :
    t.get? (a ++ b) = (t.get? a).bind (·.get? b) := by
  induction a generalizing t with
  | nil => simp
  | cons name rest ih =>
    cases t with
    | directory entries =>
      rw [List.cons_append, get?_directory_cons, get?_directory_cons, Option.bind_assoc]
      exact Option.bind_congr fun child _ => ih child
    | file | link => rfl

theorem node?_append {t s : FileTree} {a : Location} (h : t.get? a = some s) (b : Location) :
    t.node? (a ++ b) = s.node? b := by
  rw [node?, get?_append, h]
  rfl

theorem node?_eq_some {t s : FileTree} {location : Location} (h : t.get? location = some s) :
    t.node? location = some s.node := by
  rw [node?, h]
  rfl

theorem exists_get?_of_node? {t : FileTree} {location : Location} {n : Node}
    (h : t.node? location = some n) : ∃ s, t.get? location = some s ∧ s.node = n := by
  simpa [node?] using h

theorem exists_directory_of_node? {t : FileTree} {location : Location}
    (h : t.node? location = some .directory) :
    ∃ entries, t.get? location = some (directory entries) := by
  obtain ⟨s, hs, hn⟩ := exists_get?_of_node? h
  obtain ⟨entries, rfl⟩ := exists_directory_of_node hn
  exact ⟨entries, hs⟩

theorem node?_eq_none_iff {t : FileTree} {location : Location} :
    t.node? location = none ↔ t.get? location = none := by
  simp [node?]

/-- Only a directory has something in it. -/
theorem node?_of_node?_append {t : FileTree} {a b : Location} (hb : b ≠ [])
    (h : t.node? (a ++ b) ≠ none) : t.node? a = some .directory := by
  rw [Ne, node?_eq_none_iff, get?_append] at h
  cases hs : t.get? a with
  | none => simp [hs] at h
  | some s =>
    obtain ⟨name, rest, rfl⟩ := List.exists_cons_of_ne_nil hb
    rw [node?_eq_some hs]
    by_cases hd : s.node = .directory
    · rw [hd]
    · rw [hs, Option.bind_some, get?_cons_of_not_directory hd] at h
      exact absurd rfl h

theorem node?_of_above {t : FileTree} {a b : Location} (hab : a <+: b) (hne : a ≠ b)
    (h : t.node? b ≠ none) : t.node? a = some .directory := by
  obtain ⟨c, rfl⟩ := hab
  exact node?_of_node?_append (fun hc => hne (by simp [hc])) h

/-! ## Changing what is at a location -/

variable {t : FileTree} {new : Option FileTree}

theorem update_cons_cons (entries : List (Bytes × FileTree)) (new : Option FileTree)
    (name next : Bytes) (rest : Location) :
    (directory entries).update new (name :: next :: rest) =
      match child? name entries with
      | some child => directory (setEntry name (child.update new (next :: rest)) entries)
      | none => directory entries := by
  cases hchild : child? name entries <;> simp [update, hchild]

/-- **A change at a location leaves alone what is not at or below it.** -/
theorem node?_update_elsewhere {location x : Location} (h : ¬ location <+: x) :
    (t.update new location).node? x = t.node? x := by
  induction location generalizing t x with
  | nil => exact absurd List.nil_prefix h
  | cons name rest ih =>
    cases t with
    | file | link => cases rest <;> rfl
    | directory entries =>
      cases x with
      | nil =>
        cases rest with
        | nil => rfl
        | cons next rest =>
          rw [update_cons_cons]
          cases child? name entries <;> rfl
      | cons other x =>
        rw [List.cons_prefix_cons, not_and] at h
        cases rest with
        | nil =>
          have hne : ¬ name = other := fun he => h he List.nil_prefix
          simp [update, node?, hne]
        | cons next rest =>
          rw [update_cons_cons]
          cases hc : child? name entries with
          | none => rfl
          | some child =>
            simp only [node?, get?_directory_cons, child?_setEntry]
            by_cases hne : name = other
            · subst hne
              rw [if_pos rfl, hc]
              exact ih (h rfl)
            · rw [if_neg hne]

/-- **What is put below a directory is what is there afterwards.** -/
theorem get?_update_append {above : Location} (h : t.node? above = some .directory) (name : Bytes)
    (x : Location) :
    (t.update new (above ++ [name])).get? (above ++ name :: x) = new.bind (·.get? x) := by
  induction above generalizing t with
  | nil =>
    obtain ⟨entries, rfl⟩ := exists_directory_of_node (Option.some.inj h)
    simp [update]
  | cons first rest ih =>
    obtain ⟨s, hs, hn⟩ := exists_get?_of_node? h
    cases t with
    | file | link => simp [get?] at hs
    | directory entries =>
      rw [get?_directory_cons] at hs
      cases hc : child? first entries with
      | none => simp [hc] at hs
      | some child =>
        rw [hc, Option.bind_some] at hs
        have hchild : child.node? rest = some .directory := by rw [node?, hs, ← hn]; rfl
        obtain ⟨next, more, hmore⟩ := List.exists_cons_of_ne_nil (l := rest ++ [name]) (by simp)
        rw [List.cons_append, List.cons_append, hmore, update_cons_cons, hc, get?_directory_cons,
          child?_setEntry, if_pos rfl, ← hmore]
        exact ih hchild

theorem setEntry_self {name : Bytes} {child : FileTree} {entries : List (Bytes × FileTree)}
    (h : child? name entries = some child) : setEntry name child entries = entries := by
  induction entries with
  | nil => simp [child?] at h
  | cons e es ih =>
    rw [child?] at h
    rw [setEntry]
    split
    · next he =>
      rw [if_pos he] at h
      rw [← he, ← Option.some.inj h]
    · next he =>
      rw [if_neg he] at h
      rw [ih h]

/-- Where there is no directory, nothing can be put. -/
theorem update_eq_self {above : Location} (h : t.node? above ≠ some .directory) (name : Bytes) :
    t.update new (above ++ [name]) = t := by
  induction above generalizing t with
  | nil =>
    cases t with
    | directory entries => exact absurd rfl h
    | file | link => rfl
  | cons first rest ih =>
    obtain ⟨next, more, hmore⟩ := List.exists_cons_of_ne_nil (l := rest ++ [name]) (by simp)
    cases t with
    | file | link => rw [List.cons_append, hmore]; rfl
    | directory entries =>
      rw [List.cons_append, hmore, update_cons_cons]
      cases hc : child? first entries with
      | none => rfl
      | some child =>
        have hchild : child.node? rest ≠ some .directory := by
          rw [node?, get?_directory_cons, hc] at h
          exact h
        have hself : child.update new (rest ++ [name]) = child := ih hchild
        rw [hmore] at hself
        show directory (setEntry first (child.update new (next :: more)) entries) = _
        rw [hself, setEntry_self hc]

theorem setEntry_setEntry (name : Bytes) (a b : FileTree) (entries : List (Bytes × FileTree)) :
    setEntry name b (setEntry name a entries) = setEntry name b entries := by
  induction entries with
  | nil => simp [setEntry]
  | cons e es ih =>
    rw [setEntry, setEntry]
    by_cases he : e.1 = name
    · simp [he, setEntry]
    · simp [he, setEntry, ih]

theorem removeEntry_setEntry (name : Bytes) (a : FileTree) (entries : List (Bytes × FileTree)) :
    removeEntry name (setEntry name a entries) = removeEntry name entries := by
  simp only [removeEntry, ne_eq, decide_not]
  induction entries with
  | nil => simp [setEntry]
  | cons e es ih =>
    rw [setEntry]
    by_cases he : e.1 = name
    · simp [he]
    · simp [he, ih]

theorem removeEntry_eq_self {name : Bytes} {entries : List (Bytes × FileTree)}
    (h : child? name entries = none) : removeEntry name entries = entries := by
  induction entries with
  | nil => rfl
  | cons e es ih =>
    rw [child?] at h
    split at h
    · cases h
    · next he =>
      rw [removeEntry] at ih ⊢
      rw [List.filter_cons_of_pos (by simpa using he), ih h]

/-- Putting something where it is already changes nothing. -/
theorem update_self {s : FileTree} {location : Location} (h : t.get? location = some s) :
    t.update (some s) location = t := by
  induction location generalizing t with
  | nil => exact (Option.some.inj h).symm
  | cons name rest ih =>
    cases t with
    | file | link => cases h
    | directory entries =>
      rw [get?_directory_cons] at h
      cases hchild : child? name entries with
      | none =>
        rw [hchild] at h
        cases h
      | some child =>
        rw [hchild, Option.bind_some] at h
        cases rest with
        | nil =>
          obtain rfl := Option.some.inj ((get?_nil child).symm.trans h)
          exact congrArg directory (setEntry_self hchild)
        | cons next rest =>
          rw [update_cons_cons, hchild]
          exact congrArg directory (by rw [ih h, setEntry_self hchild])

/-- **Of two changes at a location only the second one is seen.** -/
theorem update_update (a : FileTree) {location : Location} (hne : location ≠ []) :
    (t.update (some a) location).update new location = t.update new location := by
  induction location generalizing t with
  | nil => exact absurd rfl hne
  | cons name rest ih =>
    cases t with
    | file | link => cases rest <;> rfl
    | directory entries =>
      cases rest with
      | nil =>
        cases new with
        | none => exact congrArg directory (removeEntry_setEntry name a entries)
        | some b => exact congrArg directory (setEntry_setEntry name a b entries)
      | cons next rest =>
        rw [update_cons_cons, update_cons_cons]
        cases hchild : child? name entries with
        | none => simp only [update_cons_cons, hchild]
        | some child =>
          simp only [update_cons_cons, child?_setEntry, if_pos, setEntry_setEntry]
          rw [ih (List.cons_ne_nil next rest)]

/-- **A change below a location is a change of what is there.** -/
theorem update_append {s : FileTree} {location c : Location} (h : t.get? location = some s)
    (hc : c ≠ []) : t.update new (location ++ c) = t.update (some (s.update new c)) location := by
  induction location generalizing t with
  | nil =>
    obtain rfl := Option.some.inj ((get?_nil t).symm.trans h)
    rfl
  | cons name rest ih =>
    obtain ⟨next, more, hmore⟩ := List.exists_cons_of_ne_nil (l := rest ++ c) (by simp [hc])
    cases t with
    | file | link => cases h
    | directory entries =>
      rw [get?_directory_cons] at h
      rw [List.cons_append, hmore, update_cons_cons]
      cases hchild : child? name entries with
      | none =>
        rw [hchild] at h
        cases h
      | some child =>
        rw [hchild, Option.bind_some] at h
        have hput : child.update new (next :: more) = child.update (some (s.update new c)) rest :=
          hmore ▸ ih h
        cases rest with
        | nil => exact congrArg (fun c => directory (setEntry name c entries)) hput
        | cons =>
          rw [update_cons_cons, hchild]
          exact congrArg (fun c => directory (setEntry name c entries)) hput

/-- Where nothing is, nothing is removed. -/
theorem update_none_eq_self {location : Location} (h : t.get? location = none) :
    t.update none location = t := by
  rcases List.eq_nil_or_concat location with rfl | ⟨above, name, rfl⟩
  · rfl
  rw [List.concat_eq_append] at h ⊢
  by_cases habove : t.node? above = some .directory
  · obtain ⟨entries, hget⟩ := exists_directory_of_node? habove
    have hchild : child? name entries = none := by
      rw [get?_append, hget] at h
      cases hchild : child? name entries with
      | none => rfl
      | some child => simp [hchild] at h
    rw [update_append hget (List.cons_ne_nil name [])]
    show t.update (some (directory (removeEntry name entries))) above = t
    rw [removeEntry_eq_self hchild, update_self hget]
  · exact update_eq_self habove name

/-! ## Proper trees -/

/-- A tree that a file system can have.  The type of trees also has files for a root, and entries
with names that mean something else in a path. -/
structure Proper (t : FileTree) : Prop where
  root : t.node? [] = some .directory
  names : ∀ (above : Location) (name : Bytes), t.node? (above ++ [name]) ≠ none → Path.IsName name

/-- In a proper tree, everything on the way to something that is there has a name. -/
theorem Proper.isName_of_mem {x below : Location} (ht : t.Proper)
    (hx : t.node? (x ++ below) ≠ none) :
    ∀ n ∈ below, Path.IsName n := by
  intro n hn
  obtain ⟨before, rest, rfl⟩ := List.append_of_mem hn
  refine ht.names (x ++ before) n ?_
  rw [← List.singleton_append, ← List.append_assoc, ← List.append_assoc] at hx
  by_cases hnil : rest = []
  · rwa [hnil, List.append_nil] at hx
  · rw [node?_of_node?_append hnil hx]
    simp

end FileTree
end KernelRegistry
