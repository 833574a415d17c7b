import Mathlib.Control.Monad.Basic
import KernelRegistry.Proofs.FileTree.Image

/-!
# Deciding where things are

What is asked of the places that an installation works with is about finitely many places, so that
it can be computed for a given file tree.  Trees can be compared as well, so the tree that an
operation leaves can be computed and held against another one.

* `FileTree.decideEq` — whether two trees are the same.
* `FileTree.locations` — the places where something is; `mem_locations` says that these are all.
* `isProper`, `isClearDestination`, `isApart` — checks for `Proper`, `ClearDestination` and `Apart`,
  with the lemmas `proper_of_isProper`, `clearDestination_of_isClearDestination` and
  `apart_of_isApart`.
-/

set_option autoImplicit false
namespace KernelRegistry
namespace FileTree

open Text (Bytes)

/-! ## Comparing trees -/

/-- Decides whether two trees are the same, along both of them at once.  This is written by hand
because a tree has lists of trees in it. -/
@[reducible]
def decideEq : (s t : FileTree) → Decidable (s = t)
  | file mode content, file mode' content' =>
    decidable_of_iff (mode = mode' ∧ content = content') (file.injEq ..).to_iff.symm
  | link target, link target' => decidable_of_iff (target = target') (link.injEq ..).to_iff.symm
  | directory entries, directory entries' =>
    have := decideEntries entries entries'
    decidable_of_iff (entries = entries') (directory.injEq ..).to_iff.symm
  | file .., link _ | file .., directory _ | link _, file .. | link _, directory _
  | directory _, file .. | directory _, link _ => .isFalse nofun
where
  /-- Whether two lists of entries are the same. -/
  @[reducible]
  decideEntries : (entries entries' : List (Bytes × FileTree)) → Decidable (entries = entries')
    | [], [] => .isTrue rfl
    | (name, t) :: rest, (name', t') :: rest' =>
      have := decideEq t t'
      have := decideEntries rest rest'
      decidable_of_iff ((name = name' ∧ t = t') ∧ rest = rest') (by simp)
    | [], _ :: _ | _ :: _, [] => .isFalse nofun

instance : DecidableEq FileTree := decideEq

/-- The result of an action can be compared, with the tree that it leaves. -/
instance {ε σ α : Type} [DecidableEq ε] [DecidableEq σ] [DecidableEq α] :
    DecidableEq (EStateM.Result ε σ α)
  | .ok a s, .ok a' s' => decidable_of_iff (a = a' ∧ s = s') (by simp)
  | .error e s, .error e' s' => decidable_of_iff (e = e' ∧ s = s') (by simp)
  | .ok .., .error .. | .error .., .ok .. => .isFalse nofun

/-! ## All the places -/

/-- The places where something is. -/
def locations : FileTree → List Location
  | directory entries => [] :: inner entries
  | _ => [[]]
where
  inner : List (Bytes × FileTree) → List Location
    | [] => []
    | (name, child) :: rest => child.locations.map (name :: ·) ++ inner rest

section Locations

variable {t : FileTree} {x : Location}

theorem mem_inner {name : Bytes} {child : FileTree} {entries : List (Bytes × FileTree)}
    (h : child? name entries = some child) (hx : x ∈ child.locations) :
    name :: x ∈ locations.inner entries := by
  induction entries with
  | nil => cases h
  | cons e es ih =>
    rw [child?] at h
    rw [locations.inner]
    split at h
    · next hname =>
      cases h
      exact List.mem_append_left _ (hname ▸ List.mem_map_of_mem hx)
    · exact List.mem_append_right _ (ih h)

/-- **Where something is, is one of the places.** -/
theorem mem_locations (h : t.node? x ≠ none) : x ∈ t.locations := by
  induction x generalizing t with
  | nil => cases t <;> exact List.mem_cons_self
  | cons name rest ih =>
    cases t with
    | file | link => exact absurd rfl h
    | directory entries =>
      rw [node?, get?_directory_cons] at h
      cases hchild : child? name entries with
      | none =>
        rw [hchild] at h
        exact absurd rfl h
      | some child =>
        rw [hchild] at h
        exact List.mem_cons_of_mem _ (mem_inner hchild (ih h))

end Locations

/-! ## Checks -/

section Checks

variable (t : FileTree) (working above destination x : Location) (p : Path) (name : Bytes)

/-- A check that a place has a name. -/
def isNamed (x : Location) : Bool :=
  match x.getLast? with
  | some last => decide (Path.IsName last)
  | none => true

/-- A check for `Proper`: a file system can have the tree. -/
def isProper : Bool := t.isDirectory && t.locations.all isNamed

theorem proper_of_isProper {t : FileTree} (h : t.isProper = true) : t.Proper := by
  rw [isProper, Bool.and_eq_true, isDirectory_iff, List.all_eq_true] at h
  obtain ⟨hroot, hnames⟩ := h
  refine ⟨by rw [node?_eq_some (get?_nil t), hroot], fun parent last hlast => ?_⟩
  have := hnames _ (mem_locations hlast)
  rw [isNamed, List.getLast?_concat] at this
  exact of_decide_eq_true this

/-- A check for `Clear`. -/
def isClear : Bool :=
  !destination.isPrefixOf x || (x = destination && t.nodeAt destination = .directory)

theorem isClear_iff : isClear t destination x = true ↔ Clear t destination x := by
  rw [isClear, Clear, ← List.isPrefixOf_iff_prefix]
  cases destination.isPrefixOf x <;> simp

/-- A check for `NotBelow`. -/
def isNotBelow : Bool := !destination.isPrefixOf x || x = destination

theorem isNotBelow_iff : isNotBelow destination x = true ↔ NotBelow destination x := by
  rw [isNotBelow, NotBelow, ← List.isPrefixOf_iff_prefix]
  cases destination.isPrefixOf x <;> simp

/-- A check that nothing else than a directory is at a place. -/
def isFree : Bool :=
  match t.node? x with
  | some n => n = .directory
  | none => true

theorem isFree_iff : t.isFree x = true ↔ ∀ n, t.node? x = some n → n = .directory := by
  rw [isFree]
  cases t.node? x <;> simp

/-- A check that a path comes only to places that are clear of the destination. -/
def isClearWay : Bool := (t.wayTo working p).stops.all (isClear t destination)

theorem isClearWay_iff : isClearWay t working destination p = true ↔
    ∀ y ∈ (t.wayTo working p).stops, Clear t destination y := by
  rw [isClearWay, List.all_eq_true]
  exact forall₂_congr fun y _ => isClear_iff t destination y

/-- A check for `ClearDestination`. -/
def isClearDestination : Bool :=
  t.isProper && decide (Path.IsName name) && (t.wayTo working p).goal = some above &&
    isClearWay t working (above ++ [name]) p && t.isFree (start working p) &&
    isNotBelow (above ++ [name]) (start working p)

variable {t working above destination x p name}

theorem clearDestination_of_isClearDestination
    (h : isClearDestination t working above p name = true) :
    ClearDestination t working p above name := by
  simp only [isClearDestination, Bool.and_eq_true, decide_eq_true_eq, isClearWay_iff, isFree_iff,
    isNotBelow_iff] at h
  obtain ⟨⟨⟨⟨⟨hproper, hname⟩, hgoal⟩, hclear⟩, horigin⟩, hnot⟩ := h
  exact ⟨proper_of_isProper hproper, hname, hgoal, hclear, horigin, hnot⟩

variable (t working destination x p)

/-- A check that what is at a place is no link, or leads elsewhere than to the destination. -/
def isApartAt (y : Location) : Bool :=
  match t.node? y with
  | some (.link _) =>
    isClearWay t working destination (p.within (y.drop x.length)) &&
      match (t.wayTo working (p.within (y.drop x.length))).goal with
      | some z => !destination.isPrefixOf z
      | none => true
  | _ => true

/-- A check for `Apart`: a source and the destination have nothing to do with each other. -/
def isApart : Bool :=
  (t.wayTo working p).goal = some x && !x.isPrefixOf destination && !destination.isPrefixOf x &&
    isClearWay t working destination p &&
    t.locations.all (fun y => !x.isPrefixOf y || isApartAt t working destination x p y) &&
    t.isFree (start working p) && isNotBelow destination (start working p)

variable {t working destination x p}

theorem apart_of_isApart (h : isApart t working destination x p = true) :
    Apart t working p destination x := by
  simp only [isApart, Bool.and_eq_true, decide_eq_true_eq, isClearWay_iff, isFree_iff,
    isNotBelow_iff, List.all_eq_true, Bool.or_eq_true, Bool.not_eq_true',
    ← Bool.not_eq_true, List.isPrefixOf_iff_prefix] at h
  obtain ⟨⟨⟨⟨⟨⟨hgoal, habove⟩, hbelow⟩, hclear⟩, hlinks⟩, horigin⟩, hnot⟩ := h
  refine ⟨hgoal, habove, hbelow, hclear, fun below target hlink => ?_, horigin, hnot⟩
  have hthere := (hlinks (x ++ below) (mem_locations (by rw [hlink]; simp))).resolve_left
    fun h => h (List.prefix_append _ _)
  rw [isApartAt, hlink, List.drop_left, Bool.and_eq_true, isClearWay_iff] at hthere
  refine ⟨hthere.1, fun z hz => ?_⟩
  have := hthere.2
  rw [hz, Bool.not_eq_true', ← Bool.not_eq_true, List.isPrefixOf_iff_prefix] at this
  exact this

end Checks

end FileTree
end KernelRegistry
