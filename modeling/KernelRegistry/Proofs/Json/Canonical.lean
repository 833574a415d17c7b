import KernelRegistry.Proofs.Json.Printer
import KernelRegistry.Proofs.Table

/-!
# Canonical documents

A template is rendered from the canonical form of its document.  What is rendered is then canonical
again, and that is why rendering it once more changes nothing.

* `canonical_canonical` — the canonical form of a document is canonical.
* `canonical_eq_self` — the canonical form of a canonical document is the document.
* `Canonical.mapNumbers`, `Canonical.subdocument` — other numbers in a canonical document, and the
  documents in it.
* `Fits.canonical` — it fits where the document fits, with numbers of the same kind.
-/

set_option autoImplicit false
namespace KernelRegistry
namespace Json

theorem canonicalItems_eq (items : List Json) : canonicalItems items = items.map canonical := by
  induction items with
  | nil => rfl
  | cons item items ih => exact congrArg _ ih

theorem canonicalMembers_iff {members : List (String × Json)} :
    CanonicalMembers members ↔ ∀ m ∈ members, Canonical m.2 := by
  induction members with
  | nil => simp [CanonicalMembers]
  | cons m members ih => rw [CanonicalMembers, ih, List.forall_mem_cons]

theorem canonicalMembers_sorted {members : List (String × Json)} (h : CanonicalMembers members) :
    CanonicalMembers (Entries.sorted members) :=
  canonicalMembers_iff.2 fun m hm => canonicalMembers_iff.1 h m (Entries.mem_of_mem_sorted hm)

mutual

theorem canonical_canonical (v : Json) : Canonical v.canonical := by
  cases v with
  | null => exact trivial
  | bool => exact trivial
  | number => exact trivial
  | string => exact trivial
  | array items => exact canonicalItems_canonical items
  | object members =>
    exact ⟨Entries.sorted_sorted _, canonicalMembers_sorted (canonicalMembers_canonical members)⟩

theorem canonicalItems_canonical (items : List Json) : CanonicalItems (canonicalItems items) := by
  cases items with
  | nil => exact trivial
  | cons item items => exact ⟨canonical_canonical item, canonicalItems_canonical items⟩

theorem canonicalMembers_canonical (members : List (String × Json)) :
    CanonicalMembers (canonicalMembers members) := by
  cases members with
  | nil => exact trivial
  | cons member members =>
    exact ⟨canonical_canonical member.2, canonicalMembers_canonical members⟩

end

mutual

/-- The canonical form of a canonical document is the document. -/
theorem canonical_eq_self {v : Json} (h : Canonical v) : v.canonical = v := by
  cases v with
  | null => rfl
  | bool => rfl
  | number => rfl
  | string => rfl
  | array items => exact congrArg Json.array (canonicalItems_eq_self h)
  | object members =>
    rw [canonical, canonicalMembers_eq_self h.2, Entries.sorted_eq_self h.1]

theorem canonicalItems_eq_self {items : List Json} (h : CanonicalItems items) :
    canonicalItems items = items := by
  cases items with
  | nil => rfl
  | cons item items => rw [canonicalItems, canonical_eq_self h.1, canonicalItems_eq_self h.2]

theorem canonicalMembers_eq_self {members : List (String × Json)} (h : CanonicalMembers members) :
    canonicalMembers members = members := by
  cases members with
  | nil => rfl
  | cons member members =>
    rw [canonicalMembers, canonical_eq_self h.1, canonicalMembers_eq_self h.2]

end

mutual

/-- Keys do not depend on numbers. -/
theorem Canonical.mapNumbers {v : Json} (f : Number → Number) (h : Canonical v) :
    Canonical (v.mapNumbers f) := by
  cases v with
  | null => exact trivial
  | bool => exact trivial
  | number => exact trivial
  | string => exact trivial
  | array items => exact CanonicalItems.mapNumbers f h
  | object members =>
    refine ⟨?_, CanonicalMembers.mapNumbers f h.2⟩
    rw [mapNumbersMembers_eq]
    exact List.pairwise_map.2 h.1

theorem CanonicalItems.mapNumbers {items : List Json} (f : Number → Number)
    (h : CanonicalItems items) : CanonicalItems (mapNumbersItems f items) := by
  cases items with
  | nil => exact trivial
  | cons item items => exact ⟨h.1.mapNumbers f, h.2.mapNumbers f⟩

theorem CanonicalMembers.mapNumbers {members : List (String × Json)} (f : Number → Number)
    (h : CanonicalMembers members) : CanonicalMembers (mapNumbersMembers f members) := by
  cases members with
  | nil => exact trivial
  | cons member members => exact ⟨h.1.mapNumbers f, h.2.mapNumbers f⟩

end

/-- A document at some depth of another one. -/
inductive Subdocument : Json → Json → Prop
  | whole {v : Json} : Subdocument v v
  | item {v item : Json} {items : List Json} (hmem : item ∈ items) (h : Subdocument v item) :
      Subdocument v (.array items)
  | member {v : Json} {m : String × Json} {members : List (String × Json)} (hmem : m ∈ members)
      (h : Subdocument v m.2) : Subdocument v (.object members)

theorem canonicalItems_iff {items : List Json} :
    CanonicalItems items ↔ ∀ item ∈ items, Canonical item := by
  induction items with
  | nil => simp [CanonicalItems]
  | cons item items ih => rw [CanonicalItems, ih, List.forall_mem_cons]

theorem Canonical.subdocument {v w : Json} (h : Canonical w) (hsub : Subdocument v w) :
    Canonical v := by
  induction hsub with
  | whole => exact h
  | item hmem _ ih => exact ih (canonicalItems_iff.1 h _ hmem)
  | member hmem _ ih => exact ih (canonicalMembers_iff.1 h.2 _ hmem)

theorem Fits.canonical {P : Number → Prop} {depth : Nat} {v : Json} (h : Fits P depth v) :
    Fits P depth v.canonical := by
  induction h with
  | null => exact .null
  | bool => exact .bool
  | number h => exact .number h
  | string => exact .string
  | @array depth items h ih =>
    refine .array fun x hx => ?_
    rw [canonicalItems_eq] at hx
    obtain ⟨item, hitem, rfl⟩ := List.mem_map.1 hx
    exact ih item hitem
  | @object depth members h ih =>
    refine .object fun x hx => ?_
    have hmem := Entries.mem_of_mem_sorted hx
    rw [canonicalMembers_eq] at hmem
    obtain ⟨m, hm, rfl⟩ := List.mem_map.1 hmem
    exact ih m hm

end Json
end KernelRegistry
