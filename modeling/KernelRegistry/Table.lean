/-!
# Tables with sorted keys

Environment variables, aliases and the members of a document in its canonical form are kept sorted
by key.  Keys are ordered by code point, which for UTF-8 is the order of their bytes.

* `Entries.insert`, `Entries.lookup` — on a bare list of entries.
* `Table` — entries together with the fact that their keys increase.
* `Table.insert`, `Table.get?`, `Table.keys` — the operations on tables.
-/

set_option autoImplicit false
namespace KernelRegistry

/-- Keys with their values, in some order. -/
abbrev Entries (α : Type) := List (String × α)

namespace Entries

variable {α : Type}

/-- Puts a value under a key, at the place of the key among sorted entries.  A value that was there
gives way. -/
def insert (key : String) (value : α) : Entries α → Entries α
  | [] => [(key, value)]
  | entry :: entries =>
    if key < entry.1 then (key, value) :: entry :: entries
    else if key = entry.1 then (key, value) :: entries
    else entry :: insert key value entries

/-- The value under a key, the first if there are several. -/
def lookup (key : String) : Entries α → Option α
  | [] => none
  | entry :: entries => if entry.1 = key then some entry.2 else lookup key entries

theorem insert_cons (key : String) (value : α) (entry : String × α) (entries : Entries α) :
    insert key value (entry :: entries) =
      if key < entry.1 then (key, value) :: entry :: entries
      else if key = entry.1 then (key, value) :: entries
      else entry :: insert key value entries :=
  rfl

theorem lookup_cons (key : String) (entry : String × α) (entries : Entries α) :
    lookup key (entry :: entries) = if entry.1 = key then some entry.2 else lookup key entries :=
  rfl

/-- The entries sorted by key, where of equal keys the last wins. -/
def sorted (entries : Entries α) : Entries α :=
  entries.foldl (fun done entry => insert entry.1 entry.2 done) []

/-- Keys increase, so none occurs twice. -/
def Sorted (entries : Entries α) : Prop :=
  entries.Pairwise (·.1 < ·.1)

theorem mem_insert {key : String} {value : α} {entries : Entries α} {entry : String × α}
    (h : entry ∈ insert key value entries) : entry = (key, value) ∨ entry ∈ entries := by
  induction entries with
  | nil => simpa [insert] using h
  | cons e es ih =>
    rw [insert_cons] at h
    split at h
    · simpa using h
    · split at h
      · rcases List.mem_cons.1 h with h | h
        · exact .inl h
        · exact .inr (List.mem_cons_of_mem _ h)
      · rcases List.mem_cons.1 h with h | h
        · exact .inr (h ▸ List.mem_cons_self)
        · exact (ih h).imp id (List.mem_cons_of_mem _)

theorem lt_of_not_lt {a b : String} (h : ¬ a < b) (h' : a ≠ b) : b < a :=
  String.not_le.1 fun hle => h' (String.le_antisymm hle (String.not_lt.1 h))

theorem Sorted.insert {entries : Entries α} (h : Sorted entries) (key : String) (value : α) :
    Sorted (Entries.insert key value entries) := by
  induction entries with
  | nil => simp [Entries.insert, Sorted]
  | cons e es ih =>
    have hes : Sorted es := List.Pairwise.of_cons h
    have he : ∀ x ∈ es, e.1 < x.1 := (List.pairwise_cons.1 h).1
    rw [insert_cons]
    split
    · next hlt =>
      refine List.pairwise_cons.2 ⟨fun x hx => ?_, h⟩
      rcases List.mem_cons.1 hx with rfl | hx
      · exact hlt
      · exact String.lt_trans hlt (he x hx)
    · next hnlt =>
      split
      · next heq => exact List.pairwise_cons.2 ⟨fun x hx => heq ▸ he x hx, hes⟩
      · next hne =>
        refine List.pairwise_cons.2 ⟨fun x hx => ?_, ih hes⟩
        rcases mem_insert hx with rfl | hx
        · exact lt_of_not_lt hnlt hne
        · exact he x hx

end Entries

/-- Entries whose keys increase. -/
structure Table (α : Type) where
  entries : Entries α := []
  sorted : entries.Sorted := by simp [Entries.Sorted]

namespace Table

variable {α : Type}

@[ext]
theorem ext {s t : Table α} (h : s.entries = t.entries) : s = t := by
  cases s; cases t; simp_all

instance [DecidableEq α] : DecidableEq (Table α) := fun s t =>
  if h : s.entries = t.entries then .isTrue (ext h) else .isFalse fun he => h (he ▸ rfl)

instance : Inhabited (Table α) := ⟨{}⟩

/-- The table without entries. -/
def empty : Table α := {}

/-- Puts a value under a key. -/
def insert (t : Table α) (key : String) (value : α) : Table α :=
  ⟨t.entries.insert key value, t.sorted.insert key value⟩

/-- The value under a key. -/
def get? (t : Table α) (key : String) : Option α := t.entries.lookup key

/-- Whether there is a value under the key. -/
def contains (t : Table α) (key : String) : Bool := (t.get? key).isSome

/-- The keys, in increasing order. -/
def keys (t : Table α) : List String := t.entries.map Prod.fst

/-- The table of entries in any order; of equal keys the last wins. -/
def ofEntries (entries : Entries α) : Table α :=
  entries.foldl (fun t entry => t.insert entry.1 entry.2) empty

end Table
end KernelRegistry
