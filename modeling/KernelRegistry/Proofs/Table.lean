import KernelRegistry.Table

/-!
# Entries by key

What is found under a key after entries were put in their places.

* `Entries.lookup_insert` — an entry is found under its key, and nothing else changes.
* `Entries.lookup_sorted` — **of entries with the same key the last is found** when they are sorted.
* `Entries.lookup_foldl_insert` — entries put among others are found before them.
* `Entries.eq_of_lookup` — entries whose keys increase are determined by what is found.
* `Entries.sorted_eq_self` — sorting them changes nothing.
* `Table.ofEntries_entries` — a table is made up of its entries.
-/

set_option autoImplicit false
namespace KernelRegistry
namespace Entries

variable {α : Type}

/-- Nothing is asked of the entries: one with the key is not passed over. -/
theorem lookup_insert (key key' : String) (value : α) (entries : Entries α) :
    lookup key' (insert key value entries) = if key = key' then some value
      else lookup key' entries := by
  induction entries with
  | nil => rfl
  | cons e es ih =>
    rw [insert_cons]
    split
    · rfl
    · next hle =>
      split
      · next heq =>
        rw [lookup_cons, lookup_cons, ← heq]
        split
        · rfl
        · rfl
      · next hne =>
        rw [lookup_cons, lookup_cons, ih]
        split
        · next he => rw [if_neg fun h => hne (h.trans he.symm)]
        · rfl

/-- **Of entries with the same key the last is found.** -/
theorem lookup_sorted (key : String) (entries : Entries α) :
    lookup key (sorted entries) =
      ((entries.filter fun entry => entry.1 = key).getLast?).map Prod.snd := by
  have hfold : ∀ done : Entries α,
      lookup key (entries.foldl (fun done entry => insert entry.1 entry.2 done) done) =
        (((entries.filter fun entry => entry.1 = key).getLast?).map Prod.snd).or
          (lookup key done) := by
    induction entries with
    | nil => intro done; rfl
    | cons e es ih =>
      intro done
      rw [List.foldl_cons, ih, lookup_insert, List.filter_cons]
      split
      · next he =>
        rw [if_pos (by simpa using he), List.getLast?_cons]
        cases (es.filter fun entry => entry.1 = key).getLast? with
        | none => simp
        | some last => simp
      · next he => rw [if_neg (by simpa using he)]
  rw [sorted, hfold]
  exact Option.or_none

/-! ## Entries put among others -/

theorem mem_foldl_insert {entries done : Entries α} {entry : String × α}
    (h : entry ∈ entries.foldl (fun done entry => insert entry.1 entry.2 done) done) :
    entry ∈ entries ∨ entry ∈ done := by
  induction entries generalizing done with
  | nil => exact .inr h
  | cons e es ih =>
    rcases ih h with h | h
    · exact .inl (List.mem_cons_of_mem _ h)
    · rcases mem_insert h with rfl | h
      · exact .inl List.mem_cons_self
      · exact .inr h

theorem Sorted.foldl_insert {entries done : Entries α} (h : Sorted done) :
    Sorted (entries.foldl (fun done entry => Entries.insert entry.1 entry.2 done) done) := by
  induction entries generalizing done with
  | nil => exact h
  | cons e es ih => exact ih (h.insert e.1 e.2)

theorem sorted_sorted (entries : Entries α) : Sorted (sorted entries) :=
  Sorted.foldl_insert (by simp [Sorted])

theorem mem_of_mem_sorted {entries : Entries α} {entry : String × α} (h : entry ∈ sorted entries) :
    entry ∈ entries :=
  (mem_foldl_insert h).resolve_right List.not_mem_nil

theorem mem_of_lookup {key : String} {value : α} {entries : Entries α}
    (h : lookup key entries = some value) : (key, value) ∈ entries := by
  induction entries with
  | nil => cases h
  | cons e es ih =>
    rw [lookup_cons] at h
    split at h
    · next he =>
      cases h
      rw [← he]
      exact List.mem_cons_self
    · exact List.mem_cons_of_mem _ (ih h)

theorem lookup_eq_none {key : String} {entries : Entries α} (h : ∀ e ∈ entries, e.1 ≠ key) :
    lookup key entries = none := by
  cases hlookup : lookup key entries with
  | none => rfl
  | some value => exact absurd rfl (h _ (mem_of_lookup hlookup))

theorem lookup_eq_none_iff {key : String} {entries : Entries α} :
    lookup key entries = none ↔ key ∉ entries.map Prod.fst := by
  induction entries with
  | nil => simp [lookup]
  | cons e es ih =>
    rw [lookup_cons, List.map_cons, List.mem_cons, not_or, ← ih]
    split
    · next hkey => simp [hkey]
    · next hkey => simp [Ne.symm hkey]

@[simp]
theorem lookup_append (key : String) (entries entries' : Entries α) :
    lookup key (entries ++ entries') = (lookup key entries).or (lookup key entries') := by
  induction entries with
  | nil => rfl
  | cons e es ih =>
    rw [List.cons_append, lookup_cons, lookup_cons, ih]
    split
    · rfl
    · rfl

/-- Entries with other keys do not change what is found. -/
theorem lookup_filter {p : String → Bool} {key : String} (hkey : p key = true)
    (entries : Entries α) : lookup key (entries.filter fun e => p e.1) = lookup key entries := by
  induction entries with
  | nil => rfl
  | cons e es ih =>
    rw [List.filter_cons, lookup_cons]
    split
    · rw [lookup_cons, ih]
    · next hother =>
      rw [ih, if_neg]
      rintro rfl
      exact hother hkey

/-- Entries with other values under the same keys. -/
theorem lookup_map {β : Type} (f : α → β) (key : String) (entries : Entries α) :
    lookup key (entries.map fun e => (e.1, f e.2)) = (lookup key entries).map f := by
  induction entries with
  | nil => rfl
  | cons e es ih =>
    rw [List.map_cons, lookup_cons, lookup_cons, ih]
    split
    · rfl
    · rfl

/-- **Entries put among others are found before them**, if their keys increase. -/
theorem lookup_foldl_insert {entries : Entries α} (h : Sorted entries) (key : String)
    (done : Entries α) :
    lookup key (entries.foldl (fun done entry => insert entry.1 entry.2 done) done) =
      (lookup key entries).or (lookup key done) := by
  induction entries generalizing done with
  | nil => rfl
  | cons e es ih =>
    obtain ⟨he, hes⟩ := List.pairwise_cons.1 h
    rw [List.foldl_cons, ih hes, lookup_insert, lookup_cons]
    split
    · next hkey =>
      have hnone : lookup key es = none :=
        lookup_eq_none fun x hx heq =>
          absurd (he x hx) (by rw [heq, hkey]; exact String.lt_irrefl key)
      rw [hnone]
      rfl
    · rfl

/-! ## Entries by what is found -/

theorem lookup_of_mem {entries : Entries α} (h : Sorted entries) {entry : String × α}
    (hmem : entry ∈ entries) : lookup entry.1 entries = some entry.2 := by
  induction entries with
  | nil => cases hmem
  | cons e es ih =>
    obtain ⟨he, hes⟩ := List.pairwise_cons.1 h
    rcases List.mem_cons.1 hmem with rfl | hmem
    · rw [lookup_cons, if_pos rfl]
    · have hne : e.1 ≠ entry.1 := fun heq =>
        absurd (he entry hmem) (by rw [heq]; exact String.lt_irrefl _)
      rw [lookup_cons, if_neg hne, ih hes hmem]

/-- Sorted entries are determined by what is found under each key. -/
theorem eq_of_lookup {entries entries' : Entries α} (h : Sorted entries) (h' : Sorted entries')
    (hlookup : ∀ key, lookup key entries = lookup key entries') : entries = entries' := by
  have hmem : ∀ e, e ∈ entries ↔ e ∈ entries' := fun e =>
    ⟨fun hmem => mem_of_lookup ((hlookup e.1).symm.trans (lookup_of_mem h hmem)),
      fun hmem => mem_of_lookup ((hlookup e.1).trans (lookup_of_mem h' hmem))⟩
  have hnodup : ∀ {es : Entries α}, Sorted es → es.Nodup := fun hes =>
    hes.imp fun hlt heq => absurd hlt (by rw [heq]; exact String.lt_irrefl _)
  have hperm := (List.perm_ext_iff_of_nodup (hnodup h) (hnodup h')).2 hmem
  have hirrefl : ∀ a b : String × α, a ∈ entries → b ∈ entries' → a.1 < b.1 → b.1 < a.1 → a = b :=
    fun _ _ _ _ hlt hgt => absurd (String.lt_trans hlt hgt) (String.lt_irrefl _)
  exact hperm.eq_of_pairwise hirrefl h h'

/-- Sorting keeps what is sorted already. -/
theorem sorted_eq_self {entries : Entries α} (h : Sorted entries) : sorted entries = entries := by
  refine eq_of_lookup (sorted_sorted entries) h fun key => ?_
  rw [sorted, lookup_foldl_insert h]
  exact Option.or_none

end Entries

/-- The entries of a table make up the table. -/
theorem Table.ofEntries_entries {α : Type} (t : Table α) : Table.ofEntries t.entries = t := by
  have hfold : ∀ (entries : Entries α) (s : Table α),
      (entries.foldl (fun t e => t.insert e.1 e.2) s).entries =
        entries.foldl (fun done e => Entries.insert e.1 e.2 done) s.entries := by
    intro entries
    induction entries with
    | nil => exact fun _ => rfl
    | cons e entries ih => exact fun s => ih _
  refine Table.ext (Entries.eq_of_lookup (Table.sorted _) t.sorted fun key => ?_)
  rw [Table.ofEntries, hfold, Entries.lookup_foldl_insert t.sorted]
  exact Option.or_none

end KernelRegistry
