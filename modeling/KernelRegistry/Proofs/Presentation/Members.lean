import Mathlib.Data.List.Nodup
import KernelRegistry.Parameter.Printer
import KernelRegistry.Proofs.Json.Typed
import KernelRegistry.Proofs.Table

/-!
# What the members of an object show

An object shows a record through what is found under its names, whatever the order of its members
is.  A member may be missing where that says as much.

* `AtMostOnce` — a name occurs at most once; then what is there is what is found.
* `Shows` — what is found, or that nothing is, shows something.
* `ShowsText`, `ShowsTexts`, `ShowsTable` — the documents of optional texts, of lists and of tables.
* `applyAll_change` — what is left in a record when every member has changed it.
* `lookup_textMember?`, `lookup_tableMember?`, … — members that are written only if there is
  something to say.
-/

set_option autoImplicit false
namespace KernelRegistry

open Json

/-! ## Found members -/

section Found

variable {α : Type} {name : String} {members : Entries α}

/-- The name occurs at most once. -/
def AtMostOnce (name : String) (members : Entries α) : Prop :=
  (members.map Prod.fst).count name ≤ 1

instance : Decidable (AtMostOnce name members) := inferInstanceAs (Decidable (_ ≤ _))

theorem AtMostOnce.of_cons {m : String × α} (h : AtMostOnce m.1 (m :: members)) :
    m.1 ∉ members.map Prod.fst := by
  rw [AtMostOnce, List.map_cons, List.count_cons_self] at h
  exact List.count_eq_zero.1 (by omega)

theorem AtMostOnce.tail {m : String × α} (h : AtMostOnce name (m :: members)) :
    AtMostOnce name members :=
  Nat.le_trans (List.count_le_count_cons ..) h

theorem AtMostOnce.lookup_eq {m : String × α} (h : AtMostOnce m.1 members) (hm : m ∈ members) :
    Entries.lookup m.1 members = some m.2 := by
  induction members with
  | nil => cases hm
  | cons n members ih =>
    rw [Entries.lookup_cons]
    rcases List.mem_cons.1 hm with rfl | hm
    · rw [if_pos rfl]
    · split
      · next hname =>
        rw [← hname] at h
        exact absurd (hname ▸ List.mem_map_of_mem hm) h.of_cons
      · exact ih h.tail hm

/-- Where the keys increase, none occurs twice. -/
theorem atMostOnce_of_sorted (h : Entries.Sorted members) (name : String) :
    AtMostOnce name members := by
  have hnodup : (members.map Prod.fst).Nodup :=
    List.pairwise_map.2 (h.imp fun hlt => String.ne_of_lt hlt)
  exact List.nodup_iff_count_le_one.1 hnodup name

/-- Names that occur at most once are different from each other. -/
theorem nodup_filter_keys {p : String → Bool}
    (h : ∀ name, p name = true → AtMostOnce name members) :
    ((members.map Prod.fst).filter p).Nodup := by
  rw [List.nodup_iff_count_le_one]
  intro name
  cases hp : p name with
  | true => exact Nat.le_trans (List.filter_sublist.count_le name) (h name hp)
  | false =>
    rw [List.count_eq_zero.2]
    · exact Nat.zero_le 1
    · intro hmem
      exact absurd ((List.mem_filter.1 hmem).2.symm.trans hp) (by decide)

theorem AtMostOnce.filter (h : AtMostOnce name members) (p : String × α → Bool) :
    AtMostOnce name (members.filter p) :=
  Nat.le_trans ((List.filter_sublist.map Prod.fst).count_le name) h

end Found

/-! ## Documents of parts -/

/-- A member shows something, or it is missing because it may be left out. -/
def Shows (P : Json → Prop) (leftOut : Prop) : Option Json → Prop
  | some v => P v
  | none => leftOut

theorem Shows.imp {P Q : Json → Prop} {leftOut : Prop} {found : Option Json}
    (h : Shows P leftOut found) (hPQ : ∀ v, P v → Q v) : Shows Q leftOut found := by
  cases found with
  | none => exact h
  | some v => exact hPQ v h

theorem Shows.of_eq_some {P : Json → Prop} {leftOut : Prop} {found : Option Json} {v : Json}
    (h : Shows P leftOut found) (hfound : found = some v) : P v := by
  rw [hfound] at h
  exact h

theorem Shows.of_eq_none {P : Json → Prop} {leftOut : Prop} {found : Option Json}
    (h : Shows P leftOut found) (hfound : found = none) : leftOut := by
  rw [hfound] at h
  exact h

/-- The document is the text, or null if there is none. -/
def ShowsText : Option String → Json → Prop
  | some s, v => v = .string s
  | none, v => v = .null

/-- The document is the list of the texts. -/
def ShowsTexts (texts : List String) (v : Json) : Prop := v = .array (texts.map .string)

/-- The document has the entries of the table, in any order; of entries with one key the last
counts. -/
def ShowsTable (t : Table String) (v : Json) : Prop :=
  ∃ entries, t = .ofEntries entries ∧ v = .object (entries.map fun e => (e.1, .string e.2))

theorem takes_optional_text {expected : String} {text : Option String} {v : Json}
    (h : ShowsText text v) : Takes (readOptional (readText expected)) v text := by
  cases text with
  | none =>
    obtain rfl := h
    exact takes_null _
  | some s =>
    obtain rfl := h
    exact takes_some (takes_text expected s) (by simp)

theorem takes_texts {expected : String} {texts : List String} {v : Json}
    (h : ShowsTexts texts v) : Takes (readList (readText expected)) v texts := by
  obtain rfl := h
  exact takes_list (List.forall₂_map_left_iff.2
    (List.forall₂_same.2 fun s _ => takes_text expected s))

theorem takes_text_table {expected : String} {t : Table String} {v : Json}
    (h : ShowsTable t v) : Takes (readTable (readText expected)) v t := by
  obtain ⟨entries, rfl, rfl⟩ := h
  exact takes_table (List.forall₂_map_left_iff.2
    (List.forall₂_same.2 fun e _ => ⟨rfl, takes_text expected e.2⟩))

theorem showsTable_document (t : Table String) : ShowsTable t t.document :=
  ⟨t.entries, t.ofEntries_entries.symm, rfl⟩

/-! ## Records that every member has changed -/

/-- A record that every member has changed, seen through a function of it that only the members of
one name have to do with: they decide alone, or what was there is still there if there are none. -/
theorem applyAll_change {σ β : Type} {change : String × Json → σ → σ} {get : σ → β} {b : β}
    {start : σ} {members : List (String × Json)} (name : String)
    (hown : ∀ m, m.1 = name → ∀ s, get (change m s) = b)
    (hother : ∀ m, m.1 ≠ name → ∀ s, get (change m s) = get s)
    (h : Entries.lookup name members = none → get start = b) :
    get (applyAll (members.map change) start) = b := by
  refine applyAll_eq (fun f hf => ?_) ?_
  · obtain ⟨m, -, rfl⟩ := List.mem_map.1 hf
    by_cases hname : m.1 = name
    · exact .inl (hown m hname)
    · exact .inr (hother m hname)
  · by_cases hmem : name ∈ members.map Prod.fst
    · obtain ⟨m, hm, hname⟩ := List.mem_map.1 hmem
      exact .inl ⟨change m, List.mem_map_of_mem hm, hown m hname⟩
    · exact .inr (h (Entries.lookup_eq_none_iff.2 hmem))

/-! ## Members that may be left out -/

section Written

variable {key name : String} {text : Option String} {t : Table String}

theorem textMember?_keys : List.Sublist ((textMember? key text).map Prod.fst) [key] := by
  cases text with
  | none => exact List.nil_sublist _
  | some s => exact List.Sublist.refl _

theorem tableMember?_keys : List.Sublist ((tableMember? key t).map Prod.fst) [key] := by
  rw [tableMember?]
  split
  · exact List.nil_sublist _
  · exact List.Sublist.refl _

@[simp]
theorem lookup_textMember? : Entries.lookup name (textMember? key text) =
    if key = name then text.map Json.string else none := by
  cases text with
  | none =>
    split
    · rfl
    · rfl
  | some s => rfl

@[simp]
theorem lookup_tableMember? : Entries.lookup name (tableMember? key t) =
    if key = name ∧ t.entries.isEmpty = false then some t.document else none := by
  rw [tableMember?]
  cases ht : t.entries.isEmpty with
  | true => simp [Entries.lookup]
  | false => simp [Entries.lookup]

theorem showsText_member : Shows (ShowsText text) (text = none) (text.map Json.string) := by
  cases text with
  | none => rfl
  | some s => rfl

theorem showsTable_member : Shows (ShowsTable t) (t = .empty)
    (if t.entries.isEmpty = false then some t.document else none) := by
  split
  · exact showsTable_document t
  · next hempty =>
    exact Table.ext (List.isEmpty_iff.1 (Bool.not_eq_false _ ▸ hempty))

theorem textMember?_fits {P : Number → Prop} {depth : Nat} :
    ∀ m ∈ textMember? key text, Fits P depth m.2 := by
  intro m hm
  cases text with
  | none => cases hm
  | some s =>
    obtain rfl := List.mem_singleton.1 hm
    exact .string

theorem texts_fits {P : Number → Prop} {depth : Nat} (texts : List String) :
    Fits P (depth + 2) (.array (texts.map .string)) := by
  refine .array fun v hv => ?_
  obtain ⟨s, -, rfl⟩ := List.mem_map.1 hv
  exact .string

theorem tableMember?_fits {P : Number → Prop} {depth : Nat} :
    ∀ m ∈ tableMember? key t, Fits P (depth + 2) m.2 := by
  intro m hm
  rw [tableMember?] at hm
  split at hm
  · cases hm
  · obtain rfl := List.mem_singleton.1 hm
    refine .object fun e he => ?_
    obtain ⟨entry, -, rfl⟩ := List.mem_map.1 he
    exact .string

end Written

end KernelRegistry
