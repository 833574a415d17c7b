import KernelRegistry.KernelSpec.Printer
import KernelRegistry.Proofs.Presentation.Members

/-!
# Kernelspecs by their members

A kernelspec is shown by many objects: the order of its members is free, others may stand among
them, and what is empty may be left out.  The object that is written is one of these.

* `KernelSpec.Shown` — what the members of an object have to show.
* `KernelSpec.takes_shown` — **an object that shows a kernelspec is read as it.**
* `KernelSpec.shown_writtenMembers` — what is written shows it.
-/

set_option autoImplicit false
namespace KernelRegistry

open Json

namespace KernelSpec

variable {spec : KernelSpec} {members : List (String × Json)}

/-- The names of the members of a kernelspec. -/
def memberNames : List String := ["argv", "display_name", "language", "interrupt_mode", "env"]

/-- The members show the kernelspec: each of its own occurs at most once, in any order, and what is
absent or empty may be left out.  Others may stand among them. -/
structure Shown (spec : KernelSpec) (members : List (String × Json)) : Prop where
  once : ∀ name ∈ memberNames, AtMostOnce name members
  argv : Shows (ShowsTexts spec.argv) (spec.argv = []) (Entries.lookup "argv" members)
  displayName : Shows (ShowsText spec.displayName) (spec.displayName = none)
    (Entries.lookup "display_name" members)
  language : Shows (ShowsText spec.language) (spec.language = none)
    (Entries.lookup "language" members)
  interruptMode : Shows (ShowsText spec.interruptMode) (spec.interruptMode = none)
    (Entries.lookup "interrupt_mode" members)
  env : Shows (ShowsTable spec.env) (spec.env = .empty) (Entries.lookup "env" members)

/-- The change that reading a member makes to the kernelspec.  A member that says nothing makes
none. -/
def change (spec : KernelSpec) (member : String × Json) (s : KernelSpec) : KernelSpec :=
  if member.1 = "argv" then { s with argv := spec.argv }
  else if member.1 = "display_name" then { s with displayName := spec.displayName }
  else if member.1 = "language" then { s with language := spec.language }
  else if member.1 = "interrupt_mode" then { s with interruptMode := spec.interruptMode }
  else if member.1 = "env" then { s with env := spec.env }
  else s

theorem has_iff {name : String} : fields.has name = true ↔ name ∈ memberNames := by
  simp [Fields.has, fields, Field.of, memberNames, @eq_comm _ name]

theorem Shown.takesMember (h : spec.Shown members) {member : String × Json}
    (hm : member ∈ members) :
    TakesMember fields.readMember fields.has member (member.1, spec.change member) := by
  obtain ⟨key, v⟩ := member
  have hfound : key ∈ memberNames → Entries.lookup key members = some v :=
    fun hname => (h.once key hname).lookup_eq hm
  by_cases hargv : key = "argv"
  · subst hargv
    have hv := h.argv.of_eq_some (hfound (by simp [memberNames]))
    exact takesMember_field rfl ((takes_texts hv).map _)
  by_cases hdisplay : key = "display_name"
  · subst hdisplay
    have hv := h.displayName.of_eq_some (hfound (by simp [memberNames]))
    exact takesMember_field rfl ((takes_optional_text hv).map _)
  by_cases hlanguage : key = "language"
  · subst hlanguage
    have hv := h.language.of_eq_some (hfound (by simp [memberNames]))
    exact takesMember_field rfl ((takes_optional_text hv).map _)
  by_cases hinterrupt : key = "interrupt_mode"
  · subst hinterrupt
    have hv := h.interruptMode.of_eq_some (hfound (by simp [memberNames]))
    exact takesMember_field rfl ((takes_optional_text hv).map _)
  by_cases henv : key = "env"
  · subst henv
    have hv := h.env.of_eq_some (hfound (by simp [memberNames]))
    exact takesMember_field rfl ((takes_text_table hv).map _)
  · have hnone : fields.fields.find? (·.name = key) = none := by
      simp [fields, Field.of, Ne.symm hargv, Ne.symm hdisplay, Ne.symm hlanguage,
        Ne.symm hinterrupt, Ne.symm henv]
    have hchange : spec.change (key, v) = id := by
      funext s
      simp [change, hargv, hdisplay, hlanguage, hinterrupt, henv]
    rw [hchange]
    exact takesMember_other hnone

/-- The members that show a kernelspec, read one after the other, make this kernelspec. -/
theorem Shown.applyAll_eq (h : spec.Shown members) :
    applyAll (members.map spec.change) {} = spec := by
  have heq : ∀ {r : KernelSpec}, r.argv = spec.argv → r.displayName = spec.displayName →
      r.language = spec.language → r.interruptMode = spec.interruptMode → r.env = spec.env →
      r = spec := by
    rintro ⟨⟩ rfl rfl rfl rfl rfl
    rfl
  refine heq ?_ ?_ ?_ ?_ ?_
  · exact applyAll_change "argv" (fun x hx s => by simp [change, hx])
      (fun x hx s => by rw [change, if_neg hx]; split_ifs <;> rfl)
      fun hnone => (h.argv.of_eq_none hnone).symm
  · exact applyAll_change "display_name" (fun x hx s => by simp [change, hx])
      (fun x hx s => by simp only [change]; split_ifs <;> rfl)
      fun hnone => (h.displayName.of_eq_none hnone).symm
  · exact applyAll_change "language" (fun x hx s => by simp [change, hx])
      (fun x hx s => by simp only [change]; split_ifs <;> rfl)
      fun hnone => (h.language.of_eq_none hnone).symm
  · exact applyAll_change "interrupt_mode" (fun x hx s => by simp [change, hx])
      (fun x hx s => by simp only [change]; split_ifs <;> rfl)
      fun hnone => (h.interruptMode.of_eq_none hnone).symm
  · exact applyAll_change "env" (fun x hx s => by simp [change, hx])
      (fun x hx s => by simp only [change]; split_ifs <;> rfl)
      fun hnone => (h.env.of_eq_none hnone).symm

/-- **An object that shows a kernelspec is read as it.** -/
theorem takes_shown (h : spec.Shown members) :
    Takes (readRecord fields {}) (.object members) spec := by
  have hrecord : Takes (readRecord fields {}) (.object members)
      (applyAll (members.map spec.change) {}) := by
    refine takes_record (fun x hx => h.takesMember hx)
      (nodup_filter_keys fun name hhas => h.once name (has_iff.1 hhas))
      fun field hfield hrequired => ?_
    simp only [fields, List.mem_cons, List.not_mem_nil, or_false] at hfield
    rcases hfield with rfl | rfl | rfl | rfl | rfl <;> cases hrequired
  rwa [h.applyAll_eq] at hrecord

/-! ## Kernelspecs as they are written -/

/-- The members of a kernelspec as they are written. -/
def writtenMembers (spec : KernelSpec) : List (String × Json) :=
  [("argv", .array (spec.argv.map .string))] ++
    textMember? "display_name" spec.displayName ++ textMember? "language" spec.language ++
    textMember? "interrupt_mode" spec.interruptMode ++ tableMember? "env" spec.env

theorem document_eq (spec : KernelSpec) : spec.document = .object spec.writtenMembers := rfl

/-- **What is written shows the kernelspec.** -/
theorem shown_writtenMembers (spec : KernelSpec) : spec.Shown spec.writtenMembers := by
  have hkeys : List.Sublist (spec.writtenMembers.map Prod.fst) memberNames := by
    simp only [writtenMembers, List.map_append]
    exact ((((List.Sublist.refl _).append textMember?_keys).append textMember?_keys).append
      textMember?_keys).append tableMember?_keys
  have hdisplay : Entries.lookup "display_name" spec.writtenMembers =
      spec.displayName.map .string := by
    simp [writtenMembers, Entries.lookup]
  have hlanguage : Entries.lookup "language" spec.writtenMembers = spec.language.map .string := by
    simp [writtenMembers, Entries.lookup]
  have hinterrupt : Entries.lookup "interrupt_mode" spec.writtenMembers =
      spec.interruptMode.map .string := by
    simp [writtenMembers, Entries.lookup]
  have henv : Entries.lookup "env" spec.writtenMembers =
      if spec.env.entries.isEmpty = false then some spec.env.document else none := by
    simp [writtenMembers, Entries.lookup]
  constructor
  case once =>
    exact fun name _ => List.nodup_iff_count_le_one.1 (hkeys.nodup (by decide)) name
  case argv => rfl
  case displayName => exact hdisplay ▸ showsText_member
  case language => exact hlanguage ▸ showsText_member
  case interruptMode => exact hinterrupt ▸ showsText_member
  case env => exact henv ▸ showsTable_member

theorem document_fits {P : Number → Prop} (spec : KernelSpec) : Fits P 3 spec.document := by
  refine .object fun x hx => ?_
  simp only [List.mem_append] at hx
  rcases hx with (((hx | hx) | hx) | hx) | hx
  · obtain rfl := List.mem_singleton.1 hx
    exact texts_fits spec.argv
  · exact textMember?_fits x hx
  · exact textMember?_fits x hx
  · exact textMember?_fits x hx
  · exact tableMember?_fits x hx

end KernelSpec

end KernelRegistry
