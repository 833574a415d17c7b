import KernelRegistry.Manifest.Printer
import KernelRegistry.Manifest.Reader
import KernelRegistry.Proofs.Path
import KernelRegistry.Proofs.Presentation.Parameter

/-!
# Manifests by their members

A manifest is shown by many objects, as its declarations are.  The object that is written is one of
these, so it is enough to know that each of them is read as the manifest.

* `Manifest.Shown` — what the members of an object have to show.
* `Manifest.takes_shown` — **an object that shows a manifest is read as it.**
* `Manifest.shown_writtenMembers` — what is written shows it.
* `Manifest.parse_directory` — what is read can be written: its directory is a text.
-/

set_option autoImplicit false
namespace KernelRegistry

open Json

namespace Manifest

variable {m : Manifest} {depth : Nat} {members : List (String × Json)}

/-- The names of the members of a manifest. -/
def memberNames : List String := ["kernel_name", "kernel_directory", "display_name", "parameters"]

/-- The document is a list of objects that show the declarations, in their order. -/
def ShowsParameters (depth : Nat) (parameters : List Parameter) (v : Json) : Prop :=
  ∃ objects, v = .array (objects.map .object) ∧
    List.Forall₂ (Parameter.Shown depth) parameters objects

/-- The members show the manifest: each of its own occurs at most once, in any order, and what is
absent, empty or meant anyway may be left out.  Others may stand among them, and among those of a
declaration if fewer than `depth` brackets of them are open at a time. -/
structure Shown (depth : Nat) (m : Manifest) (members : List (String × Json)) : Prop where
  once : ∀ name ∈ memberNames, AtMostOnce name members
  kernelName : Entries.lookup "kernel_name" members = some (.string m.kernelName)
  kernelDirectory : Shows (fun v => ∃ s, v = .string s ∧ m.kernelDirectory = .ofString s)
    (m.kernelDirectory = .ofString "kernel") (Entries.lookup "kernel_directory" members)
  displayName : Shows (ShowsText m.displayName) (m.displayName = none)
    (Entries.lookup "display_name" members)
  parameters : Shows (ShowsParameters depth m.parameters) (m.parameters = [])
    (Entries.lookup "parameters" members)

/-- The change that reading a member makes to the manifest. -/
def change (m : Manifest) (member : String × Json) (s : Manifest) : Manifest :=
  if member.1 = "kernel_name" then { s with kernelName := m.kernelName }
  else if member.1 = "kernel_directory" then { s with kernelDirectory := m.kernelDirectory }
  else if member.1 = "display_name" then { s with displayName := m.displayName }
  else if member.1 = "parameters" then { s with parameters := m.parameters }
  else s

theorem has_iff {name : String} : fields.has name = true ↔ name ∈ memberNames := by
  simp [Fields.has, fields, Field.of, memberNames, @eq_comm _ name]

theorem takes_parameters {parameters : List Parameter} {v : Json}
    (h : ShowsParameters (depth + 2) parameters v) :
    Takes (readList (Parameter.reader (depth + 3))) v parameters := by
  obtain ⟨objects, rfl, hobjects⟩ := h
  refine takes_list (List.forall₂_map_left_iff.2 ?_)
  exact hobjects.flip.imp fun members p hp => Parameter.takes_shown hp

theorem Shown.takesMember (h : m.Shown (depthLimit - 3) members) {member : String × Json}
    (hm : member ∈ members) :
    TakesMember fields.readMember fields.has member (member.1, m.change member) := by
  obtain ⟨key, v⟩ := member
  have hfound : key ∈ memberNames → Entries.lookup key members = some v :=
    fun hname => (h.once key hname).lookup_eq hm
  by_cases hname : key = "kernel_name"
  · subst hname
    have hv := h.kernelName.symm.trans (hfound (by simp [memberNames]))
    cases hv
    exact takesMember_field rfl ((takes_text _ _).map _)
  by_cases hdirectory : key = "kernel_directory"
  · subst hdirectory
    obtain ⟨s, rfl, hs⟩ := h.kernelDirectory.of_eq_some (hfound (by simp [memberNames]))
    have hchange : m.change ("kernel_directory", .string s) =
        fun m' => { m' with kernelDirectory := .ofString s } := by
      rw [← hs]
      rfl
    rw [hchange]
    exact takesMember_field rfl ((takes_text _ _).map _)
  by_cases hdisplay : key = "display_name"
  · subst hdisplay
    have hv := h.displayName.of_eq_some (hfound (by simp [memberNames]))
    exact takesMember_field rfl ((takes_optional_text hv).map _)
  by_cases hparameters : key = "parameters"
  · subst hparameters
    have hv := h.parameters.of_eq_some (hfound (by simp [memberNames]))
    have htakes : Takes (readList (Parameter.reader (depthLimit - 2))) v m.parameters :=
      takes_parameters hv
    exact takesMember_field rfl (htakes.map _)
  · have hnone : fields.fields.find? (·.name = key) = none := by
      simp [fields, Field.of, Ne.symm hname, Ne.symm hdirectory, Ne.symm hdisplay,
        Ne.symm hparameters]
    have hchange : m.change (key, v) = id := by
      funext s
      simp [change, hname, hdirectory, hdisplay, hparameters]
    rw [hchange]
    exact takesMember_other hnone

theorem eq_of_parts {r : Manifest} (hname : r.kernelName = m.kernelName)
    (hdirectory : r.kernelDirectory = m.kernelDirectory) (hdisplay : r.displayName = m.displayName)
    (hparameters : r.parameters = m.parameters) (hplace : r.directory = ⟨[]⟩) :
    r = { m with directory := ⟨[]⟩ } := by
  rw [← hname, ← hdirectory, ← hdisplay, ← hparameters, ← hplace]

/-- The members that show a manifest, read one after the other, make this manifest. -/
theorem Shown.applyAll_eq (h : m.Shown depth members) :
    applyAll (members.map m.change) { kernelName := "" } = { m with directory := ⟨[]⟩ } := by
  refine eq_of_parts ?_ ?_ ?_ ?_ ?_
  · exact applyAll_change "kernel_name" (fun x hx s => by simp [change, hx])
      (fun x hx s => by rw [change, if_neg hx]; split_ifs <;> rfl)
      fun hnone => by cases h.kernelName.symm.trans hnone
  · exact applyAll_change "kernel_directory" (fun x hx s => by simp [change, hx])
      (fun x hx s => by simp only [change]; split_ifs <;> rfl)
      fun hnone => (h.kernelDirectory.of_eq_none hnone).symm
  · exact applyAll_change "display_name" (fun x hx s => by simp [change, hx])
      (fun x hx s => by simp only [change]; split_ifs <;> rfl)
      fun hnone => (h.displayName.of_eq_none hnone).symm
  · exact applyAll_change "parameters" (fun x hx s => by simp [change, hx])
      (fun x hx s => by simp only [change]; split_ifs <;> rfl)
      fun hnone => (h.parameters.of_eq_none hnone).symm
  · refine applyAll_keeps (Q := fun s : Manifest => s.directory = ⟨[]⟩) (fun f hf s hs => ?_) rfl
    obtain ⟨x, -, rfl⟩ := List.mem_map.1 hf
    rw [← hs, change]
    split_ifs <;> rfl

/-- **An object that shows a manifest is read as it**, apart from where it was found. -/
theorem takes_shown (h : m.Shown (depthLimit - 3) members) :
    Takes reader (.object members) { m with directory := ⟨[]⟩ } := by
  rw [← h.applyAll_eq]
  refine takes_record (fun x hx => h.takesMember hx)
    (nodup_filter_keys fun name hhas => h.once name (has_iff.1 hhas))
    fun field hfield hrequired => ?_
  simp only [fields, List.mem_cons, List.not_mem_nil, or_false] at hfield
  rcases hfield with rfl | rfl | rfl | rfl
  · by_contra hmem
    cases h.kernelName.symm.trans (Entries.lookup_eq_none_iff.2 hmem)
  · cases hrequired
  · cases hrequired
  · cases hrequired

/-! ## Manifests as they are written -/

/-- The members of a manifest as they are written. -/
def writtenMembers (m : Manifest) : List (String × Json) :=
  [("kernel_name", .string m.kernelName),
    ("kernel_directory", .string m.kernelDirectory.display)] ++
    textMember? "display_name" m.displayName ++
    [("parameters", .array (m.parameters.map Parameter.document))]

theorem document_eq (m : Manifest) : m.document = .object m.writtenMembers := rfl

theorem showsParameters_documents (depth : Nat) (parameters : List Parameter) :
    ShowsParameters depth parameters (.array (parameters.map Parameter.document)) := by
  refine ⟨parameters.map Parameter.writtenMembers, ?_, ?_⟩
  · rw [List.map_map]
    rfl
  · exact List.forall₂_map_right_iff.2
      (List.forall₂_same.2 fun p _ => p.shown_writtenMembers depth)

/-- **What is written shows the manifest**, if its directory is a text. -/
theorem shown_writtenMembers (depth : Nat) {s : String} (h : m.kernelDirectory = .ofString s) :
    m.Shown depth m.writtenMembers := by
  have hkeys : List.Sublist (m.writtenMembers.map Prod.fst) memberNames := by
    simp only [writtenMembers, List.map_append]
    exact ((List.Sublist.refl _).append textMember?_keys).append (List.Sublist.refl _)
  have hdirectory : Entries.lookup "kernel_directory" m.writtenMembers = some (.string s) := by
    rw [writtenMembers, h, Path.display_ofString]
    rfl
  have hdisplay : Entries.lookup "display_name" m.writtenMembers = m.displayName.map .string := by
    simp [writtenMembers, Entries.lookup]
  have hparameters : Entries.lookup "parameters" m.writtenMembers =
      some (.array (m.parameters.map Parameter.document)) := by
    simp [writtenMembers, Entries.lookup]
  constructor
  case once =>
    exact fun name _ => List.nodup_iff_count_le_one.1 (hkeys.nodup (by decide)) name
  case kernelName => rfl
  case kernelDirectory =>
    rw [hdirectory]
    exact ⟨s, rfl, h⟩
  case displayName => exact hdisplay ▸ showsText_member
  case parameters =>
    rw [hparameters]
    exact showsParameters_documents depth m.parameters

theorem document_fits {P : Number → Prop} (m : Manifest) : Fits P 5 m.document := by
  refine .object fun x hx => ?_
  simp only [List.mem_append] at hx
  rcases hx with (hx | hx) | hx
  · simp only [List.mem_cons, List.not_mem_nil, or_false] at hx
    rcases hx with rfl | rfl
    · exact .string
    · exact .string
  · exact textMember?_fits x hx
  · obtain rfl := List.mem_singleton.1 hx
    refine .array fun v hv => ?_
    obtain ⟨p, -, rfl⟩ := List.mem_map.1 hv
    exact p.document_fits

/-! ## Manifests that are read -/

/-- A manifest that is read has a text for its directory and was found nowhere yet. -/
theorem parse_directory {text : String} (h : parse text = .ok m) :
    (∃ s, m.kernelDirectory = .ofString s) ∧ m.directory = ⟨[]⟩ := by
  obtain ⟨step, hstep, h⟩ := of_bind_eq_ok h
  obtain ⟨u, -, h⟩ := of_bind_eq_ok h
  cases h
  have hgives : Gives reader
      fun m => (∃ s, m.kernelDirectory = .ofString s) ∧ m.directory = ⟨[]⟩ := by
    refine readRecord_gives (fun field hfield => ?_) ⟨⟨"kernel", rfl⟩, rfl⟩
    simp only [fields, List.mem_cons, List.not_mem_nil, or_false] at hfield
    rcases hfield with rfl | rfl | rfl | rfl
    · exact Gives.map fun _ _ hs => hs
    · exact Gives.map fun s _ hs => ⟨⟨s, rfl⟩, hs.2⟩
    · exact Gives.map fun _ _ hs => hs
    · exact Gives.map fun _ _ hs => hs
  exact hgives hstep

end Manifest

end KernelRegistry
