import KernelRegistry.Proofs.Presentation.KernelSpec
import KernelRegistry.Proofs.Presentation.Manifest

/-!
# Reading undoes writing

A text says what its document shows, whatever the order of the members, the blanks and the spelling
of strings are.

* `Undoes` — the law of a reader and a writer.
* `parse_undoes_document` — **it holds for manifests and for kernelspecs.**
* `parse_refuses_nested` — in a declaration, what nobody asked for may not be nested as deep as a
  document may: brackets are counted from the start of the manifest.
-/

set_option autoImplicit false
namespace KernelRegistry

open Json

/-- Reading undoes writing and looks through the presentation.  `ShownBy` says which documents show
a value, `Writable` which values are written in full, and `core` leaves out what is not written. -/
structure Undoes {α : Type} (parse : String → Except Failure α) (document : α → Json)
    (ShownBy : α → Json → Prop) (Writable : α → Prop) (core : α → α) : Prop where
  /-- Every text of a document that shows a value is read as the value. -/
  parse_of_shown : ∀ a v text, ShownBy a v → v.HasText text → parse text = .ok (core a)
  /-- The document that is written shows the value, and on one line it is such a text. -/
  shown_of_writable : ∀ a, Writable a →
    ShownBy a (document a) ∧ (document a).HasText (compact (document a))
  /-- So it is read back. -/
  parse_compact : ∀ a, Writable a → parse (compact (document a)) = .ok (core a)
  /-- A value that was read can be written and read again, which gives the same value. -/
  parse_again : ∀ text a, parse text = .ok a → parse (compact (document a)) = .ok a

/-- An object whose members show the manifest. -/
def Manifest.ShownBy (depth : Nat) (m : Manifest) (v : Json) : Prop :=
  ∃ members, v = .object members ∧ m.Shown depth members

/-- An object whose members show the kernelspec. -/
def KernelSpec.ShownBy (spec : KernelSpec) (v : Json) : Prop :=
  ∃ members, v = .object members ∧ spec.Shown members

/-- A law follows from reading what is shown. -/
theorem Undoes.of_shown {α : Type} {parse : String → Except Failure α} {document : α → Json}
    {ShownBy : α → Json → Prop} {Writable : α → Prop} {core : α → α}
    (hparse : ∀ a v text, ShownBy a v → v.HasText text → parse text = .ok (core a))
    (hwrite : ∀ a, Writable a →
      ShownBy a (document a) ∧ (document a).HasText (compact (document a)))
    (hread : ∀ text a, parse text = .ok a → Writable a ∧ core a = a) :
    Undoes parse document ShownBy Writable core := by
  have hback : ∀ a, Writable a → parse (compact (document a)) = .ok (core a) := fun a ha =>
    hparse a _ _ (hwrite a ha).1 (hwrite a ha).2
  refine ⟨hparse, hwrite, hback, fun text a h => ?_⟩
  obtain ⟨hwritable, hcore⟩ := hread text a h
  rw [hback a hwritable, hcore]

/-- **Reading undoes writing**: for every manifest whose directory is a text, apart from the place
where it was found, and for every kernelspec. -/
theorem parse_undoes_document :
    Undoes Manifest.parse Manifest.document (Manifest.ShownBy (depthLimit - 3))
      (fun m => ∃ s, m.kernelDirectory = .ofString s) (fun m => { m with directory := ⟨[]⟩ }) ∧
    Undoes KernelSpec.parse KernelSpec.document KernelSpec.ShownBy (fun _ => True) id := by
  constructor
  · refine .of_shown ?_ ?_ ?_
    · rintro m v text ⟨members, rfl, hshown⟩ htext
      exact readWhole?_of_takes (Manifest.takes_shown hshown) htext
    · rintro m ⟨s, hs⟩
      exact ⟨⟨_, m.document_eq, Manifest.shown_writtenMembers _ hs⟩,
        hasText_compact m.document_fits⟩
    · intro text m h
      obtain ⟨hdirectory, hplace⟩ := Manifest.parse_directory h
      exact ⟨hdirectory, by rw [← hplace]⟩
  · refine .of_shown ?_ ?_ ?_
    · rintro spec v text ⟨members, rfl, hshown⟩ htext
      exact readWhole?_of_takes (KernelSpec.takes_shown hshown) htext
    · intro spec _
      exact ⟨⟨_, spec.document_eq, spec.shown_writtenMembers⟩, hasText_compact spec.document_fits⟩
    · exact fun _ _ _ => ⟨trivial, rfl⟩

/-! ## A manifest in disorder -/

/-- A declaration. -/
def colors : Parameter where
  name := "colors"
  variableName := "COLORS"
  kind := .list .path
  description := some "red, \"green\" or blue"

/-- Its members in disorder, the name of the kind last and another one among them. -/
def colorsMembers : List (String × Json) := [
  ("separator", .string "path"), ("note", .array [.array [.null]]),
  ("description", .string "red, \"green\" or blue"), ("env_var", .string "COLORS"),
  ("name", .string "colors"), ("type", .string "list")]

/-- A manifest with the declaration. -/
def painting : Manifest where
  kernelName := "paint"
  parameters := [colors]

/-- Its members in disorder, others among them. -/
def paintingMembers : List (String × Json) := [
  ("parameters", .array [.object colorsMembers]), ("note", .object [("", .bool true)]),
  ("kernel_name", .string "paint")]

theorem note_fits {P : Number → Prop} {depth : Nat} :
    Fits P (depth + 3) (.array [.array [.null]]) :=
  .array (List.forall_mem_singleton.2 (.array (List.forall_mem_singleton.2 .null)))

theorem colors_shown : colors.Shown (depthLimit - 3) colorsMembers where
  once := by decide
  name := rfl
  variableName := rfl
  kind := ⟨rfl, rfl⟩
  description := rfl
  aliases := rfl
  default := rfl
  others := by
    have hnote : Fits (fun _ => True) (depthLimit - 3) (.array [.array [.null]]) := note_fits
    simp [colorsMembers, colors, Parameter.memberNames, Kind.memberNames, hnote]

theorem painting_shown : painting.Shown (depthLimit - 3) paintingMembers where
  once := by decide
  kernelName := rfl
  kernelDirectory := rfl
  displayName := rfl
  parameters := ⟨_, rfl, .cons colors_shown .nil⟩

theorem colors_fits {P : Number → Prop} : Fits P 4 (.object colorsMembers) := by
  refine .object ?_
  simp only [colorsMembers, List.forall_mem_cons]
  exact ⟨.string, note_fits, .string, .string, .string, .string, fun m hm => by cases hm⟩

theorem painting_fits {P : Number → Prop} : Fits P 6 (.object paintingMembers) := by
  refine .object ?_
  simp only [paintingMembers, List.forall_mem_cons]
  exact ⟨.array (List.forall_mem_singleton.2 colors_fits),
    .object (List.forall_mem_singleton.2 .bool), .string, fun m hm => by cases hm⟩

theorem parse_undoes_document_painting :
    Manifest.parse (pretty (.object paintingMembers)) = .ok painting :=
  parse_undoes_document.1.parse_of_shown painting _ _ ⟨_, rfl, painting_shown⟩
    (hasText_pretty painting_fits)

/-! ## How deep other members may be -/

/-- Lists, one in the other. -/
def nested : Nat → Json
  | 0 => .array []
  | n + 1 => .array [nested n]

theorem nested_fits {P : Number → Prop} (k n : Nat) : Fits P (k + n + 2) (nested n) := by
  induction n with
  | zero => exact .array fun v hv => by cases hv
  | succ n ih => exact .array (List.forall_mem_singleton.2 ih)

/-- A manifest with a declaration. -/
def plain : Manifest where
  kernelName := "k"
  parameters := [{ name := "p", variableName := "P", kind := .string }]

/-- The members of its declaration and another one. -/
def declaredWith (extra : Json) : List (String × Json) := [
  ("name", .string "p"), ("env_var", .string "P"), ("type", .string "string"), ("extra", extra)]

/-- A document that shows it, with another member in its declaration. -/
def plainWith (extra : Json) : Json := .object [
  ("kernel_name", .string "k"), ("parameters", .array [.object (declaredWith extra)])]

theorem declaredWith_shown {depth : Nat} {extra : Json} (h : Fits (fun _ => True) depth extra) :
    Parameter.Shown depth { name := "p", variableName := "P", kind := .string }
      (declaredWith extra) where
  once := by
    have hkeys : (declaredWith extra).map Prod.fst = ["name", "env_var", "type", "extra"] := rfl
    intro name _
    rw [AtMostOnce, hkeys]
    exact List.nodup_iff_count_le_one.1 (by decide) name
  name := rfl
  variableName := rfl
  kind := rfl
  description := rfl
  aliases := rfl
  default := rfl
  others := by simp [declaredWith, Parameter.memberNames, Kind.memberNames, h]

theorem plainWith_shown {depth : Nat} {extra : Json} (h : Fits (fun _ => True) depth extra) :
    plain.ShownBy depth (plainWith extra) := by
  refine ⟨_, rfl, ?_⟩
  constructor
  case once =>
    intro name _
    exact List.nodup_iff_count_le_one.1 (show ["kernel_name", "parameters"].Nodup by decide) name
  case kernelName => rfl
  case kernelDirectory => rfl
  case displayName => rfl
  case parameters => exact ⟨_, rfl, .cons (declaredWith_shown h) .nil⟩

theorem plainWith_fits {P : Number → Prop} {depth : Nat} {extra : Json}
    (h : Fits P (depth + 1) extra) : Fits P (depth + 4) (plainWith extra) := by
  have hdeclared : Fits P (depth + 2) (.object (declaredWith extra)) := by
    refine .object ?_
    simp only [declaredWith, List.forall_mem_cons]
    exact ⟨.string, .string, .string, h, fun m hm => by cases hm⟩
  exact .object (List.forall_mem_cons.2
    ⟨.string, List.forall_mem_singleton.2 (.array (List.forall_mem_singleton.2 hdeclared))⟩)

theorem parse_ne_of_reader {v : Json} (h : (Manifest.reader (writeCompact v)).toBool = false)
    (m : Manifest) : Manifest.parse (compact v) ≠ .ok m := by
  intro hparse
  rw [Manifest.parse, readWhole?, compact, String.toList_ofList] at hparse
  obtain ⟨step, hstep, -⟩ := of_bind_eq_ok hparse
  rw [hstep] at h
  cases h

/-- **What nobody asked for may be too deep in a declaration** though it is read on its own:
brackets are counted from the start of the manifest. -/
theorem parse_refuses_nested :
    Json.parse (compact (nested 124)) = .ok (nested 124) ∧
      plain.ShownBy depthLimit (plainWith (nested 124)) ∧
      (plainWith (nested 124)).HasText (compact (plainWith (nested 124))) ∧
      Manifest.parse (compact (plainWith (nested 124))) ≠ .ok plain := by
  have hdeep : ∀ P : Number → Prop, Fits P depthLimit (nested 124) := fun P => nested_fits 2 124
  refine ⟨?_, plainWith_shown (hdeep _), hasText_compact (plainWith_fits (hdeep _)),
    parse_ne_of_reader ?_ plain⟩
  · exact readWhole?_of_takes (takes_value (hdeep fun _ => True)) (hasText_compact (hdeep _))
  · decide +kernel

end KernelRegistry
