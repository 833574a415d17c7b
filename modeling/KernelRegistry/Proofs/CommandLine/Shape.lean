import KernelRegistry.CommandLine.Arguments
import KernelRegistry.Proofs.Text.Utf8
import Mathlib.Data.List.TakeDrop
import Mathlib.Data.List.TakeWhile

/-!
# What arguments look like

How an argument is understood is decided by the dashes at its start and by its first equals sign.
It is said here in both directions, so that what follows need not open the test.

* `IsText` — the bytes of some text.
* `Shape.of_eq_long_iff` — an argument that gives an option by its name, and the parts of it.
* `Shape.of_eq_plain_iff` — an argument that is no option.
* `IsText.long` — the parts of a text are texts.
-/

set_option autoImplicit false
namespace KernelRegistry
namespace CommandLine

open Text (Bytes encodeChars encode)

/-! ## Texts -/

/-- The bytes of some text. -/
def IsText (bytes : Bytes) : Prop := ∃ s : String, bytes = encode s

section IsText

variable {bytes rest : Bytes} {a : Char}

theorem isText_iff : IsText bytes ↔ ∃ cs, bytes = encodeChars cs :=
  ⟨fun ⟨s, h⟩ => ⟨s.toList, h⟩, fun ⟨cs, h⟩ =>
    ⟨String.ofList cs, by rw [encode, String.toList_ofList, h]⟩⟩

theorem IsText.encode_decodeLossy (h : IsText bytes) : encode (Text.decodeLossy bytes) = bytes := by
  obtain ⟨s, rfl⟩ := h
  rw [Text.decodeLossy_encode]

/-- Both sides of a character of one byte are texts. -/
theorem IsText.of_append_cons {front : Bytes} (ha : a.toNat < 0x80)
    (h : IsText (front ++ UInt8.ofNat a.toNat :: rest)) : IsText front ∧ IsText rest := by
  obtain ⟨cs, hcs⟩ := isText_iff.1 h
  obtain ⟨us, vs, -, hus, hvs⟩ := Text.encodeChars_eq_append_cons ha hcs.symm
  exact ⟨isText_iff.2 ⟨us, hus⟩, isText_iff.2 ⟨vs, hvs⟩⟩

theorem IsText.of_cons (ha : a.toNat < 0x80) (h : IsText (UInt8.ofNat a.toNat :: rest)) :
    IsText rest := by
  have hfront : IsText ([] ++ UInt8.ofNat a.toNat :: rest) := h
  exact (hfront.of_append_cons ha).2

end IsText

/-! ## Shapes -/

section Shape

variable {argument name rest : Bytes} {value : Option Bytes}

/-- A name with the value behind it, as they stand in an argument. -/
def assigned (name : Bytes) : Option Bytes → Bytes
  | none => name
  | some value => name ++ equals :: value

theorem splitEquals_assigned (hname : equals ∉ name) (value : Option Bytes) :
    splitEquals (assigned name value) = (name, value) := by
  have hall : ∀ b ∈ name, decide (b ≠ equals) = true := fun b hb =>
    decide_eq_true fun heq => hname (heq ▸ hb)
  cases value with
  | none =>
    rw [splitEquals, assigned, List.span_eq_takeWhile_dropWhile,
      List.takeWhile_eq_self_iff.2 hall, List.dropWhile_eq_nil_iff.2 hall]
  | some value =>
    rw [splitEquals, assigned, List.span_eq_takeWhile_dropWhile, List.takeWhile_append_of_pos hall,
      List.dropWhile_append_of_pos hall]
    simp

/-- A name and a value can be told apart. -/
theorem assigned_inj {name' : Bytes} {value' : Option Bytes} (hname : equals ∉ name)
    (hname' : equals ∉ name') :
    assigned name value = assigned name' value' ↔ name = name' ∧ value = value' := by
  constructor
  · intro h
    have hparts := congrArg splitEquals h
    rw [splitEquals_assigned hname, splitEquals_assigned hname'] at hparts
    exact Prod.mk.inj hparts
  · rintro ⟨rfl, rfl⟩
    rfl

theorem assigned_splitEquals (bytes : Bytes) : equals ∉ (splitEquals bytes).1 ∧
    bytes = assigned (splitEquals bytes).1 (splitEquals bytes).2 := by
  have hwhole := List.takeWhile_append_dropWhile (p := fun b => decide (b ≠ equals)) (l := bytes)
  have hfront : equals ∉ bytes.takeWhile (fun b => decide (b ≠ equals)) := fun hmem => by
    simpa using List.all_eq_true.1 List.all_takeWhile _ hmem
  rw [splitEquals, List.span_eq_takeWhile_dropWhile]
  cases hrest : bytes.dropWhile (fun b => decide (b ≠ equals)) with
  | nil =>
    rw [hrest, List.append_nil] at hwhole
    exact ⟨hfront, hwhole.symm⟩
  | cons b rest =>
    have hb : b = equals := by
      have hhead := List.head?_dropWhile_not (fun b => decide (b ≠ equals)) bytes
      rw [hrest] at hhead
      simpa using hhead
    rw [hrest, hb] at hwhole
    exact ⟨hfront, hwhole.symm⟩

/-- **An argument gives an option by its name** if it is two dashes and a name, perhaps with a value
behind an equals sign. -/
theorem Shape.of_eq_long_iff : Shape.of argument = .long name value ↔
    equals ∉ name ∧ assigned name value ≠ [] ∧
      argument = dash :: dash :: assigned name value := by
  constructor
  · intro h
    rw [Shape.of.eq_def] at h
    split at h
    · next a b rest =>
      split at h
      · cases h
      split at h
      · cases h
      split at h
      · cases h
      · next ha hb hrest =>
        obtain ⟨hname, hassigned⟩ := assigned_splitEquals rest
        cases h
        rw [← hassigned, not_not.1 ha, not_not.1 hb]
        exact ⟨hname, fun hnil => hrest (by rw [hnil]; rfl), rfl⟩
    · cases h
  · rintro ⟨hname, hne, rfl⟩
    have hnot : (assigned name value).isEmpty = false := by simpa using hne
    rw [Shape.of, splitEquals_assigned hname, hnot]
    rfl

theorem Shape.of_eq_escape_iff : Shape.of argument = .escape ↔ argument = [dash, dash] := by
  constructor
  · intro h
    rw [Shape.of.eq_def] at h
    split at h
    · next a b rest =>
      split at h
      · cases h
      split at h
      · cases h
      split at h
      · next ha hb hrest =>
        rw [not_not.1 ha, not_not.1 hb, List.isEmpty_iff.1 hrest]
      · cases h
    · cases h
  · rintro rfl
    rfl

/-- **An argument is no option** if it is at most one dash or does not start with one. -/
theorem Shape.of_eq_plain_iff :
    Shape.of argument = .plain ↔ argument.length ≤ 1 ∨ argument.head? ≠ some dash := by
  rw [Shape.of.eq_def]
  split
  · next a b rest =>
    split
    · next ha => simpa using ha
    · next ha =>
      have hlength : ¬ (a :: b :: rest).length ≤ 1 := by simp
      have hshape : ∀ s : Shape, s ≠ .plain → (s = .plain ↔
          (a :: b :: rest).length ≤ 1 ∨ (a :: b :: rest).head? ≠ some dash) := fun s hs =>
        ⟨fun h => absurd h hs, fun h => absurd (not_not.1 ha) (by simpa [hlength] using h)⟩
      split
      · exact hshape _ (by simp)
      split
      · exact hshape _ (by simp)
      · exact hshape _ (by simp)
  · next hshort =>
    refine iff_of_true rfl ?_
    rcases argument with - | ⟨a, - | ⟨b, rest⟩⟩
    · exact .inl (Nat.zero_le 1)
    · exact .inl (Nat.le_refl 1)
    · exact absurd rfl (hshort a b rest)

/-- The name and the value in a text are texts. -/
theorem IsText.long (h : IsText (dash :: dash :: assigned name value)) :
    IsText name ∧ ∀ v, value = some v → IsText v := by
  have hassigned : IsText (assigned name value) :=
    IsText.of_cons (a := '-') (by decide) (IsText.of_cons (a := '-') (by decide) h)
  cases value with
  | none => exact ⟨hassigned, fun v hv => by cases hv⟩
  | some value =>
    obtain ⟨hname, hvalue⟩ := IsText.of_append_cons (a := '=') (by decide) hassigned
    exact ⟨hname, fun v hv => Option.some.inj hv ▸ hvalue⟩

end Shape

end CommandLine
end KernelRegistry
