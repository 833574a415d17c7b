import Mathlib.Tactic.Ring
import KernelRegistry.Proofs.Json.Printer
import KernelRegistry.Proofs.Path
import KernelRegistry.Proofs.Template.Substitution

/-!
# Paths in a document

A path is a string of bytes, and a string of a document is a text.  What is put in place of the
token is the inside of a string, whatever the path is; but it has the bytes of the path only if
these are those of a text.

* `Denotes` — the inside of a string that has given bytes.
* `escaped_injective` — different texts have different spellings.
* `intercalate_injective`, `fill_injective` — different texts put in place of the token make
  different texts.
* `pathFragment_denotes` — **which bytes the inside of the string has, and when two paths have the
  same one**.
* `pathFragment_loses` — two directories that become one.
-/

set_option autoImplicit false
namespace KernelRegistry
namespace Template

open Json
open Text (Bytes encode)

/-- The text between two quotes is a string with the given bytes. -/
def Denotes (raw : List Char) (bytes : Bytes) : Prop :=
  ∃ s : String, Spells raw s.toList ∧ encode s = bytes

section Fragment

variable {p q : Path} {s t : String} {f g : List Char} {rs : List (List Char)} {template : String}

theorem spells_pathFragment (p : Path) : Spells (pathFragment p).toList p.display.toList := by
  rw [pathFragment, escaped, String.toList_ofList]
  exact .escaped p.display.toList

/-- A spelling is that of one text only. -/
theorem escaped_injective (h : escaped s = escaped t) : s = t := by
  have hchars : escapedChars s.toList = escapedChars t.toList := by
    have := congrArg String.toList h
    rwa [escaped, escaped, String.toList_ofList, String.toList_ofList] at this
  have hs := (Spells.escaped s.toList).decode_eq
  rw [hchars, (Spells.escaped t.toList).decode_eq] at hs
  exact String.toList_inj.1 hs.symm

theorem pathFragment_eq_iff : pathFragment p = pathFragment q ↔ p.display = q.display :=
  ⟨escaped_injective, congrArg escaped⟩

/-- **The string has the bytes of the path** exactly if the path is that of a text. -/
theorem denotes_pathFragment_iff :
    Denotes (pathFragment p).toList p.bytes ↔ ∃ s, p = .ofString s := by
  constructor
  · rintro ⟨s, -, hbytes⟩
    exact ⟨s, Path.mk.injEq .. ▸ hbytes.symm⟩
  · rintro ⟨s, rfl⟩
    have hspells := spells_pathFragment (.ofString s)
    rw [Path.display_ofString] at hspells
    exact ⟨s, hspells, rfl⟩

/-- Paths of texts have different spellings. -/
theorem eq_of_pathFragment_eq (hp : ∃ s, p = .ofString s) (hq : ∃ s, q = .ofString s)
    (h : pathFragment p = pathFragment q) : p = q := by
  obtain ⟨s, rfl⟩ := hp
  obtain ⟨t, rfl⟩ := hq
  have hdisplay := pathFragment_eq_iff.1 h
  rw [Path.display_ofString, Path.display_ofString] at hdisplay
  rw [hdisplay]

/-- The string is read as the text that the path is shown as. -/
theorem parse_pathFragment (p : Path) :
    parse ("\"" ++ pathFragment p ++ "\"") = .ok (.string p.display) := by
  have htext : "\"" ++ pathFragment p ++ "\"" = pretty (.string p.display) := by
    rw [← String.toList_inj, pretty, String.toList_ofList, writePretty]
    · simp [writeScalar, writeString, pathFragment, escaped]
    all_goals simp
  rw [htext]
  exact parse_pretty .string

/-! ## What is filled in -/

theorem length_intercalate (f : List Char) (rs : List (List Char)) :
    (f.intercalate rs).length = (rs.map List.length).sum + (rs.length - 1) * f.length := by
  induction rs with
  | nil => simp
  | cons r rs ih =>
    cases rs with
    | nil => simp
    | cons r' rs =>
      rw [List.intercalate_cons_cons, List.length_append, List.length_append, ih]
      simp only [List.map_cons, List.sum_cons, List.length_cons, Nat.add_sub_cancel]
      ring

/-- Two separators that give the same whole are the same, since the parts around them are known. -/
theorem intercalate_injective (hrs : 1 < rs.length) (h : f.intercalate rs = g.intercalate rs) :
    f = g := by
  have hlength : f.length = g.length := by
    have hwhole := congrArg List.length h
    rw [length_intercalate, length_intercalate] at hwhole
    exact Nat.eq_of_mul_eq_mul_left (Nat.sub_pos_of_lt hrs) (Nat.add_left_cancel hwhole)
  obtain ⟨r, r', rs, rfl⟩ : ∃ r r' rest, rs = r :: r' :: rest := by
    match rs, hrs with
    | r :: r' :: rest, _ => exact ⟨r, r', rest, rfl⟩
  rw [List.intercalate_cons_cons, List.intercalate_cons_cons, List.append_assoc,
    List.append_assoc] at h
  exact (List.append_inj (List.append_cancel_left h) hlength).1

/-- A text with the token in it has several parts. -/
theorem one_lt_length_pieces {token text : List Char} (hne : token ≠ []) (h : token <:+: text) :
    1 < (pieces token text).length := by
  obtain ⟨r, rs, hpieces⟩ := exists_pieces token text
  cases rs with
  | nil =>
    have htext := intercalate_pieces hne text
    rw [hpieces, List.intercalate_singleton] at htext
    exact absurd (htext ▸ h) (not_infix_of_mem_pieces hne (hpieces ▸ List.mem_singleton_self r))
  | cons r' rs =>
    rw [hpieces]
    simp

/-- **Different spellings make different texts** of a template with the token in it. -/
theorem fill_injective (htoken : token <:+: template.toList)
    (h : fill template p = fill template q) : pathFragment p = pathFragment q := by
  have hne : token ≠ [] := by decide
  rw [fill, fill, ← String.toList_inj, String.toList_ofList, String.toList_ofList, replaceToken_eq,
    replaceToken_eq] at h
  exact String.toList_inj.1 (intercalate_injective (one_lt_length_pieces hne htoken) h)

/-- **Paths in a document.**  What is put in place of the token is the inside of a string: that of
the path as it is shown.  It has the bytes of the path if and only if the path is that of a text.
Two paths have the same one exactly if they are shown in the same way, and then only if they are
equal or one of them is not that of a text; different ones make different texts of every template
with the token in it. -/
theorem pathFragment_denotes (p : Path) :
    Spells (pathFragment p).toList p.display.toList ∧
      parse ("\"" ++ pathFragment p ++ "\"") = .ok (.string p.display) ∧
      (Denotes (pathFragment p).toList p.bytes ↔ ∃ s, p = .ofString s) ∧
      ∀ q : Path, (pathFragment p = pathFragment q ↔ p.display = q.display) ∧
        ((∃ s, p = .ofString s) → (∃ s, q = .ofString s) →
          pathFragment p = pathFragment q → p = q) ∧
        ∀ template : String, token <:+: template.toList → fill template p = fill template q →
          pathFragment p = pathFragment q :=
  ⟨spells_pathFragment p, parse_pathFragment p, denotes_pathFragment_iff, fun _ =>
    ⟨pathFragment_eq_iff, eq_of_pathFragment_eq, fun _ => fill_injective⟩⟩

end Fragment

/-- The string of a directory with a quote has its bytes, and that of a directory with a backslash
in the same place is another one. -/
theorem pathFragment_denotes_quote :
    Denotes (pathFragment (.ofString "/a\"b")).toList (encode "/a\"b") ∧
      pathFragment (.ofString "/a\"b") ≠ pathFragment (.ofString "/a\\b") := by
  obtain ⟨-, -, hdenotes, hother⟩ := pathFragment_denotes (.ofString "/a\"b")
  obtain ⟨-, hequal, -⟩ := hother (.ofString "/a\\b")
  have hdifferent : Path.ofString "/a\"b" ≠ .ofString "/a\\b" := by decide
  exact ⟨hdenotes.2 ⟨_, rfl⟩, fun h => hdifferent (hequal ⟨_, rfl⟩ ⟨_, rfl⟩ h)⟩

/-- A directory whose name is no text, and another one whose name is: the same is put in place of
the token, and it does not have the bytes of the first one. -/
theorem pathFragment_loses :
    pathFragment ⟨[0x2F, 0xFF]⟩ = pathFragment (.ofString "/\uFFFD") ∧
      (⟨[0x2F, 0xFF]⟩ : Path) ≠ .ofString "/\uFFFD" ∧
      ¬ Denotes (pathFragment ⟨[0x2F, 0xFF]⟩).toList [0x2F, 0xFF] := by
  have hdisplay : (⟨[0x2F, 0xFF]⟩ : Path).display = (Path.ofString "/\uFFFD").display := by
    decide +kernel
  have hnone : Text.decode? [0x2F, 0xFF] = none := by decide +kernel
  have hbytes : ∀ s : String, encode s ≠ [0x2F, 0xFF] := by
    intro s hs
    rw [← hs, Text.decode?_encode] at hnone
    cases hnone
  refine ⟨pathFragment_eq_iff.2 hdisplay, by decide, ?_⟩
  rintro ⟨s, -, hs⟩
  exact hbytes s hs

end Template
end KernelRegistry
