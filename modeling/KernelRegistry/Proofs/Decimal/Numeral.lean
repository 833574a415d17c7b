import Mathlib.Logic.Basic
import KernelRegistry.Decimal.Numeral

/-!
# The grammar of numerals

`Decimal.isNumeral` cuts a text at its first characters that are no digits.  Here is what it
accepts, as a grammar.

* `Exponent`, `DigitsForm`, `Unsigned`, `Numeral` — the grammar.
* `isExponent_iff`, `isDigitsForm_iff` — the parts of the test.
* `isNumeral_iff` — **the test accepts the texts of the grammar**.
-/

set_option autoImplicit false
namespace KernelRegistry
namespace Decimal

/-! ## The grammar -/

/-- A sign, or nothing. -/
def Sign (cs : List Char) : Prop := cs = [] ∨ cs = ['+'] ∨ cs = ['-']

/-- Digits, or nothing. -/
def Digits (cs : List Char) : Prop := ∀ c ∈ cs, '0' ≤ c ∧ c ≤ '9'

/-- An exponent, or nothing. -/
inductive Exponent : List Char → Prop
  | absent : Exponent []
  | present {mark : Char} {sign digits : List Char} (hmark : mark = 'e' ∨ mark = 'E')
      (hsign : Sign sign) (hdigits : Digits digits) (hnonempty : digits ≠ []) :
      Exponent (mark :: (sign ++ digits))

/-- Digits with at most one point and at most one exponent, and at least one digit before it. -/
inductive DigitsForm : List Char → Prop
  | whole {digits exponent : List Char} (hdigits : Digits digits) (hnonempty : digits ≠ [])
      (hexponent : Exponent exponent) : DigitsForm (digits ++ exponent)
  | pointed {whole fraction exponent : List Char} (hwhole : Digits whole)
      (hfraction : Digits fraction) (hnonempty : whole ≠ [] ∨ fraction ≠ [])
      (hexponent : Exponent exponent) : DigitsForm (whole ++ '.' :: (fraction ++ exponent))

/-- The names of infinity and of the undefined number, in lower case. -/
def names : List (List Char) := ["inf".toList, "infinity".toList, "nan".toList]

/-- A numeral without a sign. -/
def Unsigned (cs : List Char) : Prop := cs.map Char.toLower ∈ names ∨ DigitsForm cs

/-- The text of a floating-point number. -/
def Numeral (cs : List Char) : Prop :=
  ∃ sign body, Sign sign ∧ Unsigned body ∧ cs = sign ++ body

section Test

variable {c : Char} {cs sign body digits rest : List Char}

/-! ## Digits -/

theorem isDigit_iff : c.isDigit = true ↔ '0' ≤ c ∧ c ≤ '9' := by
  rw [Char.isDigit, Bool.and_eq_true, decide_eq_true_eq, decide_eq_true_eq]
  exact Iff.rfl

theorem all_isDigit_iff : cs.all Char.isDigit = true ↔ Digits cs := by
  rw [List.all_eq_true]
  exact forall₂_congr fun _ _ => isDigit_iff

theorem Digits.isDigit (h : Digits cs) : ∀ c ∈ cs, c.isDigit = true :=
  List.all_eq_true.1 (all_isDigit_iff.2 h)

theorem digits_takeWhile (cs : List Char) : Digits (cs.takeWhile Char.isDigit) :=
  all_isDigit_iff.1 List.all_takeWhile

/-- Digits are cut off where no digit follows. -/
theorem Digits.cut (h : Digits digits) (hrest : ∀ c, rest.head? = some c → c.isDigit = false) :
    (digits ++ rest).takeWhile Char.isDigit = digits ∧
      (digits ++ rest).dropWhile Char.isDigit = rest := by
  have hnone : rest.takeWhile Char.isDigit = [] ∧ rest.dropWhile Char.isDigit = rest := by
    cases rest with
    | nil => exact ⟨rfl, rfl⟩
    | cons c cs => simp [hrest c rfl]
  rw [List.takeWhile_append_of_pos h.isDigit, List.dropWhile_append_of_pos h.isDigit, hnone.1,
    hnone.2, List.append_nil]
  exact ⟨rfl, rfl⟩

/-- An exponent starts neither with a digit nor with a point, so it ends the digits before it. -/
theorem Exponent.head_ne (h : Exponent cs) (hhead : cs.head? = some c) :
    c.isDigit = false ∧ c ≠ '.' := by
  cases h with
  | absent => cases hhead
  | present hmark =>
    obtain rfl := Option.some.inj hhead
    rcases hmark with rfl | rfl <;> decide

/-! ## Signs -/

theorem exists_sign (cs : List Char) : ∃ sign, Sign sign ∧ cs = sign ++ dropSign cs := by
  rw [dropSign.eq_def]
  split
  · exact ⟨['+'], .inr (.inl rfl), rfl⟩
  · exact ⟨['-'], .inr (.inr rfl), rfl⟩
  · exact ⟨[], .inl rfl, rfl⟩

/-- Dropping a sign leaves the text after it, if this does not start with a sign again. -/
theorem dropSign_append (hsign : Sign sign)
    (hbody : ∀ c, body.head? = some c → c ≠ '+' ∧ c ≠ '-') : dropSign (sign ++ body) = body := by
  rcases hsign with rfl | rfl | rfl
  · rw [List.nil_append, dropSign.eq_def]
    split
    · exact absurd rfl (hbody '+' rfl).1
    · exact absurd rfl (hbody '-' rfl).2
    · rfl
  · rfl
  · rfl

theorem Digits.head_ne (h : Digits cs) (hhead : cs.head? = some c) : c ≠ '+' ∧ c ≠ '-' := by
  have hmem := h c (List.mem_of_head? hhead)
  constructor <;> rintro rfl <;> exact absurd hmem (by decide)

theorem DigitsForm.head_ne (h : DigitsForm cs) (hhead : cs.head? = some c) :
    c ≠ '+' ∧ c ≠ '-' := by
  cases h with
  | @whole digits exponent hdigits hnonempty =>
    cases digits with
    | nil => exact absurd rfl hnonempty
    | cons d ds => exact hdigits.head_ne hhead
  | @pointed whole fraction exponent hwhole =>
    cases whole with
    | nil =>
      obtain rfl := Option.some.inj hhead
      decide
    | cons d ds => exact hwhole.head_ne hhead

/-- No numeral has a second sign. -/
theorem Unsigned.head_ne (h : Unsigned cs) (hhead : cs.head? = some c) : c ≠ '+' ∧ c ≠ '-' := by
  rcases h with hnamed | hdigits
  · have hlower : (cs.map Char.toLower).head? = some c.toLower := by
      rw [List.head?_map, hhead]
      rfl
    have hnames : ∀ name ∈ names, name.head? ≠ some '+' ∧ name.head? ≠ some '-' := by decide
    obtain ⟨hplus, hminus⟩ := hnames _ hnamed
    rw [hlower] at hplus hminus
    constructor <;> rintro rfl
    · exact hplus rfl
    · exact hminus rfl
  · exact hdigits.head_ne hhead

/-! ## The test -/

theorem isExponent_cons (c : Char) (cs : List Char) : isExponent (c :: cs) =
    ((c = 'e' || c = 'E') && !(dropSign cs).isEmpty && (dropSign cs).all Char.isDigit) := by
  rw [isExponent.eq_def, dropSign.eq_def]
  dsimp only
  split <;> rfl

theorem isExponent_iff : isExponent cs = true ↔ Exponent cs := by
  cases cs with
  | nil => exact iff_of_true rfl .absent
  | cons c cs =>
    simp only [isExponent_cons, Bool.and_eq_true, Bool.or_eq_true, decide_eq_true_eq,
      Bool.not_eq_true', List.isEmpty_eq_false_iff, all_isDigit_iff]
    constructor
    · rintro ⟨⟨hmark, hnonempty⟩, hdigits⟩
      obtain ⟨sign, hsign, heq⟩ := exists_sign cs
      rw [heq]
      exact .present hmark hsign hdigits hnonempty
    · rintro (_ | ⟨hmark, hsign, hdigits, hnonempty⟩)
      rw [dropSign_append hsign fun _ => hdigits.head_ne]
      exact ⟨⟨hmark, hnonempty⟩, hdigits⟩

theorem isDigitsForm_iff : isDigitsForm cs = true ↔ DigitsForm cs := by
  have hparts := List.takeWhile_append_dropWhile (p := Char.isDigit) (l := cs)
  constructor
  · intro h
    rw [isDigitsForm] at h
    split at h
    · next rest hrest =>
      have hrest' := List.takeWhile_append_dropWhile (p := Char.isDigit) (l := rest)
      rw [Bool.and_eq_true, isExponent_iff] at h
      rw [← hparts, hrest, ← hrest']
      refine .pointed (digits_takeWhile cs) (digits_takeWhile rest) ?_ h.2
      rw [← not_and_or]
      rintro ⟨hwhole, hfraction⟩
      simp [hwhole, hfraction] at h
    · rw [Bool.and_eq_true, isExponent_iff, Bool.not_eq_true', List.isEmpty_eq_false_iff] at h
      rw [← hparts]
      exact .whole (digits_takeWhile cs) h.1 h.2
  · rintro (⟨hdigits, hnonempty, hexponent⟩ | ⟨hwhole, hfraction, hnonempty, hexponent⟩)
    · obtain ⟨htake, hdrop⟩ := hdigits.cut fun c hc => (hexponent.head_ne hc).1
      rw [isDigitsForm, htake, hdrop]
      split
      · next rest => exact absurd rfl (hexponent.head_ne (c := '.') rfl).2
      · rw [isExponent_iff.2 hexponent]
        simpa using hnonempty
    · obtain ⟨htake, hdrop⟩ := @Digits.cut _ ('.' :: _) hwhole fun c hc => by
        obtain rfl := Option.some.inj hc
        rfl
      obtain ⟨htake', hdrop'⟩ := hfraction.cut fun c hc => (hexponent.head_ne hc).1
      rw [isDigitsForm, htake, hdrop]
      simp only [htake', hdrop', isExponent_iff.2 hexponent]
      simpa [← not_and_or] using hnonempty

/-- **The test accepts the texts of the grammar.** -/
theorem isNumeral_iff {s : String} : isNumeral s = true ↔ Numeral s.toList := by
  have hbody : isNumeral s = true ↔ Unsigned (dropSign s.toList) := by
    simp only [isNumeral, Unsigned, names, Bool.or_eq_true, decide_eq_true_eq, isDigitsForm_iff,
      List.mem_cons, List.not_mem_nil, or_false, or_assoc, ← String.toList_inj,
      String.toList_ofList]
  rw [hbody]
  constructor
  · intro h
    obtain ⟨sign, hsign, heq⟩ := exists_sign s.toList
    exact ⟨sign, _, hsign, h, heq⟩
  · rintro ⟨sign, body, hsign, hunsigned, heq⟩
    rwa [heq, dropSign_append hsign fun _ => hunsigned.head_ne]

end Test

end Decimal
end KernelRegistry
