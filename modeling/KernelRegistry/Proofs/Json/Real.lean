import KernelRegistry.Proofs.Decimal.Shortest
import KernelRegistry.Proofs.Json.Printer

/-!
# Printed floating-point numbers

A floating-point number is printed as the shortest decimal for it.  What that is read as need not be
the same number, because reading rounds more than once.  But it is read as some number: the decimal
is hardly larger than the number, and so reading it does not run past the largest one.

* `gathered` — the number with given digits; `Numeral.magnitude` — the number that was written.
* `Numeral.value_real` — a numeral that is clearly below the largest number has a value.
* `Numeral.StandsFor` — a numeral for a decimal; `formatDecimal_numeral` — what is printed is one.
* `exists_reread` — **a floating-point number is read again** when it is printed.
* `Json.reread`, `parse_pretty_reread` — **what was read and is printed is read again**.
-/

set_option autoImplicit false
namespace KernelRegistry
namespace Json

open Binary64 (limit slack)

/-! ## Digits -/

section Digits

variable {bound n : Nat} {ds : List Char}

/-- A number with further digits. -/
def gathered (n : Nat) (ds : List Char) : Nat := ds.foldl (fun n c => n * 10 + digitValue c) n

theorem gathered_append (n : Nat) (ds more : List Char) :
    gathered n (ds ++ more) = gathered (gathered n ds) more := by
  simp only [gathered, List.foldl_append]

theorem gathered_cons (n : Nat) (c : Char) (ds : List Char) :
    gathered n (c :: ds) = gathered (n * 10 + digitValue c) ds := by
  simp only [gathered, List.foldl_cons]

/-- Every further digit makes the number at least ten times as large. -/
theorem le_gathered (n : Nat) (ds : List Char) : n * 10 ^ ds.length ≤ gathered n ds := by
  induction ds generalizing n with
  | nil => exact (Nat.mul_one n).le
  | cons c ds ih =>
    rw [gathered_cons, List.length_cons, Nat.pow_succ', ← Nat.mul_assoc]
    exact (Nat.mul_le_mul_right _ (Nat.le_add_right _ _)).trans (ih _)

theorem gathered_replicate (n k : Nat) : gathered n (List.replicate k '0') = n * 10 ^ k := by
  induction k generalizing n with
  | zero => exact (Nat.mul_one n).symm
  | succ k ih =>
    rw [List.replicate_succ, gathered_cons, ih, Nat.pow_succ', ← Nat.mul_assoc]
    rfl

/-- The digits that fit below the bound are gathered into their number. -/
theorem absorb_gathered (bound n : Nat) (ds : List Char) :
    ∃ kept, ds = kept ++ (absorb bound n ds).2 ∧ (absorb bound n ds).1 = gathered n kept := by
  fun_induction absorb bound n ds with
  | case1 n => exact ⟨[], rfl, rfl⟩
  | case2 n c cs hle ih =>
    obtain ⟨kept, hsplit, hvalue⟩ := ih
    exact ⟨c :: kept, congrArg _ hsplit, hvalue⟩
  | case3 n c cs => exact ⟨[], rfl, rfl⟩

theorem gathered_toDigits (n : Nat) : gathered 0 (Nat.toDigits 10 n) = n := by
  obtain ⟨kept, hsplit, hvalue⟩ := absorb_gathered n 0 (Nat.toDigits 10 n)
  rw [absorb_toDigits (le_refl n)] at hsplit hvalue
  rw [hsplit, List.append_nil, ← hvalue]

theorem digitValue_le {c : Char} (h : c.isDigit = true) : digitValue c ≤ 9 := by
  have hnine : c.toNat ≤ '9'.toNat := (Char.isDigit_iff_toNat.1 h).2
  exact Nat.sub_le_sub_right hnine _

/-- So many digits are gathered into the bound. -/
theorem absorb_of_le (hdigits : ∀ c ∈ ds, c.isDigit = true)
    (h : (n + 1) * 10 ^ ds.length ≤ bound + 1) : absorb bound n ds = (gathered n ds, []) := by
  induction ds generalizing n with
  | nil => rfl
  | cons c ds ih =>
    have hdigit := digitValue_le (hdigits c List.mem_cons_self)
    have hmul : (n * 10 + digitValue c + 1) * 10 ^ ds.length ≤ (n + 1) * 10 ^ (ds.length + 1) := by
      rw [Nat.pow_succ', ← Nat.mul_assoc]
      exact Nat.mul_le_mul_right _ (by omega)
    have hbound := hmul.trans h
    have hone : 1 ≤ 10 ^ ds.length := Nat.pow_pos (by decide)
    have hle : n * 10 + digitValue c ≤ bound := by nlinarith
    rw [absorb, if_pos hle, ih (fun d hd => hdigits d (List.mem_cons_of_mem _ hd)) hbound,
      gathered_cons]

end Digits

/-! ## Values -/

namespace Numeral

variable {n : Numeral} {x : Binary64}

/-- The exponent that was written. -/
def writtenExponent (n : Numeral) : Int :=
  match n.exponent with
  | none => 0
  | some (true, ds) => -(gathered 0 ds : Int)
  | some (false, ds) => gathered 0 ds

/-- The magnitude that was written. -/
def magnitude (n : Numeral) : ℚ :=
  gathered 0 (n.whole ++ n.fraction) * 10 ^ (n.writtenExponent - n.fraction.length)

/-- If the digits of the whole part are gathered, the significand is that of a number that is not
larger: digits that are left only make a number larger. -/
theorem exists_significand (hwhole : (absorb maxSignificand 0 n.whole).2 = []) :
    ∃ whole significand left, absorb maxSignificand 0 n.whole = (whole, []) ∧
      absorb maxSignificand whole n.fraction = (significand, left) ∧
      significand ≤ maxSignificand ∧
      (significand : ℚ) * 10 ^ (n.writtenExponent - (n.fraction.length - left.length : Nat)) ≤
        n.magnitude := by
  obtain ⟨kept, hkept, hgathered⟩ := absorb_gathered maxSignificand 0 n.whole
  have hbelow := absorb_le (Nat.zero_le maxSignificand) n.whole
  generalize absorb maxSignificand 0 n.whole = w at hwhole hkept hgathered hbelow ⊢
  obtain ⟨whole, wholeLeft⟩ := w
  cases hwhole
  rw [List.append_nil] at hkept
  subst hkept
  obtain ⟨kept, hkept, hgathered'⟩ := absorb_gathered maxSignificand whole n.fraction
  have hbelow' := absorb_le hbelow n.fraction
  generalize hf : absorb maxSignificand whole n.fraction = f at hkept hgathered' hbelow'
  obtain ⟨significand, left⟩ := f
  refine ⟨whole, significand, left, rfl, hf, hbelow', ?_⟩
  have hdigits : significand * 10 ^ left.length ≤ gathered 0 (n.whole ++ n.fraction) := by
    rw [hkept, gathered_append, gathered_append, ← hgathered, ← hgathered']
    exact le_gathered _ _
  have hdigits' : (significand : ℚ) * 10 ^ left.length ≤
      gathered 0 (n.whole ++ n.fraction) := by exact_mod_cast hdigits
  have hscale : (10 : ℚ) ^ (n.writtenExponent - (n.fraction.length - left.length : Nat)) =
      10 ^ left.length * 10 ^ (n.writtenExponent - n.fraction.length) := by
    rw [← zpow_natCast, ← zpow_add₀ (by norm_num)]
    congr 1
    have hlength : n.fraction.length = kept.length + left.length := by
      rw [hkept, List.length_append]
    omega
  rw [hscale, ← mul_assoc, magnitude]
  exact mul_le_mul_of_nonneg_right hdigits' (by positivity)

/-- **A numeral that is clearly below the largest number has a value**, if it is no integer and the
digits of its whole part and of a positive exponent are not too many. -/
theorem value_real (hform : n.fraction ≠ [] ∨ n.exponent ≠ none)
    (hwhole : (absorb maxSignificand 0 n.whole).2 = [])
    (hexponent : ∀ ds, n.exponent = some (false, ds) → (absorb maxWrittenExponent 0 ds).2 = [])
    (hsize : n.magnitude * slack ^ 2 < limit) : ∃ x, n.value = .ok (.real x) := by
  obtain ⟨whole, significand, left, hw, hf, hbelow, hle⟩ := exists_significand hwhole
  have hread : ∀ exponent,
      exponent = n.writtenExponent - (n.fraction.length - left.length : Nat) →
      ∃ x, Binary64.ofDecimal n.negative significand exponent = some x := by
    rintro exponent rfl
    refine Binary64.ofDecimal_some n.negative (Nat.lt_succ_of_le hbelow) fun _ => ?_
    exact (mul_le_mul_of_nonneg_right hle (sq_nonneg slack)).trans_lt hsize
  rw [value]
  simp only [hw, hf, List.length_nil, Nat.cast_zero]
  cases hn : n.exponent with
  | none =>
    have hfraction : n.fraction ≠ [] := hform.resolve_right fun h => h hn
    have hzero : n.writtenExponent = 0 := by rw [writtenExponent, hn]
    obtain ⟨x, hx⟩ := hread (0 - (n.fraction.length - left.length : Nat)) (by rw [hzero])
    refine ⟨x, ?_⟩
    simp only [if_neg fun h : n.fraction = [] ∧ True => hfraction h.1, hx]
  | some exponent =>
    obtain ⟨negative, digits⟩ := exponent
    obtain ⟨kept, hkept, hgathered⟩ := absorb_gathered maxWrittenExponent 0 digits
    have hpositive : negative = false → (absorb maxWrittenExponent 0 digits).2 = [] := fun h =>
      hexponent digits (h ▸ hn)
    generalize ha : absorb maxWrittenExponent 0 digits = a at hkept hgathered hpositive
    obtain ⟨e, exponentLeft⟩ := a
    cases exponentLeft with
    | nil =>
      rw [List.append_nil] at hkept
      subst hkept
      have hexponent' : (if negative = true then
          (0 : Int) - (n.fraction.length - left.length : Nat) - e
          else 0 - (n.fraction.length - left.length : Nat) + e) =
          n.writtenExponent - (n.fraction.length - left.length : Nat) := by
        rw [writtenExponent, hn, show e = gathered 0 digits from hgathered]
        cases negative with
        | true => simp only [if_true]; omega
        | false => simp only [Bool.false_eq_true, if_false]; omega
      obtain ⟨x, hx⟩ := hread _ hexponent'
      exact ⟨x, by simp only [ha, hx]⟩
    | cons c cs =>
      cases negative with
      | true => exact ⟨Binary64.zero n.negative, by simp [ha]⟩
      | false => cases hpositive rfl

/-- The value of a numeral is a finite number. -/
theorem value_finite (h : n.value = .ok (.real x)) : x.Finite := by
  have hreal : ∀ {significand : Nat} {exponent : Int},
      (∃ y, Binary64.ofDecimal n.negative significand exponent = some y ∧
        Number.real x = .real y) → x.Finite := by
    rintro significand exponent ⟨y, hy, hxy⟩
    cases hxy
    exact Binary64.ofDecimal_finite hy
  simp only [value] at h
  split at h
  · split at h
    · exact hreal (value_rounded h)
    · split at h
      · cases h
      · cases h
        exact Binary64.zero_finite n.negative
  · split at h
    · split at h
      · cases h
      · split at h
        · cases h
        · exact hreal (value_rounded h)
    · exact hreal (value_rounded h)

end Numeral

/-! ## Decimals -/

section Decimals

variable {digits : Nat} {ds : List Char} {p first : Int}

/-- A sign, digits and a fraction. -/
theorem Numeral.written_fraction (negative : Bool) {whole fraction : List Char}
    (hwhole : IsDigits whole) (hlead : ∀ d more, whole ≠ '0' :: d :: more)
    (hfraction : IsDigits fraction) : Numeral.Written ⟨negative, whole, fraction, none⟩
      ((if negative then ['-'] else []) ++ (whole ++ '.' :: fraction)) := by
  have h : Numeral.Written ⟨negative, whole, fraction, none⟩ _ :=
    .mk hwhole hlead (.some hfraction) .none
  simpa only [List.append_nil, List.append_assoc] using h

/-- A sign, a digit, a fraction if there are more digits, and an exponent. -/
theorem Numeral.written_scientific (negative : Bool) (hds : IsDigits ds) (first : Int) :
    Numeral.Written
      ⟨negative, ds.take 1, ds.drop 1, some (decide (first < 0), Nat.toDigits 10 first.natAbs)⟩
      ((if negative then ['-'] else []) ++ (ds.take 1 ++
        (if ds.length ≤ 1 then [] else '.' :: ds.drop 1) ++
          ['e', if first < 0 then '-' else '+'] ++ Nat.toDigits 10 first.natAbs)) := by
  obtain ⟨c, cs, rfl⟩ := List.exists_cons_of_ne_nil hds.1
  have hwhole : IsDigits [c] :=
    ⟨by simp, fun d hd => hds.2 d (List.mem_cons.2 (.inl (List.mem_singleton.1 hd)))⟩
  have hfraction : FractionText cs (if (c :: cs).length ≤ 1 then [] else '.' :: cs) := by
    split
    · next hle =>
      obtain rfl : cs = [] := List.length_eq_zero_iff.1 (by simpa using hle)
      exact .none
    · next hlong =>
      refine .some ⟨fun h => hlong (by simp [h]), fun d hd => hds.2 d (List.mem_cons_of_mem _ hd)⟩
  have hsign : SignText (decide (first < 0)) [if first < 0 then '-' else '+'] := by
    by_cases h : first < 0
    · rw [decide_eq_true h, if_pos h]
      exact .minus
    · rw [decide_eq_false h, if_neg h]
      exact .plus
  have h : Numeral.Written
      ⟨negative, [c], cs, some (decide (first < 0), Nat.toDigits 10 first.natAbs)⟩ _ :=
    .mk hwhole (by simp) hfraction (.some (.inl rfl) hsign (isDigits_toDigits _))
  simpa only [List.append_assoc, List.cons_append, List.nil_append, List.take_succ_cons,
    List.take_zero, List.drop_succ_cons, List.drop_zero] using h

theorem isDigits_zero : IsDigits ['0'] :=
  ⟨by simp, fun _ hc => List.mem_singleton.1 hc ▸ rfl⟩

theorem IsDigits.append_zeros (h : IsDigits ds) (k : Nat) :
    IsDigits (ds ++ List.replicate k '0') := by
  refine ⟨by simp [h.1], fun c hc => ?_⟩
  rcases List.mem_append.1 hc with hc | hc
  · exact h.2 c hc
  · exact List.eq_of_mem_replicate hc ▸ rfl

theorem IsDigits.zeros_append (h : IsDigits ds) (k : Nat) :
    IsDigits (List.replicate k '0' ++ ds) := by
  refine ⟨by simp [h.1], fun c hc => ?_⟩
  rcases List.mem_append.1 hc with hc | hc
  · exact List.eq_of_mem_replicate hc ▸ rfl
  · exact h.2 c hc

/-- Zeros in front do not count. -/
theorem gathered_zeros (k : Nat) (ds : List Char) :
    gathered 0 (List.replicate k '0' ++ ds) = gathered 0 ds := by
  rw [gathered_append, gathered_replicate, Nat.zero_mul]

theorem Numeral.writtenExponent_eq (negative : Bool) (whole fraction : List Char) (first : Int) :
    Numeral.writtenExponent
      ⟨negative, whole, fraction, some (decide (first < 0), Nat.toDigits 10 first.natAbs)⟩ =
      first := by
  by_cases h : first < 0
  · rw [decide_eq_true h]
    show -(gathered 0 (Nat.toDigits 10 first.natAbs) : Int) = first
    rw [gathered_toDigits]
    omega
  · rw [decide_eq_false h]
    show (gathered 0 (Nat.toDigits 10 first.natAbs) : Int) = first
    rw [gathered_toDigits]
    omega

theorem toDigits_length_pos (n : Nat) : 1 ≤ (Nat.toDigits 10 n).length :=
  List.length_pos_iff.2 (isDigits_toDigits n).1

/-- The numeral has the magnitude of a decimal and is no integer.  If its exponent is not negative,
it is the place of the first digit. -/
structure Numeral.StandsFor (n : Numeral) (digits : Nat) (p : Int) : Prop where
  magnitude_eq : n.magnitude = digits * 10 ^ p
  length_le : n.whole.length ≤ 16
  no_integer : n.fraction ≠ [] ∨ n.exponent ≠ none
  exponent_eq : ∀ ds, n.exponent = some (false, ds) → ∃ first : Nat,
    ds = Nat.toDigits 10 first ∧ p + (Nat.toDigits 10 digits).length - 1 = first

theorem Numeral.magnitude_fraction (negative : Bool) (whole fraction : List Char) :
    Numeral.magnitude ⟨negative, whole, fraction, none⟩ =
      gathered 0 (whole ++ fraction) * 10 ^ (-(fraction.length : Int)) := by
  simp only [magnitude, writtenExponent, zero_sub]

theorem standsFor_scientific (negative : Bool)
    (hfirst : p + ((Nat.toDigits 10 digits).length : Int) - 1 = first) :
    Numeral.StandsFor ⟨negative, (Nat.toDigits 10 digits).take 1, (Nat.toDigits 10 digits).drop 1,
      some (decide (first < 0), Nat.toDigits 10 first.natAbs)⟩ digits p where
  magnitude_eq := by
    have hlength := toDigits_length_pos digits
    have hexponent : first - ((Nat.toDigits 10 digits).drop 1).length = p := by
      rw [List.length_drop]
      omega
    rw [Numeral.magnitude, Numeral.writtenExponent_eq]
    simp only [List.take_append_drop, gathered_toDigits, hexponent]
  length_le := by simp
  no_integer := .inr (by simp)
  exponent_eq := by
    intro ds h
    obtain ⟨hsign, hds⟩ := Prod.mk.inj (Option.some.inj h)
    have hpositive := of_decide_eq_false hsign
    exact ⟨first.natAbs, hds.symm, by omega⟩

theorem standsFor_small (negative : Bool)
    (hfirst : p + ((Nat.toDigits 10 digits).length : Int) - 1 = first) (hsmall : first < 0) :
    Numeral.StandsFor
      ⟨negative, ['0'], List.replicate (-first - 1).toNat '0' ++ Nat.toDigits 10 digits, none⟩
      digits p where
  magnitude_eq := by
    have hexponent : -((List.replicate (-first - 1).toNat '0' ++
        Nat.toDigits 10 digits).length : Int) = p := by
      rw [List.length_append, List.length_replicate]
      omega
    rw [Numeral.magnitude_fraction, hexponent, gathered_append, show gathered 0 ['0'] = 0 from rfl,
      gathered_zeros, gathered_toDigits]
  length_le := by simp
  no_integer := .inl (by simp)
  exponent_eq := by simp

theorem standsFor_whole (negative : Bool)
    (hfirst : p + ((Nat.toDigits 10 digits).length : Int) - 1 = first) (hp : 0 ≤ p)
    (hlow : first < 16) :
    Numeral.StandsFor ⟨negative, Nat.toDigits 10 digits ++ List.replicate p.toNat '0', ['0'], none⟩
      digits p where
  magnitude_eq := by
    have hpower : (10 : ℚ) ^ p = 10 ^ p.toNat := by
      rw [← zpow_natCast, Int.toNat_of_nonneg hp]
    rw [Numeral.magnitude_fraction, gathered_append, gathered_append, gathered_replicate,
      gathered_toDigits]
    show ((digits * 10 ^ p.toNat * 10 ^ 1 : Nat) : ℚ) * 10 ^ (-1 : Int) = digits * 10 ^ p
    rw [hpower, zpow_neg_one]
    push_cast
    ring
  length_le := by
    rw [List.length_append, List.length_replicate]
    omega
  no_integer := .inl (by simp)
  exponent_eq := by simp

theorem standsFor_split (negative : Bool)
    (hfirst : p + ((Nat.toDigits 10 digits).length : Int) - 1 = first) (hp : p < 0)
    (hhigh : 0 ≤ first) (hlow : first < 16) :
    Numeral.StandsFor ⟨negative, (Nat.toDigits 10 digits).take (first.toNat + 1),
      (Nat.toDigits 10 digits).drop (first.toNat + 1), none⟩ digits p where
  magnitude_eq := by
    have hexponent : -(((Nat.toDigits 10 digits).drop (first.toNat + 1)).length : Int) = p := by
      rw [List.length_drop]
      omega
    rw [Numeral.magnitude_fraction, hexponent, List.take_append_drop, gathered_toDigits]
  length_le := by
    rw [List.length_take]
    omega
  no_integer := .inl (by
    have hlong : first.toNat + 1 < (Nat.toDigits 10 digits).length := by omega
    simpa using hlong)
  exponent_eq := by simp

/-- Zeros after the digits of a number do not follow a zero. -/
theorem toDigits_zeros_ne (hzero : digits = 0 → p = 0) (d : Char) (more : List Char) :
    Nat.toDigits 10 digits ++ List.replicate p.toNat '0' ≠ '0' :: d :: more := by
  rcases Nat.eq_zero_or_pos digits with hdigits | hdigits
  · rw [hzero hdigits, Int.toNat_zero, List.replicate_zero, List.append_nil]
    exact toDigits_ne_zero_digit digits d more
  · intro h
    obtain ⟨c, cs, hcs⟩ := List.exists_cons_of_ne_nil (Nat.toDigits_ne_nil (n := digits) (b := 10))
    rw [hcs, List.cons_append] at h
    exact toDigits_ne_zero_cons hdigits cs ((List.cons.inj h).1 ▸ hcs)

/-- **A decimal is printed as a numeral of its magnitude** that is no integer. -/
theorem formatDecimal_numeral (negative : Bool) (hzero : digits = 0 → p = 0) :
    ∃ n : Numeral, n.Written
      ((if negative then ['-'] else []) ++ Binary64.formatDecimal digits p) ∧
      n.StandsFor digits p := by
  have hdigits := isDigits_toDigits digits
  have hlead := toDigits_ne_zero_digit digits
  rw [Binary64.formatDecimal, Binary64.digitChars]
  simp only [Binary64.digitChars]
  generalize hfirst : p + ((Nat.toDigits 10 digits).length : Int) - 1 = first
  by_cases hscientific : first < -5 ∨ 16 ≤ first
  · rw [if_pos hscientific]
    exact ⟨_, Numeral.written_scientific negative hdigits first,
      standsFor_scientific negative hfirst⟩
  rw [if_neg hscientific]
  by_cases hsmall : first < 0
  · rw [if_pos hsmall]
    have hwritten := Numeral.written_fraction negative isDigits_zero (by simp)
      (hdigits.zeros_append (-first - 1).toNat)
    refine ⟨_, ?_, standsFor_small negative hfirst hsmall⟩
    simpa only [List.cons_append, List.nil_append, List.append_assoc] using hwritten
  rw [if_neg hsmall]
  by_cases hp : 0 ≤ p
  · rw [if_pos hp]
    have hwritten := Numeral.written_fraction negative (hdigits.append_zeros p.toNat)
      (toDigits_zeros_ne hzero) isDigits_zero
    refine ⟨_, ?_, standsFor_whole negative hfirst hp (by omega)⟩
    simpa only [List.cons_append, List.nil_append, List.append_assoc] using hwritten
  · rw [if_neg hp]
    have hstands := standsFor_split negative hfirst (by omega) (by omega) (by omega)
    have hfraction : IsDigits ((Nat.toDigits 10 digits).drop (first.toNat + 1)) :=
      ⟨hstands.no_integer.resolve_right (by simp),
        fun c hc => hdigits.2 c (List.mem_of_mem_drop hc)⟩
    have hwhole : IsDigits ((Nat.toDigits 10 digits).take (first.toNat + 1)) :=
      ⟨by simp [hdigits.1], fun c hc => hdigits.2 c (List.mem_of_mem_take hc)⟩
    have hwritten := Numeral.written_fraction negative hwhole (fun d more h => hlead d
      (more ++ (Nat.toDigits 10 digits).drop (first.toNat + 1))
      ((List.take_append_drop _ _).symm.trans (by rw [h]; rfl))) hfraction
    refine ⟨_, ?_, hstands⟩
    simpa only [List.cons_append, List.nil_append, List.append_assoc] using hwritten

/-- The digits of a number tell its size. -/
theorem pow_length_le {n : Nat} (hn : 0 < n) : 10 ^ ((Nat.toDigits 10 n).length - 1) ≤ n := by
  induction n using Nat.strongRecOn with
  | ind n ih =>
    by_cases hlt : n < 10
    · rw [Nat.toDigits_of_lt_base hlt]
      exact hn
    · have hshorter := ih (n / 10) (by omega) (by omega)
      rw [Nat.toDigits_of_base_le (by decide) (by omega), List.length_append, List.length_singleton,
        Nat.add_sub_cancel]
      obtain ⟨k, hk⟩ : ∃ k, (Nat.toDigits 10 (n / 10)).length = k + 1 :=
        Nat.exists_eq_add_one.2 (List.length_pos_iff.2 Nat.toDigits_ne_nil)
      rw [hk, Nat.add_sub_cancel] at hshorter
      rw [hk, Nat.pow_succ]
      omega

theorem Numeral.Written.isDigits_whole {n : Numeral} {text : List Char} (h : n.Written text) :
    IsDigits n.whole := by
  obtain @⟨_, _, _, _, _, _, hwhole, -, -, -⟩ := h
  exact hwhole

/-- The first digit of a decimal that is below the bound is not far in front of the point. -/
theorem first_lt (hsize : (digits : ℚ) * 10 ^ p < limit) (hzero : digits = 0 → p = 0) {first : Nat}
    (hfirst : p + (Nat.toDigits 10 digits).length - 1 = first) : first < 309 := by
  rcases Nat.eq_zero_or_pos digits with rfl | hdigits
  · have hlength : (Nat.toDigits 10 0).length = 1 := rfl
    rw [hzero rfl, hlength] at hfirst
    omega
  · have hlength : 1 ≤ (Nat.toDigits 10 digits).length :=
      List.length_pos_iff.2 Nat.toDigits_ne_nil
    have hpower : (10 : ℚ) ^ ((Nat.toDigits 10 digits).length - 1) ≤ digits := by
      exact_mod_cast pow_length_le hdigits
    have hsplit : (10 : ℚ) ^ first = 10 ^ ((Nat.toDigits 10 digits).length - 1) * 10 ^ p := by
      rw [← zpow_natCast, ← zpow_natCast, ← zpow_add₀ (by norm_num)]
      congr 1
      omega
    have hlimit : (10 : ℚ) ^ first < 10 ^ 309 :=
      calc (10 : ℚ) ^ first ≤ digits * 10 ^ p := by
            rw [hsplit]
            exact mul_le_mul_of_nonneg_right hpower (by positivity)
        _ < limit := hsize
        _ < 10 ^ 309 := Binary64.limit_bounds.2
    exact (pow_lt_pow_iff_right₀ (by norm_num)).1 hlimit

/-- **A decimal that is clearly below the largest number is read** as it is printed. -/
theorem formatDecimal_written (negative : Bool) (hzero : digits = 0 → p = 0)
    (hsize : (digits : ℚ) * 10 ^ p * slack ^ 2 < limit) :
    ∃ y, WrittenNumber (.real y)
      ((if negative then ['-'] else []) ++ Binary64.formatDecimal digits p) := by
  obtain ⟨n, hwritten, hstands⟩ := formatDecimal_numeral negative hzero
  have hwhole := hwritten.isDigits_whole
  have hsixteen : (0 + 1) * 10 ^ n.whole.length ≤ maxSignificand + 1 :=
    calc (0 + 1) * 10 ^ n.whole.length ≤ (0 + 1) * 10 ^ 16 :=
          Nat.mul_le_mul_left _ (Nat.pow_le_pow_right (by decide) hstands.length_le)
      _ ≤ maxSignificand + 1 := by decide
  have hfew : ∀ ds, n.exponent = some (false, ds) → (absorb maxWrittenExponent 0 ds).2 = [] := by
    intro ds hds
    obtain ⟨first, rfl, hfirst⟩ := hstands.exponent_eq ds hds
    have hslack : (1 : ℚ) ≤ slack ^ 2 := one_le_pow₀ (by norm_num [slack])
    have hbelow : (digits : ℚ) * 10 ^ p < limit :=
      (le_mul_of_one_le_right (by positivity) hslack).trans_lt hsize
    have hsmall : first ≤ maxWrittenExponent :=
      (first_lt hbelow hzero hfirst).le.trans (by decide)
    rw [absorb_toDigits hsmall]
  obtain ⟨y, hy⟩ := n.value_real hstands.no_integer (by rw [absorb_of_le hwhole.2 hsixteen]) hfew
    (hstands.magnitude_eq ▸ hsize)
  exact ⟨y, n, hwritten, hy⟩

end Decimals

/-! ## Numbers -/

/-- A number that is not one of the three largest is clearly below the bound, and so is its
decimal. -/
theorem size_of_finite {x : Binary64} (hx : x.Finite)
    (h : ¬ (x.exponent = Binary64.maxExponent ∧ 2 ^ 53 - 3 ≤ x.mantissa)) :
    (x.mantissa + 1 / 2) * 2 ^ x.exponent * slack ^ 2 < limit := by
  have hscale : (0 : ℚ) < 2 ^ 970 := by positivity
  have hlimit : limit = (2 ^ 53 - 1) * 2 * 2 ^ 970 := by
    have hpower : (2 : ℚ) ^ 971 = 2 ^ 970 * 2 := pow_succ 2 970
    rw [limit, hpower, mul_comm ((2 : ℚ) ^ 970), mul_assoc]
  rw [hlimit]
  generalize hs : (2 : ℚ) ^ 970 = scale at hscale
  by_cases hexponent : x.exponent = Binary64.maxExponent
  · have hmantissa : (x.mantissa : ℚ) + 4 ≤ 2 ^ 53 := by
      have : x.mantissa + 4 ≤ 2 ^ 53 := by
        have := not_and.1 h hexponent
        omega
      exact_mod_cast this
    have hpower : (2 : ℚ) ^ x.exponent = 2 * scale := by
      rw [hexponent, ← hs, ← pow_succ', ← zpow_natCast]
      rfl
    calc (x.mantissa + 1 / 2) * 2 ^ x.exponent * slack ^ 2
        ≤ (2 ^ 53 - 4 + 1 / 2) * (2 * scale) * slack ^ 2 := by
          rw [hpower]
          gcongr
          linarith
      _ = (2 ^ 53 - 4 + 1 / 2) * slack ^ 2 * 2 * scale := by ring
      _ < (2 ^ 53 - 1) * 2 * scale := by
          refine mul_lt_mul_of_pos_right ?_ hscale
          norm_num [slack]
  · have hmantissa : (x.mantissa : ℚ) + 1 ≤ 2 ^ 53 := by exact_mod_cast hx.bits
    have hpower : (2 : ℚ) ^ x.exponent ≤ scale := by
      rw [← hs, ← zpow_natCast]
      have hhigh := hx.high
      rw [Binary64.maxExponent] at hhigh hexponent
      exact zpow_le_zpow_right₀ one_le_two (by omega)
    calc (x.mantissa + 1 / 2) * 2 ^ x.exponent * slack ^ 2
        ≤ (2 ^ 53 - 1 + 1 / 2) * scale * slack ^ 2 := by
          gcongr
          linarith
      _ = (2 ^ 53 - 1 + 1 / 2) * slack ^ 2 * scale := by ring
      _ < (2 ^ 53 - 1) * 2 * scale := by
          refine mul_lt_mul_of_pos_right ?_ hscale
          norm_num [slack]

/-- A check that a text is read as a floating-point number, to its end. -/
def readsReal (text : List Char) : Bool :=
  match readNumber text with
  | .ok ⟨.real _, [], _⟩ => true
  | _ => false

theorem written_of_readsReal {text : List Char} (h : readsReal text = true) :
    ∃ y, WrittenNumber (.real y) text := by
  rw [readsReal] at h
  split at h
  · next y _ hread =>
    obtain ⟨text', hwritten, htext⟩ := readNumber_sound hread
    rw [htext, List.append_nil]
    exact ⟨y, hwritten⟩
  · cases h

/-- The three largest numbers are read, with either sign. -/
theorem readsReal_largest : ∀ (negative : Bool) (k : Fin 3), readsReal (writeNumber
    (.real ⟨negative, 2 ^ 53 - 3 + k, Binary64.maxExponent⟩)) = true := by
  decide +kernel

/-- **A floating-point number is read again** when it is printed. -/
theorem exists_reread {x : Binary64} (hx : x.Finite) :
    ∃ y, WrittenNumber (.real y) (writeNumber (.real x)) := by
  by_cases hlargest : x.exponent = Binary64.maxExponent ∧ 2 ^ 53 - 3 ≤ x.mantissa
  · obtain ⟨negative, mantissa, exponent⟩ := x
    obtain ⟨rfl, hmantissa⟩ := hlargest
    have hbits : mantissa < 2 ^ 53 := hx.bits
    have hk : mantissa - (2 ^ 53 - 3) < 3 := by omega
    have hreads := readsReal_largest negative ⟨_, hk⟩
    rw [Nat.add_sub_cancel' hmantissa] at hreads
    exact written_of_readsReal hreads
  · have hsize := size_of_finite hx hlargest
    have hslack : (0 : ℚ) < slack ^ 2 := pow_pos (by norm_num [slack]) 2
    have hdecimal : ∀ (digits : Nat) (p : Int), (digits = 0 → p = 0) →
        (digits : ℚ) * 10 ^ p ≤ (x.mantissa + 1 / 2) * 2 ^ x.exponent →
        ∃ y, WrittenNumber (.real y)
          ((if x.negative then ['-'] else []) ++ Binary64.formatDecimal digits p) :=
      fun digits p hzero hle => formatDecimal_written x.negative hzero
        ((mul_le_mul_of_nonneg_right hle hslack.le).trans_lt hsize)
    have hnothing : ((0 : Nat) : ℚ) * 10 ^ (0 : Int) ≤
        (x.mantissa + 1 / 2) * 2 ^ x.exponent := by
      rw [Nat.cast_zero, zero_mul]
      positivity
    have htext : writeNumber (.real x) = (if x.negative then ['-'] else []) ++
        if x.mantissa = 0 then Binary64.formatDecimal 0 0
        else Binary64.formatDecimal x.shortest.1 x.shortest.2 := by
      rw [writeNumber, Binary64.format, String.toList_ofList]
      split <;> rfl
    rw [htext]
    by_cases hmantissa : x.mantissa = 0
    · rw [if_pos hmantissa]
      exact hdecimal 0 0 (fun _ => rfl) hnothing
    · rw [if_neg hmantissa]
      rcases Binary64.shortest_size hmantissa with hzero | ⟨hpos, hle⟩
      · rw [hzero]
        exact hdecimal 0 0 (fun _ => rfl) hnothing
      · exact hdecimal _ _ (fun h => absurd h hpos.ne') hle

/-! ## Documents -/

/-- The number that is read where another one was printed.  Reading is not the inverse of printing:
some floating-point numbers come back as their neighbours. -/
def Number.reread (n : Number) : Number :=
  match readNumber (writeNumber n) with
  | .ok step => step.value
  | .error _ => n

theorem Number.reread_eq {n n' : Number} (h : WrittenNumber n' (writeNumber n)) :
    n.reread = n' := by
  have hend : AtEnd [] := fun c more hcons => by cases hcons
  have hreads := readNumber_complete h hend
  rw [List.append_nil] at hreads
  obtain ⟨hshorter, hread⟩ := hreads
  rw [reread, hread]

/-- **A number that was read is read again** when it is printed. -/
theorem Number.Readable.reread {n : Number} (h : n.Readable) :
    WrittenNumber n.reread (writeNumber n) := by
  suffices hn' : ∃ n', WrittenNumber n' (writeNumber n) by
    obtain ⟨n', hn'⟩ := hn'
    rw [Number.reread_eq hn']
    exact hn'
  cases n with
  | int i => exact ⟨_, printed_of_readable h ⟨i, rfl⟩⟩
  | real x =>
    obtain ⟨text, numeral, -, hvalue⟩ := h
    obtain ⟨y, hy⟩ := exists_reread (Numeral.value_finite hvalue)
    exact ⟨_, hy⟩

/-- Integers are read as what they are. -/
theorem Number.Readable.reread_of_isInteger {n : Number} (h : n.Readable) (hint : n.IsInteger) :
    n.reread = n :=
  Number.reread_eq (printed_of_readable h hint)

/-- The document that the printed one is read as. -/
def reread (v : Json) : Json := v.mapNumbers Number.reread

/-- **What was read and is printed is read again**, with integers as they were. -/
theorem parse_pretty_reread {v : Json} (h : Fits Number.Readable depthLimit v) :
    parse (pretty v) = .ok v.reread :=
  parse_pretty_mapNumbers (h.imp fun _ hn => hn.reread)

theorem reread_of_integers {v : Json} {depth : Nat} (h : Fits Number.Readable depth v)
    (hint : EveryNumber Number.IsInteger v) : v.reread = v := by
  obtain ⟨_, hint⟩ := hint
  exact ((h.and hint).imp fun _ hn => hn.1.reread_of_isInteger hn.2).mapNumbers_eq

end Json
end KernelRegistry
