import KernelRegistry.Decimal.Shortest
import KernelRegistry.Proofs.Decimal.Binary64

/-!
# The size of the shortest decimal

The decimal that a number is written with is hardly larger than the number: it is in the interval of
those that round to it.

* `Binary64.roundsTo` — a multiple of a power of ten that rounds to a number; `roundsTo_size` bounds
  it.
* `Binary64.shortest_size` — **the shortest decimal is at most half a unit above the number**.
-/

set_option autoImplicit false
namespace KernelRegistry
namespace Binary64

section Shortest

variable {x : Binary64} {p : Int} {c num den digits : Nat}

theorem decimalScaled_pos (hden : 0 < den) : 0 < (decimalScaled num den p).2 :=
  Nat.mul_pos hden (Nat.pow_pos (by decide))

theorem decimalScaled_eq (num : Nat) (hden : 0 < den) (p : Int) :
    ((decimalScaled num den p).1 : ℚ) / (decimalScaled num den p).2 = num / den / 10 ^ p := by
  have hden' : (0 : ℚ) < den := Nat.cast_pos.2 hden
  have hten : (10 : ℚ) ≠ 0 := by norm_num
  simp only [decimalScaled, Nat.pow_eq, Nat.cast_mul, Nat.cast_pow, Nat.cast_ofNat]
  rw [pow_toNat hten p]
  field_simp

/-- One quarter of a unit in the last place, as a quotient. -/
def quarter (e : Int) : Nat × Nat :=
  if 2 ≤ e then (1 <<< (e - 2).toNat, 1) else (1, 1 <<< (2 - e).toNat)

theorem quarter_spec (e : Int) : 0 < (quarter e).1 ∧ 0 < (quarter e).2 ∧
    ((quarter e).1 : ℚ) = 2 ^ e / 4 * (quarter e).2 := by
  have hpower : (2 : ℚ) ^ e / 4 = 2 ^ (e - 2) := by
    rw [zpow_sub₀ two_ne_zero]
    norm_num
  rw [quarter, hpower]
  split
  · next h =>
    refine ⟨by simp [Nat.shiftLeft_eq], Nat.one_pos, ?_⟩
    rw [Nat.shiftLeft_eq, one_mul, Nat.cast_one, mul_one, Nat.cast_pow, Nat.cast_ofNat,
      ← zpow_natCast, Int.toNat_of_nonneg (by omega)]
  · next h =>
    refine ⟨Nat.one_pos, by simp [Nat.shiftLeft_eq], ?_⟩
    rw [Nat.shiftLeft_eq, one_mul, Nat.cast_one, Nat.cast_pow, Nat.cast_ofNat, ← zpow_natCast,
      Int.toNat_of_nonneg (by omega), ← zpow_add₀ two_ne_zero]
    norm_num

/-- A multiple of `10 ^ p` is a spelling of the number with this many digits if it rounds to the
number. -/
def roundsTo (x : Binary64) (p : Int) (candidate : Nat) : Bool :=
  let unit := quarter x.exponent
  let narrow := x.mantissa = 1 <<< 52 ∧ minExponent < x.exponent
  let lower := (4 * x.mantissa - if narrow then 1 else 2) * unit.1
  let upper := (4 * x.mantissa + 2) * unit.1
  let (at', one) := decimalScaled (candidate * unit.2) 1 (-p)
  if x.mantissa % 2 = 0 then lower * one ≤ at' && at' ≤ upper * one
  else lower * one < at' && at' < upper * one

/-- Of two neighbours, one is chosen that rounds to the number. -/
theorem gridPoint?_eq (x : Binary64) (p : Int) :
    ∃ (low : Nat) (nearer : Prop) (_ : Decidable nearer),
    x.gridPoint? p =
      match x.roundsTo p low, x.roundsTo p (low + 1) with
      | true, true => some (if nearer then low else low + 1)
      | true, false => some low
      | false, true => some (low + 1)
      | false, false => none :=
  ⟨_, _, _, rfl⟩

theorem roundsTo_of_gridPoint? (h : x.gridPoint? p = some c) : x.roundsTo p c = true := by
  obtain ⟨low, nearer, _, heq⟩ := gridPoint?_eq x p
  rw [heq] at h
  split at h
  · next hlow hhigh =>
    cases h
    split
    · exact hlow
    · exact hhigh
  · next hlow _ => exact Option.some.inj h ▸ hlow
  · next _ hhigh => exact Option.some.inj h ▸ hhigh
  · cases h

/-- **A multiple that rounds to a number** is positive and at most half a unit above it. -/
theorem roundsTo_size (hm : x.mantissa ≠ 0) (h : x.roundsTo p c = true) :
    0 < c ∧ (c : ℚ) * 10 ^ p ≤ (x.mantissa + 1 / 2) * 2 ^ x.exponent := by
  obtain ⟨hunit, hunit', hquarter⟩ := quarter_spec x.exponent
  rw [roundsTo] at h
  simp only at h
  generalize quarter x.exponent = unit at h hunit hunit' hquarter
  have hscaled := decimalScaled_eq (c * unit.2) Nat.one_pos (-p)
  have hpos : 0 < (decimalScaled (c * unit.2) 1 (-p)).2 := decimalScaled_pos Nat.one_pos
  generalize decimalScaled (c * unit.2) 1 (-p) = scaled at h hscaled hpos
  have hbounds : 0 < scaled.1 ∧ scaled.1 ≤ (4 * x.mantissa + 2) * unit.1 * scaled.2 := by
    -- the lower end is positive, so it cannot be reached by zero
    have hlower : 0 < (4 * x.mantissa -
        if x.mantissa = 1 <<< 52 ∧ minExponent < x.exponent then 1 else 2) * unit.1 * scaled.2 := by
      refine Nat.mul_pos (Nat.mul_pos ?_ hunit) hpos
      split <;> omega
    split at h
    · simp only [Bool.and_eq_true, decide_eq_true_eq] at h
      exact ⟨hlower.trans_le h.1, h.2⟩
    · simp only [Bool.and_eq_true, decide_eq_true_eq] at h
      exact ⟨hlower.trans h.1, h.2.le⟩
  have hpos' : (0 : ℚ) < scaled.2 := Nat.cast_pos.2 hpos
  have hunit'' : (0 : ℚ) < unit.2 := Nat.cast_pos.2 hunit'
  rw [Nat.cast_one, div_one, zpow_neg, div_inv_eq_mul, div_eq_iff hpos'.ne'] at hscaled
  constructor
  · refine Nat.pos_of_ne_zero fun hzero => ?_
    rw [hzero, Nat.zero_mul, Nat.cast_zero, zero_mul, zero_mul, Nat.cast_eq_zero] at hscaled
    omega
  · have hle : (scaled.1 : ℚ) ≤ (4 * x.mantissa + 2) * unit.1 * scaled.2 := by
      exact_mod_cast hbounds.2
    rw [hscaled] at hle
    have hle' := le_of_mul_le_mul_right hle hpos'
    rw [hquarter] at hle'
    refine le_of_mul_le_mul_right ?_ hunit''
    push_cast at hle'
    linarith

/-- Leaving out zeros at the end does not change the decimal. -/
theorem dropZeros_eq (digits : Nat) (p : Int) :
    ((dropZeros digits p).1 : ℚ) * 10 ^ (dropZeros digits p).2 = digits * 10 ^ p ∧
      (0 < digits → 0 < (dropZeros digits p).1) := by
  fun_induction dropZeros digits p with
  | case1 p => simp
  | case2 digits p hzero hmod ih =>
    obtain ⟨hvalue, hpos⟩ := ih
    have hdigits : digits = digits / 10 * 10 := by omega
    refine ⟨?_, fun _ => hpos (by omega)⟩
    rw [hvalue, zpow_add_one₀ (by norm_num), ← mul_assoc, mul_right_comm]
    nth_rewrite 2 [hdigits]
    push_cast
    ring
  | case3 digits p hzero hmod => exact ⟨rfl, id⟩

/-- The shortest decimal is a multiple that rounds to the number, without its zeros. -/
theorem shortest_cases (x : Binary64) : x.shortest = (0, 0) ∨
    ∃ digits p, x.gridPoint? p = some digits ∧ x.shortest = dropZeros digits p := by
  have heq : x.shortest = ((List.range 17).findSome? fun n : Nat => (x.gridPoint?
      (firstDigitExponent x.ratio.1 x.ratio.2 - n)).map fun digits =>
        dropZeros digits (firstDigitExponent x.ratio.1 x.ratio.2 - n)).getD (0, 0) := rfl
  rw [heq]
  cases hhit : (List.range 17).findSome? fun n : Nat => (x.gridPoint?
      (firstDigitExponent x.ratio.1 x.ratio.2 - n)).map fun digits =>
        dropZeros digits (firstDigitExponent x.ratio.1 x.ratio.2 - n) with
  | none => exact .inl rfl
  | some decimal =>
    obtain ⟨n, -, hn⟩ := List.exists_of_findSome?_eq_some hhit
    obtain ⟨digits, hpoint, rfl⟩ := Option.map_eq_some_iff.1 hn
    exact .inr ⟨digits, _, hpoint, rfl⟩

/-- **The shortest decimal is at most half a unit above the number**, if it is not zero. -/
theorem shortest_size (hm : x.mantissa ≠ 0) : x.shortest = (0, 0) ∨ 0 < x.shortest.1 ∧
    (x.shortest.1 : ℚ) * 10 ^ x.shortest.2 ≤ (x.mantissa + 1 / 2) * 2 ^ x.exponent := by
  refine x.shortest_cases.imp_right fun ⟨digits, p, hpoint, hshortest⟩ => ?_
  obtain ⟨hpos, hsize⟩ := roundsTo_size hm (roundsTo_of_gridPoint? hpoint)
  obtain ⟨hvalue, hpos'⟩ := dropZeros_eq digits p
  rw [hshortest]
  exact ⟨hpos' hpos, hvalue.trans_le hsize⟩

end Shortest

end Binary64
end KernelRegistry
