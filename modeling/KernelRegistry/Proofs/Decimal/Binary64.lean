import Mathlib.Algebra.Order.Field.Power
import Mathlib.Data.Rat.Cast.Order
import Mathlib.Tactic.FieldSimp
import Mathlib.Tactic.Linarith
import Mathlib.Tactic.NormNum
import Mathlib.Tactic.Positivity
import Mathlib.Tactic.Ring
import KernelRegistry.Decimal.Binary64

/-!
# Rounding

How far a rounded number is from what it was rounded from, and when there is one.

* `Binary64.magnitude` — the magnitude of a number.
* `Binary64.Nearest` — a mantissa and an exponent of the format that are next to a number.
* `Binary64.ofRatio_nearest` — **the rounding of a quotient is next to it**.
* `Binary64.ofDecimal_some` — a decimal that is clearly below the largest number can be read.
-/

set_option autoImplicit false
namespace KernelRegistry
namespace Binary64

/-- The magnitude of a number. -/
def magnitude (x : Binary64) : ℚ := x.mantissa * 2 ^ x.exponent

/-! ## Quotients -/

section Quotients

variable {num den : Nat} {e : Int}

/-- A power with an integer exponent as a quotient of two with natural ones. -/
theorem pow_toNat {b : ℚ} (hb : b ≠ 0) (e : Int) : b ^ e.toNat = b ^ e * b ^ (-e).toNat := by
  rw [← zpow_natCast, ← zpow_natCast, ← zpow_add₀ hb]
  congr 1
  omega

theorem ratio_pos (x : Binary64) : 0 < x.ratio.2 := by
  simp [ratio, Nat.shiftLeft_eq]

theorem ratio_eq (x : Binary64) : (x.ratio.1 : ℚ) / x.ratio.2 = x.magnitude := by
  have hpos : (0 : ℚ) < x.ratio.2 := Nat.cast_pos.2 x.ratio_pos
  rw [div_eq_iff hpos.ne']
  simp only [ratio, magnitude, Nat.shiftLeft_eq, one_mul, Nat.cast_mul, Nat.cast_pow,
    Nat.cast_ofNat]
  rw [pow_toNat two_ne_zero, mul_assoc]

theorem scaled_pos (num : Nat) (hden : 0 < den) (e : Int) : 0 < (scaled num den e).2 := by
  simp [scaled, Nat.shiftLeft_eq, hden]

theorem scaled_eq (num : Nat) (hden : 0 < den) (e : Int) :
    ((scaled num den e).1 : ℚ) / (scaled num den e).2 = num / den / 2 ^ e := by
  have hden' : (0 : ℚ) < den := Nat.cast_pos.2 hden
  simp only [scaled, Nat.shiftLeft_eq, Nat.cast_mul, Nat.cast_pow, Nat.cast_ofNat]
  rw [pow_toNat two_ne_zero e]
  field_simp

/-- The rounded quotient is at most one half away. -/
theorem roundDiv_error (num : Nat) (hden : 0 < den) :
    |(roundDiv num den : ℚ) - num / den| ≤ 1 / 2 := by
  have hden' : (0 : ℚ) < den := Nat.cast_pos.2 hden
  have hsplit : den * (num / den) + num % den = num := Nat.div_add_mod num den
  have hmod : num % den < den := Nat.mod_lt num hden
  have hbounds : 2 * (roundDiv num den * den) ≤ 2 * num + den ∧
      2 * num ≤ 2 * (roundDiv num den * den) + den := by
    rw [roundDiv]
    generalize num / den = quotient at hsplit
    rw [Nat.mul_comm] at hsplit
    split
    · next hup =>
      rw [Nat.add_mul, Nat.one_mul]
      omega
    · next hdown => omega
  have hhigh : (2 : ℚ) * (roundDiv num den * den) ≤ 2 * num + den := by exact_mod_cast hbounds.1
  have hlow : (2 : ℚ) * num ≤ 2 * (roundDiv num den * den) + den := by exact_mod_cast hbounds.2
  have hdiv : (num : ℚ) / den * den = num := div_mul_cancel₀ _ hden'.ne'
  rw [abs_le]
  constructor
  · nlinarith
  · nlinarith

/-- With the difference of the bit lengths, a quotient lies between two powers of two. -/
theorem between_powers (hnum : num ≠ 0) (hden : 0 < den) :
    (2 : ℚ) ^ ((num.log2 : Int) - den.log2 - 1) < num / den ∧
      (num : ℚ) / den < 2 ^ ((num.log2 : Int) - den.log2 + 1) := by
  have hden' : (0 : ℚ) < den := Nat.cast_pos.2 hden
  have hnum_low : (2 : ℚ) ^ (num.log2 : Int) ≤ num := by exact_mod_cast Nat.log2_self_le hnum
  have hnum_high : (num : ℚ) < 2 ^ (num.log2 : Int) * 2 := by exact_mod_cast Nat.lt_log2_self
  have hden_low : (2 : ℚ) ^ (den.log2 : Int) ≤ den := by exact_mod_cast Nat.log2_self_le hden.ne'
  have hden_high : (den : ℚ) < 2 ^ (den.log2 : Int) * 2 := by exact_mod_cast Nat.lt_log2_self
  have hpos : (0 : ℚ) < 2 ^ (num.log2 : Int) / 2 ^ (den.log2 : Int) := by positivity
  have hcancel : (2 : ℚ) ^ (num.log2 : Int) / 2 ^ (den.log2 : Int) * 2 ^ (den.log2 : Int) =
      2 ^ (num.log2 : Int) := div_mul_cancel₀ _ (by positivity)
  rw [zpow_sub_one₀ two_ne_zero, zpow_add_one₀ two_ne_zero, zpow_sub₀ two_ne_zero,
    lt_div_iff₀ hden', div_lt_iff₀ hden']
  constructor
  · nlinarith
  · nlinarith

end Quotients

/-! ## The nearest number -/

/-- A mantissa and an exponent of the format that are next to a number; only at the smallest
exponent the mantissa may have fewer bits.  Ties are left open, because the error is the same on
both sides. -/
structure Nearest (q : ℚ) (m : Nat) (e : Int) : Prop where
  low : minExponent ≤ e
  bits : m < 2 ^ 53
  normal : minExponent < e → 2 ^ 52 ≤ m
  error : |m * 2 ^ e - q| ≤ 2 ^ e / 2

section Nearest

variable {num den m : Nat} {e : Int} {q : ℚ} {negative : Bool} {x : Binary64}

/-- At the exponent that is chosen, the quotient has 53 bits before the point. -/
theorem exists_exponent (hnum : num ≠ 0) (hden : 0 < den) {k low : Int}
    (hk : k = (num.log2 : Int) - (den.log2 : Int)) (hlow : low = max minExponent (k - 53)) :
    ∃ e, e = (if 1 <<< 53 ≤ (scaled num den low).1 / (scaled num den low).2 then low + 1
        else low) ∧ minExponent ≤ e ∧ (minExponent < e → 2 ^ 52 ≤ (num : ℚ) / den / 2 ^ e) ∧
      (num : ℚ) / den / 2 ^ e < 2 ^ 53 := by
  obtain ⟨habove, hbelow⟩ := between_powers hnum hden
  rw [← hk] at habove hbelow
  have hstart : (1 <<< 53 ≤ (scaled num den low).1 / (scaled num den low).2) ↔
      2 ^ 53 ≤ (num : ℚ) / den / 2 ^ low := by
    have hpos : (0 : ℚ) < (scaled num den low).2 := Nat.cast_pos.2 (scaled_pos num hden low)
    rw [← scaled_eq num hden, le_div_iff₀ hpos, Nat.le_div_iff_mul_le (scaled_pos num hden low),
      Nat.shiftLeft_eq, one_mul]
    exact_mod_cast Iff.rfl
  have hpos : (0 : ℚ) < 2 ^ low := by positivity
  refine ⟨_, rfl, ?_⟩
  split
  · next h =>
    have hbits := hstart.1 h
    rw [zpow_add_one₀ two_ne_zero, ← div_div]
    refine ⟨by omega, fun _ => ?_, ?_⟩
    · rw [le_div_iff₀ two_pos]
      linarith
    · -- one exponent up, the quotient cannot have more than 53 bits
      have hpower : (2 : ℚ) ^ (k + 1) ≤ 2 ^ (53 : Int) * (2 ^ low * 2) := by
        rw [← zpow_add_one₀ two_ne_zero, ← zpow_add₀ two_ne_zero]
        exact zpow_le_zpow_right₀ one_le_two (by omega)
      rw [div_div, div_lt_iff₀ (by positivity)]
      exact_mod_cast hbelow.trans_le hpower
  · next h =>
    refine ⟨by omega, fun hnormal => ?_, not_le.1 fun hle => h (hstart.2 hle)⟩
    have hexponent : low = k - 53 := by omega
    have hpower : (2 : ℚ) ^ (52 : Int) * 2 ^ low = 2 ^ (k - 1) := by
      rw [← zpow_add₀ two_ne_zero]
      congr 1
      omega
    rw [le_div_iff₀ hpos]
    exact_mod_cast hpower.trans_le habove.le

/-- **The rounding of a quotient is next to it**, and there is one unless its exponent is too
large. -/
theorem ofRatio_nearest (negative : Bool) (hnum : num ≠ 0) (hden : 0 < den) :
    ∃ m e, Nearest (num / den) m e ∧
      ofRatio negative num den = if maxExponent < e then none else some ⟨negative, m, e⟩ := by
  obtain ⟨e, he, hmin, hlarge, hsmall⟩ := exists_exponent hnum hden rfl rfl
  have hround := roundDiv_error (scaled num den e).1 (scaled_pos num hden e)
  rw [scaled_eq num hden, abs_le] at hround
  rw [ofRatio, if_neg hnum]
  simp only [← he]
  generalize roundDiv (scaled num den e).1 (scaled num den e).2 = m at hround
  have hpos : (0 : ℚ) < 2 ^ e := by positivity
  have herror : |m * 2 ^ e - (num : ℚ) / den| ≤ 2 ^ e / 2 := by
    have hcancel : (num : ℚ) / den / 2 ^ e * 2 ^ e = num / den := div_mul_cancel₀ _ hpos.ne'
    rw [abs_le]
    constructor
    · nlinarith
    · nlinarith
  have hbits : m ≤ 2 ^ 53 := by
    have : (m : ℚ) < 2 ^ 53 + 1 := by linarith
    exact Nat.lt_succ_iff.1 (by exact_mod_cast this)
  have hnormal : minExponent < e → 2 ^ 52 ≤ m := fun h => by
    have : (2 ^ 52 : ℚ) < m + 1 := by linarith [hlarge h]
    exact Nat.lt_succ_iff.1 (by exact_mod_cast this)
  by_cases hcarry : m = 1 <<< 53
  · refine ⟨1 <<< 52, e + 1, ⟨by omega, by decide, fun _ => by decide, ?_⟩, by simp [hcarry]⟩
    -- half the mantissa at twice the scale
    rw [zpow_add_one₀ two_ne_zero]
    rw [hcarry] at herror
    norm_num [Nat.shiftLeft_eq] at herror ⊢
    rw [abs_le] at herror ⊢
    constructor
    · linarith
    · linarith
  · refine ⟨m, e, ⟨hmin, ?_, hnormal, herror⟩, by simp only [if_neg hcarry]⟩
    exact lt_of_le_of_ne hbits (by simpa [Nat.shiftLeft_eq] using hcarry)

/-- A bound below which every number can be rounded. -/
def limit : ℚ := (2 ^ 53 - 1) * 2 ^ 971

/-- The bound lies between two powers of ten. -/
theorem limit_bounds : (10 : ℚ) ^ 308 < limit ∧ limit < 10 ^ 309 := by
  have hlow : 10 ^ 308 < 9007199254740991 * 2 ^ 971 := by decide +kernel
  have hhigh : 9007199254740991 * 2 ^ 971 < 10 ^ 309 := by decide +kernel
  have hlimit : limit = 9007199254740991 * 2 ^ 971 := by norm_num [limit]
  rw [hlimit]
  exact ⟨by exact_mod_cast hlow, by exact_mod_cast hhigh⟩

/-- How much a number that is not below one can grow by rounding. -/
def slack : ℚ := 1 + 1 / (2 ^ 53 - 1)

theorem Nearest.exponent_le (h : Nearest q m e) (hq : q < limit) : e ≤ maxExponent := by
  by_contra hlarge
  rw [maxExponent] at hlarge
  have hm : (2 ^ 52 : ℚ) ≤ m := by
    exact_mod_cast h.normal (by rw [minExponent]; omega)
  have hpower : (2 : ℚ) ^ 971 * 2 ≤ 2 ^ e := by
    rw [← pow_succ, ← zpow_natCast]
    exact zpow_le_zpow_right₀ one_le_two (by omega)
  have hmul : (2 ^ 52 : ℚ) * 2 ^ e ≤ m * 2 ^ e := mul_le_mul_of_nonneg_right hm (by positivity)
  have herror := (abs_le.1 h.error).2
  rw [limit] at hq
  generalize (2 : ℚ) ^ 971 = scale at hpower hq
  norm_num at hmul hq
  linarith

theorem Nearest.le_add (h : Nearest q m e) (hq : 0 ≤ q) : m * 2 ^ e ≤ 2 * q + 1 := by
  have herror := abs_le.1 h.error
  rcases h.low.eq_or_lt with he | he
  · have hpower : (2 : ℚ) ^ e ≤ 1 := zpow_le_one_of_nonpos₀ one_le_two (by rw [← he]; decide)
    linarith
  · have hm : (2 ^ 52 : ℚ) ≤ m := by exact_mod_cast h.normal he
    have hpower : (0 : ℚ) < 2 ^ e := by positivity
    nlinarith

/-- A number that is not below one is rounded with a relative error. -/
theorem Nearest.bounds (h : Nearest q m e) (hq : 1 ≤ q) :
    q / 2 ≤ m * 2 ^ e ∧ m * 2 ^ e ≤ q * slack := by
  have herror := abs_le.1 h.error
  have hscale : (2 : ℚ) ^ e * (2 ^ 53 - 1) ≤ 2 * q := by
    rcases h.low.eq_or_lt with he | he
    · have hpower : (2 : ℚ) ^ e ≤ 2 ^ (-53 : Int) :=
        zpow_le_zpow_right₀ one_le_two (by rw [← he]; decide)
      norm_num at hpower ⊢
      linarith
    · have hm : (2 ^ 52 : ℚ) ≤ m := by exact_mod_cast h.normal he
      have hpower : (0 : ℚ) < 2 ^ e := by positivity
      nlinarith
  rw [slack]
  norm_num at hscale ⊢
  constructor
  · linarith
  · linarith

/-- A quotient below the bound is rounded. -/
theorem ofRatio_some (negative : Bool) (hden : 0 < den) (h : (num : ℚ) / den < limit) :
    ∃ x, ofRatio negative num den = some x ∧ x.magnitude ≤ 2 * (num / den) + 1 ∧
      (1 ≤ (num : ℚ) / den → num / den / 2 ≤ x.magnitude ∧ x.magnitude ≤ num / den * slack) := by
  by_cases hnum : num = 0
  · refine ⟨zero negative, by rw [ofRatio, if_pos hnum], ?_, fun hone => ?_⟩
    · simp [magnitude, zero, hnum]
    · rw [hnum, Nat.cast_zero, zero_div] at hone
      linarith
  · obtain ⟨m, e, hnearest, hround⟩ := ofRatio_nearest negative hnum hden
    rw [if_neg (not_lt.2 (hnearest.exponent_le h))] at hround
    exact ⟨_, hround, hnearest.le_add (by positivity), hnearest.bounds⟩

/-- A finite number of the format. -/
structure Finite (x : Binary64) : Prop where
  bits : x.mantissa < 2 ^ 53
  low : minExponent ≤ x.exponent
  high : x.exponent ≤ maxExponent

theorem zero_finite (negative : Bool) : (zero negative).Finite :=
  ⟨Nat.two_pow_pos 53, le_refl minExponent, by simp [zero, minExponent, maxExponent]⟩

theorem ofRatio_finite (hden : 0 < den) (h : ofRatio negative num den = some x) : x.Finite := by
  by_cases hnum : num = 0
  · rw [ofRatio, if_pos hnum] at h
    cases h
    exact zero_finite negative
  · obtain ⟨m, e, hnearest, hround⟩ := ofRatio_nearest negative hnum hden
    rw [hround] at h
    split at h
    · cases h
    · next hhigh =>
      cases h
      exact ⟨hnearest.bits, hnearest.low, not_lt.1 hhigh⟩

end Nearest

/-! ## Products and quotients -/

section Arithmetic

variable {x y : Binary64} {n : Nat}

theorem magnitude_nonneg (x : Binary64) : 0 ≤ x.magnitude := by
  rw [magnitude]
  positivity

theorem ratio_num_pos (h : 0 < y.magnitude) : 0 < y.ratio.1 := by
  refine Nat.pos_of_ne_zero fun hzero => ?_
  rw [← ratio_eq, hzero, Nat.cast_zero, zero_div] at h
  exact lt_irrefl _ h

theorem ratio_mul (x y : Binary64) : ((x.ratio.1 * y.ratio.1 : Nat) : ℚ) /
    (x.ratio.2 * y.ratio.2 : Nat) = x.magnitude * y.magnitude := by
  rw [Nat.cast_mul, Nat.cast_mul, mul_div_mul_comm, ratio_eq, ratio_eq]

theorem ratio_div (x y : Binary64) : ((x.ratio.1 * y.ratio.2 : Nat) : ℚ) /
    (x.ratio.2 * y.ratio.1 : Nat) = x.magnitude / y.magnitude := by
  rw [Nat.cast_mul, Nat.cast_mul, mul_div_mul_comm, ratio_eq, ← inv_div, ratio_eq, div_eq_mul_inv]

/-- A power of ten that is below the bound is rounded to a number close to it. -/
theorem power_some (hn : n ≤ maxPower) : ∃ x, power n = some x ∧ 10 ^ n / 2 ≤ x.magnitude ∧
    x.magnitude ≤ 10 ^ n * slack := by
  have hone : (1 : ℚ) ≤ 10 ^ n := one_le_pow₀ (by norm_num)
  have hlimit : (10 : ℚ) ^ n < limit :=
    (pow_le_pow_right₀ (by norm_num) hn).trans_lt limit_bounds.1
  have hratio : ((Nat.pow 10 n : Nat) : ℚ) / (1 : Nat) = 10 ^ n := by simp
  obtain ⟨x, hx, -, hbounds⟩ := ofRatio_some false Nat.one_pos (hratio.trans_lt hlimit)
  rw [hratio] at hbounds
  exact ⟨x, hx, hbounds hone⟩

/-- Numbers of moderate size are far below the largest power of ten. -/
theorem moderate_le : (2 : ℚ) ^ 71 ≤ 10 ^ maxPower :=
  calc (2 : ℚ) ^ 71 ≤ 10 ^ 22 := by norm_num
    _ ≤ 10 ^ maxPower := pow_le_pow_right₀ (by norm_num) (by decide)

theorem mul_some (h : x.magnitude * y.magnitude < limit) : ∃ z, x.mul y = some z := by
  rw [← ratio_mul] at h
  obtain ⟨z, hz, -⟩ := ofRatio_some (x.negative != y.negative)
    (Nat.mul_pos x.ratio_pos y.ratio_pos) h
  exact ⟨z, hz⟩

/-- Division by a number that is not below one half does not grow much. -/
theorem div_some (hy : 1 / 2 ≤ y.magnitude) (hx : x.magnitude ≤ 2 ^ 70) :
    ∃ z, x.div y = some z ∧ z.magnitude ≤ 2 * (x.magnitude / y.magnitude) + 1 := by
  have hnonneg := x.magnitude_nonneg
  have hquotient : x.magnitude / y.magnitude ≤ 2 ^ 71 := by
    rw [div_le_iff₀ (by linarith)]
    norm_num at hx ⊢
    linarith
  have hlimit : (2 : ℚ) ^ 71 < limit := moderate_le.trans_lt limit_bounds.1
  have hpos := ratio_num_pos (y := y) (by linarith)
  rw [← ratio_div] at hquotient ⊢
  obtain ⟨z, hz, hle, -⟩ := ofRatio_some (x.negative != y.negative)
    (Nat.mul_pos x.ratio_pos hpos) (hquotient.trans_lt hlimit)
  exact ⟨z, hz, hle⟩

/-- A number of moderate size can be divided by every power of ten. -/
theorem divPower_some (hx : x.magnitude ≤ 2 ^ 70) (n : Nat) :
    ∃ z, divPower maxPower x n = some z := by
  induction n using Nat.strongRecOn generalizing x with
  | ind n ih =>
    rw [divPower]
    split
    · next hn =>
      obtain ⟨y, hy, hlow, -⟩ := power_some (hn.resolve_right (by decide))
      have hone : (1 : ℚ) ≤ 10 ^ n := one_le_pow₀ (by norm_num)
      obtain ⟨z, hz, -⟩ := div_some (y := y) (by linarith) hx
      exact ⟨z, by rw [hy]; exact hz⟩
    · next hn =>
      split
      · exact ⟨x, rfl⟩
      · obtain ⟨y, hy, hlow, -⟩ := power_some (le_refl maxPower)
        have hlarge : (2 : ℚ) ^ 70 ≤ y.magnitude := by
          have := moderate_le
          rw [pow_succ] at this
          linarith
        have hhalf : 1 / 2 ≤ y.magnitude := by
          norm_num at hlarge ⊢
          linarith
        obtain ⟨z, hz, hle⟩ := div_some hhalf hx
        have hsmall : x.magnitude / y.magnitude ≤ 1 := by
          rw [div_le_one (by linarith)]
          exact hx.trans hlarge
        rw [hy, Option.bind_some, hz]
        refine ih (n - maxPower) ?_ (by norm_num; linarith)
        simp only [maxPower] at hn ⊢
        omega

theorem div_power_finite {z : Binary64} (hn : n ≤ maxPower) (h : (power n).bind x.div = some z) :
    z.Finite := by
  obtain ⟨y, hy, hlow, -⟩ := power_some hn
  have hone : (0 : ℚ) < 10 ^ n := by positivity
  rw [hy, Option.bind_some] at h
  exact ofRatio_finite (Nat.mul_pos x.ratio_pos (ratio_num_pos (by linarith))) h

theorem divPower_finite {z : Binary64} (hx : x.Finite) (h : divPower maxPower x n = some z) :
    z.Finite := by
  induction n using Nat.strongRecOn generalizing x with
  | ind n ih =>
    rw [divPower] at h
    split at h
    · next hn => exact div_power_finite (hn.resolve_right (by decide)) h
    · next hn =>
      split at h
      · exact Option.some.inj h ▸ hx
      · split at h
        · next y hy =>
          refine ih (n - maxPower) ?_ (div_power_finite (le_refl _) hy) h
          simp only [maxPower] at hn ⊢
          omega
        · cases h

end Arithmetic

/-! ## Decimals -/

section Decimals

variable {significand : Nat} {exponent : Int} {x : Binary64}

/-- The significand is rounded and scaled, and the sign is put in front. -/
theorem ofDecimal_eq (negative : Bool) (significand : Nat) (exponent : Int) :
    ofDecimal negative significand exponent = (ofRatio false significand 1).bind fun x =>
      (if x.mantissa = 0 then some x
        else if exponent < 0 then divPower maxPower x (-exponent).toNat
        else if exponent.toNat ≤ maxPower then (power exponent.toNat).bind x.mul
        else none).map fun y => { y with negative } := by
  rw [ofDecimal]
  cases ofRatio false significand 1 with
  | none => rfl
  | some x =>
    simp only [bind, Option.bind_some]
    split
    · rfl
    · split
      · cases divPower maxPower x (-exponent).toNat <;> rfl
      · split
        · cases (power exponent.toNat).bind x.mul <;> rfl
        · rfl

/-- Reading a decimal never gives an infinite number: one that is too large is refused. -/
theorem ofDecimal_finite {negative : Bool} (h : ofDecimal negative significand exponent = some x) :
    x.Finite := by
  rw [ofDecimal_eq, Option.bind_eq_some_iff] at h
  obtain ⟨y, hy, h⟩ := h
  obtain ⟨z, hz, rfl⟩ := Option.map_eq_some_iff.1 h
  suffices hfinite : z.Finite from ⟨hfinite.bits, hfinite.low, hfinite.high⟩
  have hy' := ofRatio_finite Nat.one_pos hy
  split at hz
  · exact Option.some.inj hz ▸ hy'
  · split at hz
    · exact divPower_finite hy' hz
    · split at hz
      · obtain ⟨p, hp, hmul⟩ := Option.bind_eq_some_iff.1 hz
        exact ofRatio_finite (Nat.mul_pos y.ratio_pos p.ratio_pos) hmul
      · cases hz

/-- A number can be multiplied by a power of ten if the product is clearly below the largest
number. -/
theorem mul_power_some {x : Binary64} {n : Nat} (hone : (1 : ℚ) ≤ significand)
    (hx : x.magnitude ≤ significand * slack)
    (h : (significand : ℚ) * 10 ^ n * slack ^ 2 < limit) :
    n ≤ maxPower ∧ ∃ y, (power n).bind x.mul = some y := by
  have hslack : (1 : ℚ) ≤ slack ^ 2 := one_le_pow₀ (by norm_num [slack])
  have hpower : (10 : ℚ) ^ n < 10 ^ 309 :=
    calc (10 : ℚ) ^ n = 1 * 10 ^ n * 1 := by ring
      _ ≤ significand * 10 ^ n * slack ^ 2 := by gcongr
      _ < limit := h
      _ < 10 ^ 309 := limit_bounds.2
  have hn : n ≤ maxPower :=
    Nat.lt_succ_iff.1 ((pow_lt_pow_iff_right₀ (by norm_num)).1 hpower)
  obtain ⟨y, hy, -, hle⟩ := power_some hn
  rw [hy, Option.bind_some]
  refine ⟨hn, mul_some (lt_of_le_of_lt ?_ h)⟩
  have hsignificand : (0 : ℚ) ≤ significand * slack := (x.magnitude_nonneg).trans hx
  calc x.magnitude * y.magnitude ≤ significand * slack * (10 ^ n * slack) :=
        mul_le_mul hx hle y.magnitude_nonneg hsignificand
    _ = significand * 10 ^ n * slack ^ 2 := by ring

/-- **A decimal can be read** if its significand is moderate and the decimal is clearly below the
largest number. -/
theorem ofDecimal_some (negative : Bool) (hsignificand : significand < 2 ^ 64)
    (h : 0 ≤ exponent → significand * 10 ^ exponent * slack ^ 2 < limit) :
    ∃ x, ofDecimal negative significand exponent = some x := by
  have hmoderate : (significand : ℚ) < 2 ^ 64 := by exact_mod_cast hsignificand
  have hbelow : (significand : ℚ) / (1 : Nat) < limit := by
    have hless : (2 : ℚ) ^ 64 < 2 ^ 71 := by norm_num
    rw [Nat.cast_one, div_one]
    exact (hmoderate.trans hless).trans (moderate_le.trans_lt limit_bounds.1)
  obtain ⟨x, hx, hle, hbounds⟩ := ofRatio_some false Nat.one_pos hbelow
  rw [Nat.cast_one, div_one] at hle hbounds
  suffices hy : ∃ y, (if x.mantissa = 0 then some x
      else if exponent < 0 then divPower maxPower x (-exponent).toNat
      else if exponent.toNat ≤ maxPower then (power exponent.toNat).bind x.mul
      else none) = some y by
    obtain ⟨y, hy⟩ := hy
    exact ⟨{ y with negative }, by rw [ofDecimal_eq, hx, Option.bind_some, hy]; rfl⟩
  split
  · exact ⟨x, rfl⟩
  · next hmantissa =>
    split
    · have hsize : x.magnitude ≤ 2 ^ 70 := by
        rw [show (2 : ℚ) ^ 70 = 2 * 2 ^ 64 * 32 by norm_num]
        linarith
      exact divPower_some hsize _
    · next hexponent =>
      have hone : (1 : ℚ) ≤ significand := by
        rw [Nat.one_le_cast, Nat.one_le_iff_ne_zero]
        rintro rfl
        rw [ofRatio, if_pos rfl] at hx
        cases hx
        exact hmantissa rfl
      have hsize := h (not_lt.1 hexponent)
      obtain ⟨n, rfl⟩ := Int.eq_ofNat_of_zero_le (not_lt.1 hexponent)
      rw [zpow_natCast] at hsize
      obtain ⟨hn, hsome⟩ := mul_power_some hone (hbounds hone).2 hsize
      rw [Int.toNat_natCast, if_pos hn]
      exact hsome

end Decimals

end Binary64
end KernelRegistry
