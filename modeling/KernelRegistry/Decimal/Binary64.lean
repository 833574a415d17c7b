/-!
# Binary floating-point numbers of 64 bits

A finite number of the format is an integer of at most 53 bits times a power of two that is not
below the 1074th negative one.  Everything here is exact arithmetic on natural numbers followed by
one rounding to the nearest such number.

* `Binary64` — sign, mantissa and exponent of a finite number.
* `Binary64.ofRatio` — the number nearest to a quotient, of two equally near the one with an even
  mantissa; none if it would be past the largest.
* `Binary64.mul`, `Binary64.div` — the rounded product and quotient.
* `Binary64.ofDecimal` — the number read from a decimal significand and exponent: the significand
  is rounded, and then the product or quotient with a rounded power of ten.
-/

set_option autoImplicit false
namespace KernelRegistry

/-- A finite binary floating-point number: `± mantissa * 2 ^ exponent`. -/
structure Binary64 where
  negative : Bool
  mantissa : Nat
  exponent : Int
  deriving DecidableEq, Repr

namespace Binary64

/-- The exponent of the smallest numbers. -/
def minExponent : Int := -1074

/-- The exponent of the largest numbers. -/
def maxExponent : Int := 971

/-- Zero, with a sign. -/
def zero (negative : Bool) : Binary64 := ⟨negative, 0, minExponent⟩

/-- The integer nearest to a quotient, of two equally near the even one. -/
def roundDiv (num den : Nat) : Nat :=
  let quotient := num / den
  let twice := 2 * (num % den)
  if den < twice ∨ (twice = den ∧ quotient % 2 = 1) then quotient + 1 else quotient

/-- The quotient `num / den` divided by `2 ^ e`, as a quotient again. -/
def scaled (num den : Nat) (e : Int) : Nat × Nat :=
  (num <<< (-e).toNat, den <<< e.toNat)

/-- The number nearest to `num / den`; `none` past the largest number.

With `k` the difference of the bit lengths, `num / den` lies between `2 ^ (k - 1)` and
`2 ^ (k + 1)`, so at the exponent `k - 53` or the next one the mantissa has 53 bits. -/
def ofRatio (negative : Bool) (num den : Nat) : Option Binary64 :=
  if num = 0 then some (zero negative)
  else
    let k : Int := (num.log2 : Int) - (den.log2 : Int)
    let low := max minExponent (k - 53)
    let start := scaled num den low
    let e := if 1 <<< 53 ≤ start.1 / start.2 then low + 1 else low
    let at' := scaled num den e
    let m := roundDiv at'.1 at'.2
    let (m, e) := if m = 1 <<< 53 then (1 <<< 52, e + 1) else (m, e)
    if maxExponent < e then none else some ⟨negative, m, e⟩

/-- The magnitude as a quotient of natural numbers. -/
def ratio (x : Binary64) : Nat × Nat :=
  (x.mantissa <<< x.exponent.toNat, 1 <<< (-x.exponent).toNat)

/-- The rounded product. -/
def mul (x y : Binary64) : Option Binary64 :=
  ofRatio (x.negative != y.negative) (x.ratio.1 * y.ratio.1) (x.ratio.2 * y.ratio.2)

/-- The rounded quotient by a number that is not zero. -/
def div (x y : Binary64) : Option Binary64 :=
  ofRatio (x.negative != y.negative) (x.ratio.1 * y.ratio.2) (x.ratio.2 * y.ratio.1)

/-- The largest power of ten that is below the largest number. -/
def maxPower : Nat := 308

/-- The number nearest to a power of ten. -/
def power (n : Nat) : Option Binary64 := ofRatio false (Nat.pow 10 n) 1

/-- Division by `10 ^ n`, in steps of at most `10 ^ most`, each of them rounded. -/
def divPower (most : Nat) (x : Binary64) (n : Nat) : Option Binary64 :=
  if n ≤ most ∨ most = 0 then (power n).bind x.div
  else if x.mantissa = 0 then some x
  else
    match (power most).bind x.div with
    | some y => divPower most y (n - most)
    | none => none
termination_by n
decreasing_by omega

/-- The number read from `significand * 10 ^ exponent`; `none` past the largest number. -/
def ofDecimal (negative : Bool) (significand : Nat) (exponent : Int) : Option Binary64 := do
  let x ← ofRatio false significand 1
  let y ←
    if x.mantissa = 0 then some x
    else if exponent < 0 then divPower maxPower x (-exponent).toNat
    else if exponent.toNat ≤ maxPower then (power exponent.toNat).bind x.mul
    else none
  return { y with negative }

end Binary64
end KernelRegistry
