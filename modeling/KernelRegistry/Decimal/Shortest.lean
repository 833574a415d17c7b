import KernelRegistry.Decimal.Binary64

/-!
# The shortest decimal that reads back

A number is written with the fewest digits that still single it out: among the decimals that round
to the number, one with the fewest digits, and of those the nearest.

* `Binary64.shortest` — digits and power of ten.
* `Binary64.format` — the written form: positional while the exponent of the first digit is from
  -5 to 15, otherwise with an exponent and its sign.
-/

set_option autoImplicit false
namespace KernelRegistry
namespace Binary64

/-- The number of decimal digits of a natural number. -/
def decimalLength (n : Nat) : Nat := (Nat.toDigits 10 n).length

/-- The exponent of the first digit of `num / den`. -/
def firstDigitExponent (num den : Nat) : Int :=
  if den ≤ num then (decimalLength (num / den) : Int) - 1
  else -(decimalLength ((den - 1) / num) : Int)

/-- The quotient `num / den` divided by `10 ^ p`, as a quotient again. -/
def decimalScaled (num den : Nat) (p : Int) : Nat × Nat :=
  (num * Nat.pow 10 (-p).toNat, den * Nat.pow 10 p.toNat)

/-- Of the two multiples of `10 ^ p` around the number, one that rounds to it: the nearer if both
do, and the even one if both are equally near. -/
def gridPoint? (x : Binary64) (p : Int) : Option Nat :=
  -- Four times the mantissa puts both ends of the rounding interval on integers.
  let unit := if 2 ≤ x.exponent then (1 <<< (x.exponent - 2).toNat, 1)
    else (1, 1 <<< (2 - x.exponent).toNat)
  let narrow := x.mantissa = 1 <<< 52 ∧ minExponent < x.exponent
  let lower := (4 * x.mantissa - if narrow then 1 else 2) * unit.1
  let upper := (4 * x.mantissa + 2) * unit.1
  let (num, den) := decimalScaled (4 * x.mantissa * unit.1) unit.2 p
  let low := num / den
  let rounds (candidate : Nat) : Bool :=
    let (at', one) := decimalScaled (candidate * unit.2) 1 (-p)
    if x.mantissa % 2 = 0 then lower * one ≤ at' && at' ≤ upper * one
    else lower * one < at' && at' < upper * one
  match rounds low, rounds (low + 1) with
  | true, true =>
    let twice := 2 * (num % den)
    some (if twice < den ∨ (twice = den ∧ low % 2 = 0) then low else low + 1)
  | true, false => some low
  | false, true => some (low + 1)
  | false, false => none

/-- A decimal without zeros at its end. -/
def dropZeros (digits : Nat) (p : Int) : Nat × Int :=
  if h : digits = 0 then (0, p)
  else if digits % 10 = 0 then dropZeros (digits / 10) (p + 1)
  else (digits, p)
termination_by digits
decreasing_by omega

/-- Digits and power of ten of the shortest decimal that rounds to the number.  Seventeen digits
always single a number out. -/
def shortest (x : Binary64) : Nat × Int :=
  let (num, den) := x.ratio
  let first := firstDigitExponent num den
  let hit := (List.range 17).findSome? fun n : Nat =>
    (x.gridPoint? (first - n)).map fun digits => dropZeros digits (first - n)
  hit.getD (0, 0)

/-- The digits of a natural number. -/
def digitChars (n : Nat) : List Char := Nat.toDigits 10 n

/-- The written form of a magnitude `digits * 10 ^ p`. -/
def formatDecimal (digits : Nat) (p : Int) : List Char :=
  let ds := digitChars digits
  let first : Int := p + ds.length - 1
  if first < -5 ∨ 16 ≤ first then
    let fraction := if ds.length ≤ 1 then [] else '.' :: ds.drop 1
    let sign := if first < 0 then '-' else '+'
    ds.take 1 ++ fraction ++ ['e', sign] ++ digitChars first.natAbs
  else if first < 0 then
    ['0', '.'] ++ List.replicate (-first - 1).toNat '0' ++ ds
  else if 0 ≤ p then
    ds ++ List.replicate p.toNat '0' ++ ['.', '0']
  else
    ds.take (first.toNat + 1) ++ ['.'] ++ ds.drop (first.toNat + 1)

/-- The written form of a number. -/
def format (x : Binary64) : String :=
  let magnitude :=
    if x.mantissa = 0 then ['0', '.', '0']
    else formatDecimal x.shortest.1 x.shortest.2
  String.ofList (if x.negative then '-' :: magnitude else magnitude)

end Binary64
end KernelRegistry
