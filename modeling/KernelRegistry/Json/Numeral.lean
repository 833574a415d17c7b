import KernelRegistry.Json.Step

/-!
# Numbers

* `Numeral` — the parts of a number as it is written.
* `readNumeral` — splits them off the front of a text.
* `Numeral.value` — the number.  Digits are gathered into 64 bits while they fit; those of the whole
  part that do not fit count as powers of ten, those of the fraction are dropped.
-/

set_option autoImplicit false
namespace KernelRegistry
namespace Json

/-- A number as it is written. -/
structure Numeral where
  negative : Bool
  whole : List Char
  /-- The digits after the point, none if there is no point. -/
  fraction : List Char
  /-- A sign that is a minus, and the digits of the exponent. -/
  exponent : Option (Bool × List Char)
  deriving DecidableEq, Repr

/-! ## Parts -/

/-- The digits at the front, of which there has to be one. -/
def readDigits (input : List Char) : Option (Step input (List Char)) :=
  match h : input with
  | [] => none
  | c :: rest =>
    if c.isDigit then
      some ⟨c :: rest.takeWhile Char.isDigit, rest.dropWhile Char.isDigit, by
        have := (List.dropWhile_sublist Char.isDigit (l := rest)).length_le
        simp only [List.length_cons]; omega⟩
    else none

/-- A failure where a digit was wanted; `ending` is the cause if the text ends there. -/
def digitFailure (ending : Reason) (input : List Char) : Failure :=
  match input with
  | [] => .at ending []
  | rest => .past .invalidNumber rest

/-- The digits before the point: a zero is the only one if it is the first. -/
def readWhole (ending : Reason) (input : List Char) : Except Failure (Step input (List Char)) :=
  match readDigits input with
  | none => .error (digitFailure ending input)
  | some step =>
    match step.value with
    | '0' :: _ :: _ => .error (.past .invalidNumber (input.drop 1))
    | _ => .ok step

/-- A part of a number that may be missing: its value, and a rest that is no longer. -/
abbrev Part (input : List Char) (α : Type) :=
  Except Failure (α × {rest : List Char // rest.length ≤ input.length})

/-- Nothing is read. -/
def Part.nothing {α : Type} (input : List Char) (value : α) : Part input α :=
  .ok (value, ⟨input, Nat.le_refl _⟩)

/-- The digits after a point, if there is one. -/
def readFraction (ending : Reason) (input : List Char) : Part input (List Char) :=
  match input with
  | '.' :: rest =>
    match readDigits rest with
    | some step => .ok (step.value, ⟨step.rest, by
        have := step.shorter; simp only [List.length_cons]; omega⟩)
    | none => .error (digitFailure ending rest)
  | rest => .nothing rest []

/-- Splits off the sign of an exponent, which may be missing.  The flag says whether it is a
minus. -/
def splitSign (input : List Char) : Bool × {rest : List Char // rest.length ≤ input.length} :=
  match input with
  | '+' :: rest => (false, ⟨rest, length_le_succ rest⟩)
  | '-' :: rest => (true, ⟨rest, length_le_succ rest⟩)
  | rest => (false, ⟨rest, length_le_self rest⟩)

/-- The exponent, if there is one. -/
def readExponent (ending : Reason) (input : List Char) : Part input (Option (Bool × List Char)) :=
  match input with
  | [] => .nothing [] none
  | c :: rest =>
    if c = 'e' || c = 'E' then
      let (negative, ⟨digits, h⟩) := splitSign rest
      match readDigits digits with
      | some step => .ok (some (negative, step.value), ⟨step.rest, by
          have := step.shorter; simp only [List.length_cons]; omega⟩)
      | none => .error (digitFailure ending digits)
    else .nothing (c :: rest) none

/-- The parts of a number.  `ending` is the cause of a failure at the end of the text. -/
def readNumeral (ending : Reason) (input : List Char) : Except Failure (Step input Numeral) := do
  let ⟨negative, ⟨unsigned, h⟩⟩ : Bool × {rest : List Char // rest.length ≤ input.length} :=
    match input with
    | '-' :: rest => (true, ⟨rest, length_le_succ rest⟩)
    | rest => (false, ⟨rest, length_le_self rest⟩)
  let whole ← readWhole ending unsigned
  let (fraction, ⟨afterFraction, h'⟩) ← readFraction ending whole.rest
  let (exponent, ⟨rest, h''⟩) ← readExponent ending afterFraction
  return ⟨⟨negative, whole.value, fraction, exponent⟩, rest, by have := whole.shorter; omega⟩

/-! ## Value -/

/-- The value of a decimal digit. -/
def digitValue (c : Char) : Nat := c.toNat - '0'.toNat

/-- The largest significand. -/
def maxSignificand : Nat := 0xFFFFFFFFFFFFFFFF

/-- The largest magnitude of a written exponent. -/
def maxWrittenExponent : Nat := 0x7FFFFFFF

/-- Appends digits to a number while the result stays within a bound; also gives the digits from
the first that did not fit. -/
def absorb (bound : Nat) (n : Nat) : List Char → Nat × List Char
  | [] => (n, [])
  | c :: cs =>
    if n * 10 + digitValue c ≤ bound then absorb bound (n * 10 + digitValue c) cs else (n, c :: cs)

/-- The number that was written.  If its exponent is out of bounds, the digits after the first one
of the exponent that did not fit; if only the number is, none. -/
def Numeral.value (n : Numeral) : Except (List Char) Number :=
  let (significand, wholeLeft) := absorb maxSignificand 0 n.whole
  let (significand', fractionLeft) := absorb maxSignificand significand n.fraction
  let shift : Int :=
    (wholeLeft.length : Int) - ((n.fraction.length - fractionLeft.length : Nat) : Int)
  let real (significand : Nat) (exponent : Int) : Except (List Char) Number :=
    match Binary64.ofDecimal n.negative significand exponent with
    | some x => .ok (.real x)
    | none => .error []
  match n.exponent with
  | some (negative, digits) =>
    match absorb maxWrittenExponent 0 digits with
    | (e, []) => real significand' (if negative then shift - e else shift + e)
    | (_, left) =>
      if significand' ≠ 0 ∧ negative = false then .error (left.drop 1)
      else .ok (.real (Binary64.zero n.negative))
  | none =>
    if n.fraction = [] ∧ wholeLeft = [] then
      if n.negative = false then .ok (.int significand)
      else if 0 < significand ∧ significand ≤ 0x8000000000000000 then .ok (.int (-significand))
      else real significand 0
    else real significand' shift

/-- A number and its value. -/
def readNumber (input : List Char) : Except Failure (Step input Number) := do
  let step ← readNumeral .endInValue input
  match step.value.value with
  | .ok n => return step.map fun _ => n
  | .error left => .error (.at .numberOutOfRange (left ++ step.rest))

end Json
end KernelRegistry
