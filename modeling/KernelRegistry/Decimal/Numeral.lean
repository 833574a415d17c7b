/-!
# Numerals

Which texts are read as a floating-point number.  The value is not needed, only whether there is
one: a sign, then a name of infinity or of the undefined number in any case, or digits with at most
one point among or around them and at most one exponent after them.

* `isNumeral` — the test.
-/

set_option autoImplicit false
namespace KernelRegistry
namespace Decimal

/-- An exponent, or nothing. -/
def isExponent : List Char → Bool
  | [] => true
  | e :: cs =>
    let digits := match cs with
      | '+' :: rest => rest
      | '-' :: rest => rest
      | _ => cs
    (e = 'e' || e = 'E') && !digits.isEmpty && digits.all Char.isDigit

/-- Digits with at most one point and at most one exponent, and at least one digit before it. -/
def isDigitsForm (cs : List Char) : Bool :=
  let whole := cs.takeWhile Char.isDigit
  match cs.dropWhile Char.isDigit with
  | '.' :: rest =>
    let fraction := rest.takeWhile Char.isDigit
    !(whole.isEmpty && fraction.isEmpty) && isExponent (rest.dropWhile Char.isDigit)
  | rest => !whole.isEmpty && isExponent rest

/-- A text without its sign. -/
def dropSign : List Char → List Char
  | '+' :: cs => cs
  | '-' :: cs => cs
  | cs => cs

/-- Numbers are only tested and stay the texts they are, so reading them means to accept them. -/
def isNumeral (s : String) : Bool :=
  let cs := dropSign s.toList
  let name := String.ofList (cs.map Char.toLower)
  name = "inf" || name = "infinity" || name = "nan" || isDigitsForm cs

end Decimal
end KernelRegistry
