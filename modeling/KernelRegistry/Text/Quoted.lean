import KernelRegistry.Text.Printable

/-!
# Quoted texts in messages

A message shows a text that it was given between double quotes, so that blanks and odd characters
are seen.

* `quoteChar` — one character inside the quotes.
* `quoted` — a text in quotes.
* `quotedList` — a list of texts, each in quotes, between brackets.
-/

set_option autoImplicit false
namespace KernelRegistry
namespace Text

/-- A number in hexadecimal, without leading zeros. -/
def hexadecimal (n : Nat) : List Char := Nat.toDigits 16 n

/-- One character of a quoted text: quote and backslash get a backslash, the common controls a
letter, and what cannot be shown its code. -/
def quoteChar (c : Char) : List Char :=
  if c = Char.ofNat 0 then ['\\', '0']
  else if c = '\t' then ['\\', 't']
  else if c = '\r' then ['\\', 'r']
  else if c = '\n' then ['\\', 'n']
  else if c = '"' then ['\\', '"']
  else if c = '\\' then ['\\', '\\']
  else if isPrintable c then [c]
  else ['\\', 'u', '{'] ++ hexadecimal c.toNat ++ ['}']

/-- A text in quotes. -/
def quoted (s : String) : String :=
  String.ofList (['"'] ++ s.toList.flatMap quoteChar ++ ['"'])

/-- A list of texts, each in quotes. -/
def quotedList (texts : List String) : String :=
  "[" ++ ", ".intercalate (texts.map quoted) ++ "]"

end Text
end KernelRegistry
