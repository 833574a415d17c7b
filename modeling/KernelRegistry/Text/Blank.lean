import KernelRegistry.Text.CodeRanges

/-!
# White space

* `blankRanges` — the characters with the property that they are white space.
* `trim` — a text without white space at its ends.
-/

set_option autoImplicit false
namespace KernelRegistry
namespace Text

/-- The characters with the property that they are white space. -/
def blankRanges : CodeRanges := [
  (0x9, 0xD), (0x20, 0x20), (0x85, 0x85), (0xA0, 0xA0), (0x1680, 0x1680), (0x2000, 0x200A),
  (0x2028, 0x2029), (0x202F, 0x202F), (0x205F, 0x205F), (0x3000, 0x3000)
  ]

/-- White space as Unicode has it, which is more than what a template or a manifest may have between
its parts. -/
def isBlank (c : Char) : Bool := blankRanges.contains c

/-- The characters between white space at both ends. -/
def trimChars (cs : List Char) : List Char :=
  ((cs.dropWhile isBlank).reverse.dropWhile isBlank).reverse

/-- A text without white space at its ends. -/
def trim (s : String) : String :=
  String.ofList (trimChars s.toList)

end Text
end KernelRegistry
