import KernelRegistry.Json.Basic
import KernelRegistry.Decimal.Shortest
import KernelRegistry.Text.Quoted

/-!
# Writing documents

* `escaped` — the inside of a string.
* `compact` — a document on one line without blanks.
* `pretty` — a document with a line for every item and member, four blanks deeper at each level.
-/

set_option autoImplicit false
namespace KernelRegistry
namespace Json

/-- A character inside a string: quote and backslash get a backslash, the common controls a letter,
the other controls their number. -/
def escapeChar (c : Char) : List Char :=
  if c = '"' then ['\\', '"']
  else if c = '\\' then ['\\', '\\']
  else if c = Char.ofNat 0x08 then ['\\', 'b']
  else if c = Char.ofNat 0x0C then ['\\', 'f']
  else if c = '\n' then ['\\', 'n']
  else if c = '\r' then ['\\', 'r']
  else if c = '\t' then ['\\', 't']
  else if c.toNat < 0x20 then
    ['\\', 'u', '0', '0', Nat.digitChar (c.toNat / 16), Nat.digitChar (c.toNat % 16)]
  else [c]

/-- The inside of a string. -/
def escapedChars (cs : List Char) : List Char := cs.flatMap escapeChar

/-- The inside of a string. -/
def escaped (s : String) : String := String.ofList (escapedChars s.toList)

/-- A string with its quotes. -/
def writeString (s : String) : List Char := '"' :: escapedChars s.toList ++ ['"']

/-- A number. -/
def writeNumber : Number → List Char
  | .int n => (toString n).toList
  | .real x => x.format.toList

/-- A document that holds no others; an empty list stands for the rest. -/
def writeScalar : Json → List Char
  | null => "null".toList
  | bool b => if b then "true".toList else "false".toList
  | number n => writeNumber n
  | string s => writeString s
  | array _ | object _ => []

/-! ## On one line -/

mutual

/-- A document without blanks. -/
def writeCompact : Json → List Char
  | array items => '[' :: writeCompactItems items ++ [']']
  | object members => '{' :: writeCompactMembers members ++ ['}']
  | scalar => writeScalar scalar

/-- Items with commas between them. -/
def writeCompactItems : List Json → List Char
  | [] => []
  | [item] => writeCompact item
  | item :: items => writeCompact item ++ ',' :: writeCompactItems items

/-- Members with commas between them. -/
def writeCompactMembers : List (String × Json) → List Char
  | [] => []
  | [member] => writeString member.1 ++ ':' :: writeCompact member.2
  | member :: members =>
    writeString member.1 ++ ':' :: writeCompact member.2 ++ ',' :: writeCompactMembers members

end

/-- The text of a document without blanks. -/
def compact (value : Json) : String := String.ofList (writeCompact value)

/-! ## With a line for each part -/

/-- A new line at some depth. -/
def newLine (depth : Nat) : List Char := '\n' :: List.replicate (4 * depth) ' '

mutual

/-- A document at some depth. -/
def writePretty (depth : Nat) : Json → List Char
  | array [] => ['[', ']']
  | array items => '[' :: writePrettyItems (depth + 1) items ++ newLine depth ++ [']']
  | object [] => ['{', '}']
  | object members => '{' :: writePrettyMembers (depth + 1) members ++ newLine depth ++ ['}']
  | scalar => writeScalar scalar

/-- Items, each on its line. -/
def writePrettyItems (depth : Nat) : List Json → List Char
  | [] => []
  | [item] => newLine depth ++ writePretty depth item
  | item :: items => newLine depth ++ writePretty depth item ++ ',' :: writePrettyItems depth items

/-- Members, each on its line. -/
def writePrettyMembers (depth : Nat) : List (String × Json) → List Char
  | [] => []
  | [member] => writePrettyMember depth member
  | member :: members => writePrettyMember depth member ++ ',' :: writePrettyMembers depth members

/-- One member on its line. -/
def writePrettyMember (depth : Nat) : String × Json → List Char
  | (key, value) => newLine depth ++ writeString key ++ ':' :: ' ' :: writePretty depth value

end

/-- The text of a document with a line for every item and member. -/
def pretty (value : Json) : String := String.ofList (writePretty 0 value)

end Json
end KernelRegistry
