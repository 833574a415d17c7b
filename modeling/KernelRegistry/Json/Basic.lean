import KernelRegistry.Decimal.Binary64
import KernelRegistry.Table

/-!
# JSON documents

* `Json` — a document as it is written: the members of an object in the order of the text, a key
  possibly more than once.
* `Json.canonical` — the document that a text stands for: in every object the keys increase, and of
  members with the same key the last one in the text is kept.
* `Json.Canonical` — what it means to be of that form.
-/

set_option autoImplicit false
namespace KernelRegistry

/-- A number of a document: an integer that fits in 64 bits, signed or not, or else the
floating-point number nearest to what was written. -/
inductive Json.Number where
  | int (value : Int)
  | real (value : Binary64)
  deriving DecidableEq, Repr

/-- A document as it is written. -/
inductive Json where
  | null
  | bool (value : Bool)
  | number (value : Json.Number)
  | string (value : String)
  | array (items : List Json)
  | object (members : List (String × Json))
  deriving Repr

namespace Json

instance : Inhabited Json := ⟨null⟩

mutual

/-- The document with sorted keys, of equal keys the last member. -/
def canonical : Json → Json
  | null => null
  | bool b => bool b
  | number n => number n
  | string s => string s
  | array items => array (canonicalItems items)
  | object members => object (Entries.sorted (canonicalMembers members))

/-- Every item in its canonical form. -/
def canonicalItems : List Json → List Json
  | [] => []
  | item :: items => canonical item :: canonicalItems items

/-- Every member with its value in canonical form, none left out. -/
def canonicalMembers : List (String × Json) → List (String × Json)
  | [] => []
  | member :: members => (member.1, canonical member.2) :: canonicalMembers members

end

mutual

/-- In every object at every depth the keys increase. -/
def Canonical : Json → Prop
  | null | bool _ | number _ | string _ => True
  | array items => CanonicalItems items
  | object members => Entries.Sorted members ∧ CanonicalMembers members

def CanonicalItems : List Json → Prop
  | [] => True
  | item :: items => Canonical item ∧ CanonicalItems items

def CanonicalMembers : List (String × Json) → Prop
  | [] => True
  | member :: members => Canonical member.2 ∧ CanonicalMembers members

end

end Json
end KernelRegistry
