import KernelRegistry.Json.Literal
import KernelRegistry.Json.Numeral

/-!
# Reading documents

A reader takes a value off the front of a text.  Lists and objects are read by the same two
functions whatever is in them, so that documents and the records of a known type are read alike.

* `nextItem`, `nextMember` — what stands between the items of a list and the members of an object.
* `readItems`, `readMembers` — lists and objects over any reader of what they hold.
* `readScalar` — null, truth values, numbers and strings.
* `readValue` — any document up to a depth of nesting.
* `Json.parse` — a text that is one document.
-/

set_option autoImplicit false
namespace KernelRegistry
namespace Json

/-! ## Lists and objects -/

/-- The next thing in a list or in an object. -/
inductive Next (input : List Char) where
  /-- The bracket that closes it, which was read. -/
  | close (rest : List Char) (shorter : rest.length < input.length)
  /-- Something in it, which was not read. -/
  | more (rest : List Char) (noLonger : rest.length ≤ input.length)

namespace Next

variable {input rest : List Char} {c : Char}

/-- The bracket comes next. -/
def closedBy (h : skipBlank input = c :: rest) : Next input := .close rest (skipBlank_length_lt h)

/-- The next thing is an item or a member. -/
def fromMark (h : skipBlank input = c :: rest) : Next input :=
  .more (c :: rest) (h ▸ length_skipBlank_le input)

/-- The next thing is the mark before an item or a member. -/
def afterMark (h : skipBlank input = c :: rest) : Next input :=
  .more rest (length_le_of_mark h)

end Next

/-- The next item of a list; `first` if there was none before. -/
def nextItem (first : Bool) (input : List Char) : Except Failure (Next input) :=
  match h : skipBlank input with
  | [] => .error (.at .endInList [])
  | ']' :: _ => .ok (.closedBy h)
  | c :: rest =>
    if first then .ok (.fromMark h)
    else if c = ',' then
      match h' : skipBlank rest with
      | [] => .error (.at .endInValue [])
      | ']' :: rest' => .error (.past .trailingComma (']' :: rest'))
      | item => .ok (.more item (by
          have := skipBlank_length_lt h
          have := length_skipBlank_le rest
          rw [← h']; omega))
    else .error (.past .expectedListEnd (c :: rest))

/-- The next member of an object, without the quote before its key. -/
def nextMember (first : Bool) (input : List Char) : Except Failure (Next input) :=
  match h : skipBlank input with
  | [] => .error (.at .endInObject [])
  | '}' :: _ => .ok (.closedBy h)
  | c :: rest =>
    if first then
      if c = '"' then .ok (.afterMark h)
      else .error (.past .keyNotString (c :: rest))
    else if c = ',' then
      match h' : skipBlank rest with
      | [] => .error (.at .endInValue [])
      | '"' :: key => .ok (.more key (by
          have := skipBlank_length_lt h
          have := skipBlank_length_lt h'
          omega))
      | '}' :: rest' => .error (.past .trailingComma ('}' :: rest'))
      | other => .error (.past .keyNotString other)
    else .error (.past .expectedObjectEnd (c :: rest))

/-- The colon after a key. -/
def readColon (input : List Char) : Except Failure (Step input Unit) :=
  match h : skipBlank input with
  | [] => .error (.at .endInObject [])
  | ':' :: rest => .ok ⟨(), rest, skipBlank_length_lt h⟩
  | other => .error (.past .expectedColon other)

variable {α : Type}

/-- The items of a list after some that were read, up to the closing bracket. -/
def readItemsFrom (item : Reader α) (first : Bool) (input : List Char) :
    Except Failure (Step input (List α)) :=
  match nextItem first input with
  | .error failure => .error failure
  | .ok (.close rest shorter) => .ok ⟨[], rest, shorter⟩
  | .ok (.more rest noLonger) => do
    let head ← item rest
    let tail ← readItemsFrom item false head.rest
    return (head.join List.cons tail).within noLonger
termination_by input.length
decreasing_by
  have := head.shorter
  omega

/-- The members of an object after some with the given keys, up to the closing bracket.  The reader
of a member starts after the key; it is given the keys before and the key. -/
def readMembersFrom (member : List String → String → Reader α) (keys : List String)
    (first : Bool) (input : List Char) : Except Failure (Step input (List (String × α))) :=
  match nextMember first input with
  | .error failure => .error failure
  | .ok (.close rest shorter) => .ok ⟨[], rest, shorter⟩
  | .ok (.more rest noLonger) => do
    let key ← readString rest
    let name := String.ofList key.value
    let head ← member keys name key.rest
    let tail ← readMembersFrom member (keys ++ [name]) false head.rest
    let members := head.join (fun v ms => (name, v) :: ms) tail
    return (key.join (fun _ ms => ms) members).within noLonger
termination_by input.length
decreasing_by
  have := key.shorter
  have := head.shorter
  omega

/-- The items of a list, the opening bracket being read. -/
def readItems (item : Reader α) : Reader (List α) := readItemsFrom item true

/-- The members of an object, the opening bracket being read. -/
def readMembers (member : List String → String → Reader α) : Reader (List (String × α)) :=
  readMembersFrom member [] true

/-- A colon and a value. -/
def afterColon (value : Reader α) : Reader α := fun input => do
  let colon ← readColon input
  let step ← value colon.rest
  return step.within (Nat.le_of_lt colon.shorter)

/-! ## Values -/

/-- A document that is neither list nor object; no blank stands before it. -/
def readScalar (input : List Char) : Except Failure (Step input Json) :=
  match input with
  | 'n' :: rest => word ['u', 'l', 'l'] .null rest
  | 't' :: rest => word ['r', 'u', 'e'] (.bool true) rest
  | 'f' :: rest => word ['a', 'l', 's', 'e'] (.bool false) rest
  | '"' :: rest => do
    let text ← readString rest
    return (text.map fun cs => Json.string (String.ofList cs)).cons '"'
  | [] => .error (.at .endInValue [])
  | c :: rest =>
    if c = '-' || c.isDigit then (readNumber (c :: rest)).map (·.map Json.number)
    else .error (.past .expectedValue (c :: rest))
where
  word {c : Char} (letters : List Char) (value : Json) (rest : List Char) :
      Except Failure (Step (c :: rest) Json) := do
    let ⟨rest', h⟩ ← readWord letters rest
    return ⟨value, rest', by simp only [List.length_cons]; omega⟩

/-- A document, with fewer than `depth` brackets open at a time. -/
def readValue (depth : Nat) (input : List Char) : Except Failure (Step input Json) :=
  match h : skipBlank input with
  | '[' :: rest =>
    match depth with
    | depth + 2 => do
      let items ← readItems (readValue (depth + 1)) rest
      return (items.map Json.array).afterMark h
    | _ => .error (.past .tooDeep ('[' :: rest))
  | '{' :: rest =>
    match depth with
    | depth + 2 => do
      let members ← readMembers (fun _ _ => afterColon (readValue (depth + 1))) rest
      return (members.map Json.object).afterMark h
    | _ => .error (.past .tooDeep ('{' :: rest))
  | scalar => (readScalar scalar).map (·.within (h ▸ length_skipBlank_le input))
termination_by depth

/-- How many brackets may not be open at a time. -/
def depthLimit : Nat := 128

/-- Nothing but blanks is left. -/
def readEnd (input : List Char) : Except Failure Unit :=
  match skipBlank input with
  | [] => .ok ()
  | rest => .error (.past .trailingCharacters rest)

/-- The value of a text that a reader takes as a whole. -/
def readWhole? (reader : Reader α) (text : String) : Except Failure α := do
  let step ← reader text.toList
  readEnd step.rest
  return step.value

/-- The document that a text is. -/
def parse (text : String) : Except Failure Json :=
  readWhole? (readValue depthLimit) text

end Json
end KernelRegistry
