import KernelRegistry.Json.Skip

/-!
# Documents of a wanted form

Readers that take a document of one form only.  A document of another form is refused where it was
recognised: a list or an object at its bracket, anything else after it.

* `readText`, `readOptional`, `readList`, `readTable` — texts, what may be null, lists and tables.
* `Fields` — what a record expects: names, and how each value changes the record.
* `readRecord` — a record as an object, whose unknown members are passed over, or as a list with
  the values in the order of the fields.
* `closedCurly` — a field that is given a second time is reported where reading stops when the
  object is closed after its name, if it can be.
-/

set_option autoImplicit false
namespace KernelRegistry
namespace Json

variable {α β σ : Type}

/-- Messages call a document by its form, since it may be too large to show. -/
def Found.ofValue : Json → Found
  | .null => .null
  | .bool b => .bool b
  | .number n => .number n
  | .string s => .string s
  | .array _ => .sequence
  | .object _ => .map

/-- Why the document at the front is not the one expected; no blank stands before it. -/
def mismatch (expected : String) (input : List Char) : Failure :=
  match input with
  | '[' :: _ => .at (.wrongType .sequence expected) input
  | '{' :: _ => .at (.wrongType .map expected) input
  | _ =>
    match readScalar input with
    | .ok step => .at (.wrongType (.ofValue step.value) expected) step.rest
    | .error failure => failure

/-- A string. -/
def readText (expected : String) : Reader String := fun input =>
  match h : skipBlank input with
  | '"' :: rest => do
    let text ← readString rest
    return (text.map String.ofList).afterMark h
  | other => .error (mismatch expected other)

/-- A value, or null. -/
def readOptional (value : Reader α) : Reader (Option α) := fun input =>
  match h : skipBlank input with
  | 'n' :: rest => do
    let ⟨rest', h'⟩ ← readWord ['u', 'l', 'l'] rest
    return ⟨none, rest', Nat.lt_of_le_of_lt h' (skipBlank_length_lt h)⟩
  | _ => (value input).map (·.map some)

/-- A list of values. -/
def readList (item : Reader α) : Reader (List α) := fun input =>
  match h : skipBlank input with
  | '[' :: rest => (readItems item rest).map (·.afterMark h)
  | other => .error (mismatch "a sequence" other)

/-- A table; of members with the same key the last one is kept. -/
def readTable (value : Reader α) : Reader (Table α) := fun input =>
  match h : skipBlank input with
  | '{' :: rest => do
    let members ← readMembers (fun _ _ => afterColon value) rest
    return (members.map Table.ofEntries).afterMark h
  | other => .error (mismatch "a map" other)

/-! ## Records -/

/-- The text after an object that is closed here, if it can be.  The reader closes an object before
it reports a fault that belongs to no byte of the text. -/
def closedCurly (input : List Char) : List Char :=
  match skipBlank input with
  | '}' :: rest => rest
  | rest => rest

/-- A field of a record: how its value changes the record, and whether it may be missing. -/
structure Field (σ : Type) where
  name : String
  read : Reader (σ → σ)
  required : Bool := false

/-- The fields of a record, in order, and how the record is called in messages. -/
structure Fields (σ : Type) where
  title : String
  fields : List (Field σ)

/-- A field with the given reader of its value. -/
def Field.of (name : String) (value : Reader α) (set : α → σ → σ) : Field σ :=
  ⟨name, fun input => (value input).map (·.map set), false⟩

/-- The value of a member: a field may occur once, anything else is passed over. -/
def Fields.readMember (record : Fields σ) (before : List String) (key : String) :
    Reader (σ → σ) := fun input =>
  match record.fields.find? (·.name = key) with
  | none => afterColon (fun rest => (skipValue rest).map (·.map fun _ => id)) input
  | some field =>
    if before.contains key then .error (.at (.duplicateField key) (closedCurly input))
    else afterColon field.read input

/-- Applies changes in order. -/
def applyAll (changes : List (σ → σ)) (start : σ) : σ :=
  changes.foldl (fun record change => change record) start

/-- The values of a record as a list, in the order of the fields; values may be missing at the
end.  `index` is the number of values read. -/
def readRow (title : String) (count index : Nat) (fields : List (Field σ)) (input : List Char) :
    Except Failure (Step input (List (σ → σ))) :=
  match fields with
  | [] =>
    match h : skipBlank input with
    | [] => .error (.at .endInList [])
    | ']' :: rest => .ok ⟨[], rest, skipBlank_length_lt h⟩
    | ',' :: rest =>
      match skipBlank rest with
      | ']' :: rest' => .error (.past .trailingComma (']' :: rest'))
      | other => .error (.past .trailingCharacters other)
    | other => .error (.past .trailingCharacters other)
  | field :: fields =>
    match nextItem (index = 0) input with
    | .error failure => .error failure
    | .ok (.close rest shorter) =>
      match (field :: fields).findIdx? (·.required) with
      | some missing =>
        .error (.at (.wrongLength (index + missing)
          (title ++ " with " ++ toString count ++ " elements")) rest)
      | none => .ok ⟨[], rest, shorter⟩
    | .ok (.more rest noLonger) => do
      let head ← field.read rest
      let tail ← readRow title count (index + 1) fields head.rest
      return (head.join List.cons tail).within noLonger

/-- A record: its start is changed by the fields that are present. -/
def readRecord (record : Fields σ) (start : σ) : Reader σ := fun input =>
  match h : skipBlank input with
  | '{' :: rest => do
    let members ← readMembers record.readMember rest
    let keys := members.value.map Prod.fst
    match record.fields.find? fun field => field.required && !keys.contains field.name with
    | some field => .error (.at (.missingField field.name) members.rest)
    | none =>
      return (members.map fun ms => applyAll (ms.map Prod.snd) start).afterMark h
  | '[' :: rest => do
    let values ← readRow record.title record.fields.length 0 record.fields rest
    return (values.map (applyAll · start)).afterMark h
  | other => .error (mismatch record.title other)

end Json
end KernelRegistry
