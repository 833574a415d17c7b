import KernelRegistry.Json.Typed
import KernelRegistry.Parameter.Basic

/-!
# Declarations of parameters in documents

A declaration is an object.  The members that belong to the kind are read after the others, from
the documents they were kept as; a fault in them belongs to the declaration as a whole.

* `Content` — readers of kept documents.
* `Kind.ofMembers` — the kind, from the members that are not common to all kinds.
* `Parameter.reader` — a declaration.
-/

set_option autoImplicit false
namespace KernelRegistry

open Json

/-! ## Kept documents -/

namespace Content

/-- A text. -/
def text (expected : String) : Json → Except Reason String
  | .string s => .ok s
  | other => .error (.wrongType (.ofValue other) expected)

/-- A list of texts. -/
def texts : Json → Except Reason (List String)
  | .array items => items.mapM (text "a string")
  | other => .error (.wrongType (.ofValue other) "a sequence")

/-- Nothing: null, or an object without members. -/
def nothing : Json → Except Reason Unit
  | .null | .object [] => .ok ()
  | other => .error (.wrongType (.ofValue other) "unit")

/-- An alternative by name: a text that is its name, or an object with its name as the only key
and what it holds as the value. -/
def alternative : Json → Except Reason (String × Option Json)
  | .string name => .ok (name, none)
  | .object [(name, value)] => .ok (name, some value)
  | .object _ => .error (.wrongValue .map "map with a single key")
  | other => .error (.wrongType (.ofValue other) "string or map")

end Content

/-- The names of the separators. -/
def Separator.names : List String := ["path", "file", "literal"]

/-- A separator. -/
def Separator.ofDocument (document : Json) : Except Reason Separator := do
  let (name, held) ← Content.alternative document
  match name, held with
  | "path", none => return .path
  | "path", some value => (Content.nothing value).map fun _ => .path
  | "file", none => return .file
  | "file", some value => (Content.nothing value).map fun _ => .file
  | "literal", none => .error (.wrongType .unitVariant "newtype variant")
  | "literal", some value => (Content.text "a string" value).map .literal
  | other, _ => .error (.unknownVariant other names)

namespace Kind

/-- The names of the kinds. -/
inductive Tag where
  | string
  | number
  | list
  | oneOf
  deriving DecidableEq, Repr

/-- Every kind with its name. -/
def Tag.named : List (String × Tag) :=
  [("string", .string), ("number", .number), ("list", .list), ("one_of", .oneOf)]

/-- The name of a kind; a kind may also be given by its number. -/
def Tag.ofDocument : Json → Except Reason Tag
  | .string name =>
    match named.lookup name with
    | some tag => .ok tag
    | none => .error (.unknownVariant name (named.map Prod.fst))
  | .number (.int n) =>
    if n < 0 then .error (.wrongType (.number (.int n)) "variant identifier")
    else
      match named[n.toNat]? with
      | some (_, tag) => .ok tag
      | none => .error (.wrongValue (.number (.int n)) "variant index 0 <= i < 4")
  | other => .error (.wrongType (.ofValue other) "variant identifier")

/-- The name of the kind among the members, and the other members. -/
def splitTag (found : Option Tag) : List (String × Json) →
    Except Reason (Option Tag × List (String × Json))
  | [] => .ok (found, [])
  | (key, value) :: members =>
    if key = "type" then
      match found with
      | some _ => .error (.duplicateField "type")
      | none => do splitTag (some (← Tag.ofDocument value)) members
    else do
      let (tag, others) ← splitTag found members
      return (tag, (key, value) :: others)

/-- The value of a member that occurs at most once, read as it is found. -/
def only {α : Type} (name : String) (read : Json → Except Reason α) (found : Option α) :
    List (String × Json) → Except Reason (Option α)
  | [] => .ok found
  | (key, value) :: members =>
    if key = name then
      match found with
      | some _ => .error (.duplicateField name)
      | none => do only name read (some (← read value)) members
    else only name read found members

/-- The separator of a list for which none is given. -/
def defaultSeparator : Separator := .literal " "

/-- The kind, from the members that are not common to all kinds. -/
def ofMembers (members : List (String × Json)) : Except Reason Kind := do
  let (tag, others) ← splitTag none members
  match tag with
  | none => .error (.missingField "type")
  | some .string => return .string
  | some .number => return .number
  | some .list =>
    let separator ← only "separator" Separator.ofDocument none others
    return .list (separator.getD defaultSeparator)
  | some .oneOf => return .oneOf ((← only "values" Content.texts none others).getD [])

end Kind

namespace Parameter

/-- A declaration while it is read. -/
structure Draft where
  name : Option String := none
  variableName : Option String := none
  description : Option String := none
  aliases : Table String := .empty
  defaultValue : Option String := none
  /-- The members that belong to the kind. -/
  others : List (String × Json) := []

/-- The members that all kinds have. -/
def fields : Fields Draft where
  title := "struct ParameterSpec"
  fields := [
    .of "name" (readText "a string") fun v d => { d with name := some v },
    .of "env_var" (readText "a string") fun v d => { d with variableName := some v },
    .of "description" (readOptional (readText "a string")) fun v d => { d with description := v },
    .of "aliases" (readTable (readText "a string")) fun v d => { d with aliases := v },
    .of "default" (readOptional (readText "a string")) fun v d => { d with defaultValue := v }
    ]

/-- The value of a member; one that belongs to the kind is kept as it is. -/
def readMember (depth : Nat) (before : List String) (key : String) : Reader (Draft → Draft) :=
  if fields.fields.any (·.name = key) then fields.readMember before key
  else afterColon fun rest => do
    let value ← readValue depth rest
    return value.map fun v d => { d with others := d.others ++ [(key, v)] }

/-- The declaration that was read. -/
def Draft.complete (d : Draft) : Except Reason Parameter := do
  let some name := d.name | .error (.missingField "name")
  let some variableName := d.variableName | .error (.missingField "env_var")
  let kind ← Kind.ofMembers d.others
  return ⟨name, variableName, kind, d.description, d.aliases, d.defaultValue⟩

/-- A declaration, with fewer than `depth` brackets open at a time. -/
def reader (depth : Nat) : Reader Parameter := fun input =>
  match h : skipBlank input with
  | '{' :: rest => do
    let members ← readMembers (readMember (depth - 1)) rest
    match (applyAll (members.value.map Prod.snd) {}).complete with
    | .ok p => return (members.map fun _ => p).afterMark h
    | .error reason => .error (.at reason members.rest)
  | other => .error (mismatch fields.title other)

/-- The declaration that a text is. -/
def parse (text : String) : Except Failure Parameter :=
  readWhole? (reader depthLimit) text

end Parameter
end KernelRegistry
