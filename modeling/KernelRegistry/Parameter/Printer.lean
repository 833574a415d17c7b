import KernelRegistry.Json.Basic
import KernelRegistry.Parameter.Basic

/-!
# Writing parameters as documents

* `Kind.members` — the members that belong to the kind.
* `Parameter.document` — a declaration; what is absent or empty is left out.
-/

set_option autoImplicit false
namespace KernelRegistry

open Json

/-- A separator as a document. -/
def Separator.document : Separator → Json
  | .path => .string "path"
  | .file => .string "file"
  | .literal text => .object [("literal", .string text)]

/-- The members that belong to a kind. -/
def Kind.members : Kind → List (String × Json)
  | .string => [("type", .string "string")]
  | .number => [("type", .string "number")]
  | .list separator => [("type", .string "list"), ("separator", separator.document)]
  | .oneOf values => [("type", .string "one_of"), ("values", .array (values.map .string))]

/-- A table of texts as a document. -/
def Table.document (t : Table String) : Json :=
  .object (t.entries.map fun entry => (entry.1, .string entry.2))

/-- A member for a text, if there is one. -/
def textMember? (key : String) (text : Option String) : List (String × Json) :=
  (text.map fun s => (key, Json.string s)).toList

/-- A member for a table, if it has entries. -/
def tableMember? (key : String) (t : Table String) : List (String × Json) :=
  if t.entries.isEmpty then [] else [(key, t.document)]

/-- A declaration as a document. -/
def Parameter.document (p : Parameter) : Json :=
  .object (
    [("name", .string p.name), ("env_var", .string p.variableName)] ++ p.kind.members ++
    textMember? "description" p.description ++ tableMember? "aliases" p.aliases ++
    textMember? "default" p.defaultValue)

end KernelRegistry
