import KernelRegistry.Decimal.Numeral
import KernelRegistry.Table
import KernelRegistry.Text.Blank
import KernelRegistry.Text.Quoted

/-!
# Parameters

A parameter is an option of the command line whose value becomes an environment variable of the
installed kernel.

* `Separator`, `Kind`, `Parameter` — what a manifest declares.
* `Refusal` — why a declaration or a value is not acceptable.
* `Parameter.check` — whether a declaration is acceptable.
* `Parameter.resolve` — the value that a written value stands for: its alias, looked up once, if it
  is of the kind.
* `Parameter.apply` — puts a value into the environment table: values of a list are appended, any
  other value replaces the one before.
-/

set_option autoImplicit false
namespace KernelRegistry

/-- Environment variables with their values. -/
abbrev Environment := Table String

/-- The values of a list share one variable, so something has to stand between them. -/
inductive Separator where
  /-- The separator of lists of paths. -/
  | path
  /-- The separator inside a path. -/
  | file
  | literal (text : String)
  deriving DecidableEq, Repr

/-- The text of a separator. -/
def Separator.text : Separator → String
  | path => ":"
  | file => "/"
  | literal text => text

/-- The kinds of values that a parameter takes. -/
inductive Kind where
  /-- Any text. -/
  | string
  /-- A text that is read as a number. -/
  | number
  /-- Any texts, joined by the separator. -/
  | list (separator : Separator)
  /-- One of some texts. -/
  | oneOf (values : List String)
  deriving DecidableEq, Repr

/-- An option of the command line that sets an environment variable. -/
structure Parameter where
  name : String
  variableName : String
  kind : Kind
  description : Option String := none
  aliases : Table String := .empty
  defaultValue : Option String := none
  deriving DecidableEq

/-! ## Refusals -/

/-- Why a declaration or a value is not acceptable. -/
inductive Refusal where
  | badVariable (name : String)
  | badName
  | reservedName
  | noValues
  | declaredTwice
  | unknown
  | notNumber (value : String)
  | notAmong (values : List String) (value : String)
  deriving DecidableEq, Repr

/-- The names of the installer's own options. -/
def reservedNames : List String := [
  "user", "sys-prefix", "sys_prefix", "prefix", "replace", "help", "legacy", "python", "manifest",
  "param", "params", "debug", "version"
  ]

/-- The wording of a refusal. -/
def Refusal.message : Refusal → String
  | badVariable name =>
    "environment variable name must match '[a-zA-Z_][a-zA-Z0-9_]*' but was '" ++ name ++ "'"
  | badName => "name must match '[a-zA-Z][-_a-zA-Z0-9]*'"
  | reservedName => "name cannot be one of " ++ Text.quotedList reservedNames
  | noValues => "one_of parameter declares no values"
  | declaredTwice => "declared more than once"
  | unknown => "no such parameter"
  | notNumber value => "expects a number value but was given '" ++ value ++ "'"
  | notAmong values value =>
    "expects one of " ++ Text.quotedList values ++ " but was given '" ++ value ++ "'"

/-- A first character and further ones, each of a class. -/
def hasForm (first more : Char → Bool) (s : String) : Bool :=
  match s.toList with
  | c :: cs => first c && cs.all more
  | [] => false

/-- Names that every shell takes for an environment variable. -/
def isVariableName (s : String) : Bool :=
  hasForm (fun c => c.isAlpha || c = '_') (fun c => c.isAlphanum || c = '_') s

/-- Names that can stand behind two dashes. -/
def isOptionName (s : String) : Bool :=
  hasForm Char.isAlpha (fun c => c.isAlphanum || c = '-' || c = '_') s

namespace Parameter

/-! ## Values -/

/-- An alias stands for its value, any other text for itself.  Values of aliases are not looked up
again. -/
def expand (p : Parameter) (raw : String) : String := (p.aliases.get? raw).getD raw

/-- Checks a value against its kind. -/
def accept (kind : Kind) (value : String) : Except Refusal Unit :=
  match kind with
  | .number => if Decimal.isNumeral (Text.trim value) then .ok () else .error (.notNumber value)
  | .oneOf values => if values.contains value then .ok () else .error (.notAmong values value)
  | .string | .list _ => .ok ()

/-- The value that a written value stands for, if it is acceptable. -/
def resolve (p : Parameter) (raw : String) : Except Refusal String :=
  (accept p.kind (p.expand raw)).map fun _ => p.expand raw

/-- The value of the variable after a further value. -/
def combined (p : Parameter) (value : String) (present : Option String) : String :=
  match p.kind, present with
  | .list separator, some text => text ++ separator.text ++ value
  | _, _ => value

/-- Puts a value into the table. -/
def apply (p : Parameter) (value : String) (env : Environment) : Environment :=
  env.insert p.variableName (p.combined value (env.get? p.variableName))

/-! ## Declarations -/

/-- Refuses on a condition. -/
def refuseIf (condition : Bool) (refusal : Refusal) : Except Refusal Unit :=
  if condition then .error refusal else .ok ()

/-- Checks a declaration.  The first fault counts, so the order of the tests can be seen. -/
def check (p : Parameter) : Except Refusal Unit := do
  refuseIf (!isVariableName p.variableName) (.badVariable p.variableName)
  refuseIf (!isOptionName p.name) .badName
  refuseIf (reservedNames.contains p.name) .reservedName
  refuseIf (p.kind = .oneOf []) .noValues
  match p.defaultValue with
  | some value => (p.resolve value).map fun _ => ()
  | none => .ok ()

/-- The values to choose from, for a help text. -/
def choices? (p : Parameter) : Option String :=
  match p.kind with
  | .oneOf values => some ("[possible values: " ++ ", ".intercalate values ++ "]")
  | _ => none

/-- The help text of the option. -/
def help? (p : Parameter) : Option String :=
  match p.description, p.choices? with
  | some description, some choices => some (description ++ " " ++ choices)
  | some description, none => some description
  | none, choices => choices

end Parameter
end KernelRegistry
