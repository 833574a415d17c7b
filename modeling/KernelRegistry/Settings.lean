import KernelRegistry.Manifest.Basic

/-!
# Settings

The values that a command line gives to parameters, each with its position.  They are collected in
any order and count in the order of their positions.

* `Setting` — a written value for a parameter at a position.
* `Settings.ordered` — the settings by position; of equal positions the one collected first comes
  first.
* `Settings.environment` — the table that they make: all values in order, then the defaults of the
  parameters whose variable has no value yet.
* `splitAssignment` — name and value of a setting that is written as one text.
-/

set_option autoImplicit false
namespace KernelRegistry

/-- A written value for a parameter. -/
structure Setting where
  position : Nat
  parameter : String
  raw : String
  deriving DecidableEq, Repr

/-- Settings in the order in which they were collected. -/
abbrev Settings := List Setting

namespace Settings

/-- Puts a setting in front of the first one that does not come before it. -/
def insert (s : Setting) : Settings → Settings
  | [] => [s]
  | t :: rest => if s.position ≤ t.position then s :: t :: rest else t :: insert s rest

/-- The settings by position. -/
def ordered (settings : Settings) : Settings := settings.foldr insert []

/-- Puts the value of a setting into the table. -/
def addSetting (m : Manifest) (env : Environment) (s : Setting) : Except Defect Environment :=
  match m.parameter? s.parameter with
  | none => .error (.parameter s.parameter .unknown)
  | some p =>
    match p.resolve s.raw with
    | .ok value => .ok (p.apply value env)
    | .error refusal => .error (.parameter p.name refusal)

/-- Puts the default of a parameter into the table, unless its variable is there. -/
def addDefault (env : Environment) (p : Parameter) : Except Defect Environment :=
  match p.defaultValue with
  | none => .ok env
  | some raw =>
    if env.contains p.variableName then .ok env
    else
      match p.resolve raw with
      | .ok value => .ok (env.insert p.variableName value)
      | .error refusal => .error (.parameter p.name refusal)

/-- The environment table of a manifest with settings. -/
def environment (settings : Settings) (m : Manifest) : Except Defect Environment := do
  let env ← settings.ordered.foldlM (addSetting m) Table.empty
  m.parameters.foldlM addDefault env

end Settings

/-- Parts a text at its first equals sign, if that leaves a name in front. -/
def splitAssignment (text : String) : Option (String × String) :=
  match text.toList.span (· ≠ '=') with
  | ([], _) => none
  | (name, _ :: value) => some (String.ofList name, String.ofList value)
  | (_, []) => none

/-- The wording for a text that is no assignment. -/
def badAssignmentMessage (text : String) : String :=
  "Parameter must be of the form 'NAME=VALUE' but was '" ++ text ++ "'"

end KernelRegistry
