import KernelRegistry.Manifest.Basic

/-!
# Options of the command line

What options there are is known only when the manifest has been read.  So an option is one of those
that every command line has, or it is the parameter of a manifest by its name.

* `Switch` — an option without a value.
* `Held` — an option with one value, given at most once.
* `Key` — any option, those of the manifest included.
* `Key.shown` — an option as messages show it.
* `key?` — the option with a name.
-/

set_option autoImplicit false
namespace KernelRegistry
namespace CommandLine

/-- An option without a value. -/
inductive Switch where
  | user
  | sysPrefix
  | legacy
  | replace
  | debug
  deriving DecidableEq, Repr

/-- An option with one value that may be given once. -/
inductive Held where
  | location
  | python
  | manifest
  deriving DecidableEq, Repr

/-- An option. -/
inductive Key where
  | switch (s : Switch)
  | held (h : Held)
  /-- A setting written as an assignment. -/
  | assignment
  /-- A setting of a parameter. -/
  | parameter (p : Parameter)
  | help
  | version
  deriving DecidableEq

/-- The name of a switch. -/
def Switch.name : Switch → String
  | user => "user"
  | sysPrefix => "sys-prefix"
  | legacy => "legacy"
  | replace => "replace"
  | debug => "debug"

/-- The name of an option with one value. -/
def Held.name : Held → String
  | location => "prefix"
  | python => "python"
  | manifest => "manifest"

/-- The name of the value of an option, as help texts show it. -/
def Held.valueName : Held → String
  | location => "PREFIX"
  | python => "PYTHON"
  | manifest => "PATH"

/-- The name of an option. -/
def Key.name : Key → String
  | switch s => s.name
  | held h => h.name
  | assignment => "param"
  | parameter p => p.name
  | help => "help"
  | version => "version"

/-- The name of the value of an option, if it takes one. -/
def Key.valueName? : Key → Option String
  | held h => some h.valueName
  | assignment => some "NAME=VALUE"
  | parameter p => some p.variableName
  | switch _ | help | version => none

/-- Whether the option takes a value. -/
def Key.takesValue (key : Key) : Bool := key.valueName?.isSome

/-- An option with its value as messages show it. -/
def Key.shown (key : Key) : String :=
  "--" ++ key.name ++
    match key.valueName? with
    | some name => " <" ++ name ++ ">"
    | none => ""

/-- The installer's own options, in the order of the help text. -/
def ownKeys : List Key := [
  .switch .user, .switch .sysPrefix, .held .location, .switch .legacy, .switch .replace,
  .held .python, .held .manifest, .assignment, .switch .debug
  ]

/-- All options, in the order of the help text. -/
def keys (m : Manifest) : List Key :=
  ownKeys ++ m.parameters.map Key.parameter ++ [.help, .version]

/-- The option with a name. -/
def key? (m : Manifest) (name : String) : Option Key :=
  (keys m).find? (·.name = name)

/-- The option with a letter. -/
def letterKey? (c : Char) : Option Key :=
  if c = 'h' then some .help else if c = 'V' then some .version else none

/-- The options that choose a location, of which only one may be given. -/
def Key.choosesLocation : Key → Bool
  | switch .user | switch .sysPrefix | switch .legacy | held .location => true
  | _ => false

end CommandLine
end KernelRegistry
