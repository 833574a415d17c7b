import KernelRegistry.CommandLine.Help
import KernelRegistry.CommandLine.Usage
import KernelRegistry.Settings

/-!
# Reading the command line

The arguments are read from left to right.  A value that stands in an argument of its own is
checked when the next option begins or the command line ends, so an argument that nobody expects is
found before it.

* `Shape` — what an argument looks like.
* `Occurrence` — an option that was given, with its value.
* `Progress.read` — reads one argument.
* `occurrences` — the options of a command line.
* `Arguments` — what was given, option by option.
* `Invocation.parse` — the arguments and the settings of a command line.
-/

set_option autoImplicit false
namespace KernelRegistry
namespace CommandLine

open Text (Bytes)

/-! ## Shapes -/

/-- The shape of an argument, which does not depend on the options that there are. -/
inductive Shape where
  /-- Two dashes, after which nothing is an option. -/
  | escape
  /-- Two dashes and a name, perhaps with a value behind an equals sign. -/
  | long (name : Bytes) (value : Option Bytes)
  /-- A dash and letters. -/
  | short (letters : Bytes)
  | plain
  deriving DecidableEq, Repr

/-- The byte of the dash. -/
def dash : UInt8 := 0x2D

/-- The byte of the equals sign. -/
def equals : UInt8 := 0x3D

/-- The part before the first equals sign, and the part after it if there is one. -/
def splitEquals (bytes : Bytes) : Bytes × Option Bytes :=
  match bytes.span (· ≠ equals) with
  | (name, _ :: value) => (name, some value)
  | (name, []) => (name, none)

/-- The dashes decide.  A dash on its own is no option, since it often stands for a stream. -/
def Shape.of (argument : Bytes) : Shape :=
  match argument with
  | a :: b :: rest =>
    if a ≠ dash then .plain
    else if b ≠ dash then .short (b :: rest)
    else if rest.isEmpty then .escape
    else .long (splitEquals rest).1 (splitEquals rest).2
  | _ => .plain

/-! ## Occurrences -/

/-- An option that was given.  Settings keep the place of their argument. -/
inductive Occurrence where
  | switch (s : Switch)
  | held (h : Held) (value : Bytes)
  | assignment (position : Nat) (name value : String)
  | parameter (position : Nat) (name raw : String)
  deriving DecidableEq, Repr

/-- The option that was given. -/
def Occurrence.choosesLocation : Occurrence → Bool
  | switch s => (Key.switch s).choosesLocation
  | held h _ => (Key.held h).choosesLocation
  | _ => false

/-- The option as messages show it, if it may be given once only. -/
def Occurrence.once? : Occurrence → Option String
  | switch s => some (Key.switch s).shown
  | held h _ => some (Key.held h).shown
  | _ => none

/-- The text of a value. -/
def textOf (value : Bytes) : Except UsageError String :=
  match Text.decode? value with
  | some s => .ok s
  | none => .error .notText

/-- A value that was refused. -/
def refused (key : Key) (value reason : String) : UsageError :=
  .refusedValue value key.shown reason

/-- The wording of a refusal that concerns a parameter. -/
def parameterReason (name : String) (refusal : Refusal) : String :=
  "Parameter '" ++ name ++ "': " ++ refusal.message

/-- An assignment to a parameter that exists. -/
def readAssignment (m : Manifest) (position : Nat) (text : String) :
    Except UsageError Occurrence :=
  match splitAssignment text with
  | none =>
    .error (refused .assignment text ("Validation error: " ++ badAssignmentMessage text))
  | some (name, value) =>
    if (m.parameter? name).isSome then .ok (.assignment position name value)
    else .error (refused .assignment text (parameterReason name .unknown))

/-- A value that the parameter accepts. -/
def readParameter (p : Parameter) (position : Nat) (raw : String) :
    Except UsageError Occurrence :=
  match p.resolve raw with
  | .ok _ => .ok (.parameter position p.name raw)
  | .error refusal => .error (refused (.parameter p) raw (parameterReason p.name refusal))

/-- The value of an option that may be given once. -/
def readHeld (h : Held) (value : Bytes) : Except UsageError Occurrence :=
  match h with
  | .location => .ok (.held h value)
  | .python => (textOf value).map fun _ => .held h value
  | .manifest =>
    if value.isEmpty then .error (.missingValue (Key.held h).shown) else .ok (.held h value)

/-! ## One argument after the other -/

/-- How far the command line was read. -/
structure Progress where
  /-- The options that were given, in order. -/
  given : List Occurrence := []
  /-- The option that waits, and its value with its position if it came already. -/
  waiting : Option (Key × Option (Nat × Bytes)) := none
  /-- Were the options ended? -/
  escaped : Bool := false

namespace Progress

/-- Refuses an option that was given before and may be given once only. -/
def checkOnce (given : List Occurrence) (key : Key) : Except UsageError Unit :=
  if given.any (·.once? = some key.shown) then .error (.repeated key.shown) else .ok ()

/-- Takes note of an option with a value. -/
def record (m : Manifest) (given : List Occurrence) (key : Key) (position : Nat) (value : Bytes) :
    Except UsageError (List Occurrence) := do
  match key with
  | .held h => do
    checkOnce given key
    return given ++ [← readHeld h value]
  | .assignment => return given ++ [← readAssignment m position (← textOf value)]
  | .parameter p => return given ++ [← readParameter p position (← textOf value)]
  | .switch _ | .help | .version => return given

/-- Takes note of an option without a value. -/
def recordSwitch (m : Manifest) (calledAs : String) (given : List Occurrence) (key : Key) :
    Except UsageError (List Occurrence) := do
  match key with
  | .switch s => do
    checkOnce given key
    return given ++ [.switch s]
  | .help => .error (.help (helpText m calledAs))
  | .version => .error (.version versionText)
  | .held _ | .assignment | .parameter _ => return given

/-- Takes note of the option that waits. -/
def settle (m : Manifest) (p : Progress) : Except UsageError (List Occurrence) :=
  match p.waiting with
  | none => .ok p.given
  | some (key, none) => .error (.missingValue key.shown)
  | some (key, some (position, value)) => record m p.given key position value

/-- Reads an option that is given by its name. -/
def readLong (m : Manifest) (calledAs : String) (p : Progress) (position : Nat) (name : Bytes)
    (value : Option Bytes) : Except UsageError Progress :=
  match (Text.decode? name).bind (key? m) with
  | none => .error (.unexpected ("--" ++ Text.decodeLossy name))
  | some key =>
    if key.takesValue then do
      let given ← p.settle m
      match value with
      | some value =>
        return { p with given := ← record m given key position value, waiting := none }
      | none => return { p with given, waiting := some (key, none) }
    else
      match value with
      | some value => .error (.unwantedValue (Text.decodeLossy value) key.shown)
      | none => do
        let given ← p.settle m
        return { p with given := ← recordSwitch m calledAs given key, waiting := none }

/-- Reads letters, the first of which decides: all known letters end the run. -/
def readShort (m : Manifest) (calledAs : String) (p : Progress) (letters : Bytes) :
    Except UsageError Progress :=
  match Text.pieces letters with
  | some c :: _ =>
    match letterKey? c with
    | some key => do
      let given ← p.settle m
      return { p with given := ← recordSwitch m calledAs given key, waiting := none }
    | none => .error (.unexpected (String.ofList ['-', c]))
  | _ => .error (.unexpected ("-" ++ Text.decodeLossy letters))

/-- Reads an argument that is no option: the value that the last option waits for. -/
def readPlain (p : Progress) (position : Nat) (argument : Bytes) : Except UsageError Progress :=
  match p.waiting with
  | some (key, none) => .ok { p with waiting := some (key, some (position, argument)) }
  | _ => .error (.unexpected (Text.decodeLossy argument))

/-- Reads one argument. -/
def read (m : Manifest) (calledAs : String) (p : Progress) (argument : Nat × Bytes) :
    Except UsageError Progress :=
  if p.escaped then .error (.unexpected (Text.decodeLossy argument.2))
  else
    match Shape.of argument.2 with
    | .escape => .ok { p with escaped := true }
    | .long name value => p.readLong m calledAs argument.1 name value
    | .short letters => p.readShort m calledAs letters
    | .plain => p.readPlain argument.1 argument.2

end Progress

/-- Refuses more than one option that chooses the location. -/
def checkLocations (given : List Occurrence) : Except UsageError Unit :=
  match (given.filter (·.choosesLocation)).filterMap (·.once?) with
  | first :: other :: others => .error (.conflict first (other :: others))
  | _ => .ok ()

/-- The options of a command line; arguments are numbered from zero. -/
def occurrences (m : Manifest) (calledAs : String) (arguments : List Bytes) :
    Except UsageError (List Occurrence) := do
  let p ← ((List.range arguments.length).zip arguments).foldlM (Progress.read m calledAs) {}
  let given ← p.settle m
  checkLocations given
  return given

/-! ## The result -/

/-- The options by their names, since their order does not matter any more. -/
structure Arguments where
  user : Bool
  sysPrefix : Bool
  location : Option Path
  legacy : Bool
  replace : Bool
  python : Option String
  manifest : Option Path
  /-- The settings that were written as assignments. -/
  assignments : List String
  debug : Bool
  deriving DecidableEq, Repr

/-- The value of an option that may be given once. -/
def heldValue? (given : List Occurrence) (h : Held) : Option Bytes :=
  given.findSome? fun
    | .held h' value => if h' = h then some value else none
    | _ => none

/-- Sorts the options that were given by their names. -/
def Arguments.of (given : List Occurrence) : Arguments where
  user := given.contains (.switch .user)
  sysPrefix := given.contains (.switch .sysPrefix)
  location := (heldValue? given .location).map Path.mk
  legacy := given.contains (.switch .legacy)
  replace := given.contains (.switch .replace)
  python := (heldValue? given .python).map Text.decodeLossy
  manifest := (heldValue? given .manifest).map Path.mk
  assignments := given.filterMap fun
    | .assignment _ name value => some (name ++ "=" ++ value)
    | _ => none
  debug := given.contains (.switch .debug)

/-- The setting of a parameter that was given by the option of that name. -/
def Occurrence.direct? (name : String) : Occurrence → Option Setting
  | parameter position name' raw => if name' = name then some ⟨position, name', raw⟩ else none
  | _ => none

/-- The setting that was given as an assignment. -/
def Occurrence.assigned? : Occurrence → Option Setting
  | assignment position name value => some ⟨position, name, value⟩
  | _ => none

/-- The settings that were given: those of each parameter by its option, in the order of the
manifest, and then the assignments. -/
def settingsOf (m : Manifest) (given : List Occurrence) : Settings :=
  m.parameters.flatMap (fun p => given.filterMap (Occurrence.direct? p.name)) ++
    given.filterMap Occurrence.assigned?

/-- A command line that was understood. -/
structure Invocation where
  arguments : Arguments
  settings : Settings
  deriving DecidableEq, Repr

/-- The name that a program was called by: the last component of the path, if it is text. -/
def calledName (program : Option Bytes) : String :=
  match program.bind fun bytes => (Path.mk bytes).components.getLast? with
  | some (.name bytes) => (Text.decode? bytes).getD programName
  | _ => programName

/-- The command line of a program, its own name in front. -/
def Invocation.parse (m : Manifest) (argv : List Bytes) : Except UsageError Invocation := do
  let given ← occurrences m (calledName argv.head?) argv.tail
  return ⟨.of given, settingsOf m given⟩

end CommandLine
end KernelRegistry
