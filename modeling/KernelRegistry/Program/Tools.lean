import KernelRegistry.FileTree.Walk
import KernelRegistry.Program.Shell

/-!
# A few programs

To run an installation that asks an interpreter, there has to be one.  These are a few tools that
every system has and scripts for one of them, enough to write an interpreter as a script.  Of what
they do, only as much is here as such scripts need: they read an empty input and change no files.

A machine may have any programs instead, and nothing that is proved about installations depends on
which.

* `Surroundings` — a file tree, a working directory and environment variables.
* `Surroundings.executable` — the program at a path.
* `Surroundings.search` — the program that a command names.
* `Surroundings.launch` — what running a command gives.
-/

set_option autoImplicit false
namespace KernelRegistry

open Text (Bytes)

/-- Programs see files, the directory they work in, and environment variables. -/
structure Surroundings where
  tree : FileTree
  /-- The working directory. -/
  working : Location
  /-- The environment variables. -/
  bindings : List (Bytes × Bytes)

namespace Surroundings

open Program

/-- The value of an environment variable. -/
def value? (s : Surroundings) (name : String) : Option Bytes :=
  s.bindings.lookup (Text.encode name)

/-- The path of the working directory. -/
def directory (s : Surroundings) : Path := ⟨Path.slash :: Path.joinSegments s.working⟩

/-- Whether the working directory is there.  A directory that someone works in can be removed. -/
def isPlaced (s : Surroundings) : Bool := (s.tree.get? s.working).isSome

/-! ## Finding programs -/

/-- A program that every system has. -/
inductive Tool where
  | shell
  | echo
  | printf
  | succeed
  | fail
  | cat
  | pwd
  | env
  | sleep
  deriving DecidableEq, Repr

/-- The tool with a name. -/
def Tool.ofName? (name : String) : Option Tool :=
  match name with
  | "sh" => some shell
  | "echo" => some echo
  | "printf" => some printf
  | "true" => some succeed
  | "false" => some fail
  | "cat" => some cat
  | "pwd" => some pwd
  | "env" => some env
  | "sleep" => some sleep
  | _ => none

/-- The directories that hold tools. -/
def toolDirectories : List Bytes := ["/bin/", "/usr/bin/"].map Text.encode

/-- The tool at a path. -/
def Tool.at? (p : Path) : Option Tool :=
  toolDirectories.findSome? fun directory =>
    if directory.isPrefixOf p.bytes then
      (Text.decode? (p.bytes.drop directory.length)).bind Tool.ofName?
    else none

/-- The two things that can be run: a tool, or a script for a tool. -/
inductive Executable where
  | tool (t : Tool)
  | script (content : Bytes)
  deriving DecidableEq, Repr

/-- A file is run if anyone at all has permission to run it; who asks is not modelled. -/
def isExecutableMode (mode : Nat) : Bool := mode &&& 0o111 ≠ 0

/-- The program at a path. -/
def executable (s : Surroundings) (p : Path) : Except FileError Executable :=
  match Tool.at? p with
  | some t => .ok (.tool t)
  | none => do
    match ← s.tree.find s.working true p with
    | (_, .file mode content) =>
      if isExecutableMode mode then .ok (.script content) else .error .permissionDenied
    | _ => .error .permissionDenied

/-- Tries one path after the other.  A program that may not be run is remembered while the search
goes on. -/
def firstExecutable (s : Surroundings) (failure : FileError) : List Path →
    Except FileError (Path × Executable)
  | [] => .error failure
  | p :: ps =>
    match s.executable p with
    | .ok e => .ok (p, e)
    | .error .permissionDenied => firstExecutable s .permissionDenied ps
    | .error .notFound | .error .notDirectory => firstExecutable s failure ps
    | .error e => .error e

/-- The byte that separates directories in a list of them. -/
def colon : UInt8 := 0x3A

/-- The directories that commands are searched in. -/
def searchPath (s : Surroundings) : List Path :=
  (((s.value? "PATH").getD (Text.encode "/bin:/usr/bin")).splitOn colon).map Path.mk

/-- The paths that a command may mean: the command itself if it has a slash. -/
def candidates (s : Surroundings) (command : Path) : List Path :=
  if command.bytes.contains Path.slash then [command] else s.searchPath.map (·.join command)

/-- The program that a command names. -/
def search (s : Surroundings) (command : Path) : Except FileError (Path × Executable) :=
  if command.isEmpty then .error .notFound
  else if command.bytes.contains Path.slash then (s.executable command).map ((command, ·))
  else if FileTree.nameLimit < command.bytes.length then .error .nameTooLong
  else s.firstExecutable .notFound (s.candidates command)

/-! ## Running programs -/

/-- The blanks that separate a program from its argument on the first line of a script. -/
def isBlankByte (b : UInt8) : Bool := b = 0x20 || b = 0x09

/-- The interpreter that the first line of a script names, and the argument for it. -/
def interpreter? (content : Bytes) : Option (Bytes × Option Bytes) :=
  match content with
  | 0x23 :: 0x21 :: rest =>
    let line := (rest.takeWhile (· ≠ 0x0A)).dropWhile isBlankByte
    let line := (line.reverse.dropWhile isBlankByte).reverse
    let name := line.takeWhile (!isBlankByte ·)
    let argument := (line.drop name.length).dropWhile isBlankByte
    if name.isEmpty then none
    else some (name, if argument.isEmpty then none else some argument)
  | _ => none

/-- The output of the program that prints its arguments. -/
def echoed (arguments : List (List Char)) : List Char :=
  let isFlag (argument : List Char) : Bool :=
    match argument with
    | '-' :: letters => !letters.isEmpty && letters.all fun c => c = 'n' || c = 'e' || c = 'E'
    | _ => false
  let flags := (arguments.takeWhile isFlag).flatMap List.tail
  let escapes := (flags.filter (· ≠ 'n')).getLast? = some 'e'
  let rules : EscapeRules := { afterZero := 3, hexadecimal := true }
  echoText (if escapes then some rules else none) (!flags.contains 'n') (arguments.dropWhile isFlag)

/-- A program that succeeds after printing something. -/
def printed (cs : List Char) : Finished := { stdout := bytesOf cs }

/-- A program that fails after complaining. -/
def failed (status : Nat) (complaint : String) : Finished :=
  { exitCode := some status, stderr := Text.encode complaint }

/-- The files with the given names one after the other, a complaint for each that is missing. -/
def concatenated (s : Surroundings) (names : List Bytes) : Finished :=
  names.foldl
    (fun done name =>
      match s.tree.find s.working true ⟨name⟩ with
      | .ok (_, .file _ content) => { done with stdout := done.stdout ++ content }
      | .ok _ =>
        { done with
          exitCode := some 1
          stderr := done.stderr ++
            Text.encode "cat: " ++ name ++ Text.encode ": Is a directory\n" }
      | .error _ =>
        { done with
          exitCode := some 1
          stderr := done.stderr ++
            Text.encode "cat: " ++ name ++ Text.encode ": No such file or directory\n" })
    {}

/-- A script with its name and arguments. -/
def runScript (s : Surroundings) (launch : Launcher) (strict : Bool) (name : Bytes)
    (arguments : List Bytes) (content : Bytes) : Finished :=
  let directory := latin s.directory.bytes
  let bindings := s.bindings.map fun (name, value) => (latin name, latin value)
  let shell : Shell := {
    name := latin name, arguments := arguments.map latin, strict, directory
    bindings := ("PWD".toList, directory) :: bindings
  }
  (shell.run launch (Command.parse (latin content))).finished

/-- An argument of `echo` that is taken for options if all of its letters are. -/
def isOption (argument : Bytes) : Bool := argument.head? = some 0x2D && 1 < argument.length

/-- The shell with its arguments: a script, the path of one, or nothing. -/
def runShell (s : Surroundings) (launch : Launcher) (calledAs : Bytes) (arguments : List Bytes) :
    Finished :=
  let options := (arguments.takeWhile isOption).flatMap (·.drop 1)
  let operands := arguments.dropWhile isOption
  let strict := options.contains 0x65
  let name := Text.decodeLossy calledAs
  if options.contains 0x63 then
    match operands with
    | [] => failed 2 (name ++ ": 0: -c requires an argument\n")
    | content :: rest => s.runScript launch strict (rest.headD calledAs) rest.tail content
  else
    match operands with
    | [] => {}
    | file :: rest =>
      match s.tree.find s.working true ⟨file⟩ with
      | .ok (_, .file _ content) => s.runScript launch strict file rest content
      | _ => failed 2 (name ++ ": 0: cannot open " ++ Text.decodeLossy file ++ ": No such file\n")

/-- A tool with its arguments. -/
def runTool (s : Surroundings) (launch : Launcher) (calledAs : Bytes) (arguments : List Bytes)
    (t : Tool) : Finished :=
  match t with
  | .shell => s.runShell launch calledAs arguments
  | .echo => printed (echoed (arguments.map latin))
  | .printf =>
    match arguments.map latin with
    | [] => failed 1 "printf: missing operand\nTry 'printf --help' for more information.\n"
    | format :: arguments => printed (printFormat true format arguments)
  | .succeed | .sleep => {}
  | .fail => { exitCode := some 1 }
  | .cat => s.concatenated arguments
  | .pwd => { stdout := s.directory.bytes ++ [0x0A] }
  | .env =>
    match arguments with
    | [] =>
      { stdout := s.bindings.flatMap fun (name, value) => name ++ 0x3D :: value ++ [0x0A] }
    | command :: _ =>
      match launch (arguments.map latin) with
      | .ok f => f
      | .error _ =>
        failed 127 ("env: '" ++ Text.decodeLossy command ++ "': No such file or directory\n")

/-- How many programs run one another. -/
def nestingLimit : Nat := 64

/-- How many scripts may be interpreters of one another. -/
def interpreterLimit : Nat := 5

/-- The tool that runs a program in the end, what it is called by, and its arguments.  A script is
handed to its interpreter. -/
def handOver (s : Surroundings) : Nat → Bytes → Path → List Bytes → Executable →
    Except FileError (Tool × Bytes × List Bytes)
  | _, calledAs, _, arguments, .tool t => .ok (t, calledAs, arguments)
  | 0, _, _, _, .script _ => .error .tooManyLinks
  | scripts + 1, _, p, arguments, .script content =>
    match interpreter? content with
    | none => .error .notExecutable
    | some (name, argument) => do
      let e ← s.executable ⟨name⟩
      s.handOver scripts name ⟨name⟩ (argument.toList ++ p.bytes :: arguments) e

/-- Runs a command at a nesting depth. -/
def launchNested (s : Surroundings) : Nat → List Bytes → Except LaunchError Finished
  | 0, _ => .error (.refused .argumentsTooLong)
  | _, [] => .error (.refused .notFound)
  | depth + 1, command :: arguments =>
    if (command :: arguments).any (·.contains 0) then .error .nulByte
    else
      let launch : Launcher := fun words => launchNested s depth (words.map bytesOf)
      match s.search ⟨command⟩ with
      | .error e => .error (.refused e)
      | .ok (p, e) =>
        match s.handOver interpreterLimit command p arguments e with
        | .error e => .error (.refused e)
        | .ok (t, calledAs, arguments) => .ok (s.runTool launch calledAs arguments t)

/-- Runs a command with arguments. -/
def launch (s : Surroundings) (command : String) (arguments : List String) :
    Except LaunchError Finished :=
  s.launchNested nestingLimit ((command :: arguments).map Text.encode)

end Surroundings
end KernelRegistry
