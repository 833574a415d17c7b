import KernelRegistry.Program.Script

/-!
# Running scripts

A script prints, sets variables and ends with a status.  The commands it does not know itself are
given to whoever runs the script.

* `Shell` — what a script has done so far.
* `Shell.fields` — the fields of a word: its parameters replaced, and split at blanks.
* `Shell.builtin?` — the commands that a script knows.
* `Shell.run` — runs the commands of a script.
-/

set_option autoImplicit false
namespace KernelRegistry
namespace Program

open Text (Bytes)

/-- The state of a script between two commands. -/
structure Shell where
  /-- The name that the script was called by. -/
  name : List Char
  arguments : List (List Char) := []
  bindings : List (List Char × List Char) := []
  /-- The working directory. -/
  directory : List Char := []
  status : Nat := 0
  out : List Char := []
  err : List Char := []
  /-- The script has ended, so its other commands are not run. -/
  ended : Bool := false
  /-- Was it killed? -/
  killed : Bool := false
  /-- A command that fails ends the script. -/
  strict : Bool := false

/-- Runs programs with their arguments. -/
abbrev Launcher := List (List Char) → Except LaunchError Finished

/-- The effect of one command on the script that it stands in. -/
structure Effect where
  status : Nat := 0
  out : List Char := []
  err : List Char := []
  ends : Bool := false
  kills : Bool := false

namespace Shell

/-! ## Words -/

/-- The number of the process of a script, which scripts use to name themselves. -/
def processNumber : List Char := ['2']

/-- The digits of a number. -/
def numeral (n : Nat) : List Char := Nat.toDigits 10 n

/-- The number with the given digits. -/
def number? (cs : List Char) : Option Nat :=
  if !cs.isEmpty && cs.all Char.isDigit then
    some (cs.foldl (fun n c => n * 10 + (c.toNat - '0'.toNat)) 0)
  else none

/-- The value of a parameter. -/
def value (s : Shell) (name : List Char) : List Char :=
  match number? name with
  | some 0 => s.name
  | some (n + 1) => (s.arguments[n]?).getD []
  | none =>
    match name with
    | ['#'] => numeral s.arguments.length
    | ['?'] => numeral s.status
    | ['$'] => processNumber
    | ['@'] | ['*'] => spaced s.arguments
    | _ => (s.bindings.lookup name).getD []

/-- Fields that are finished, and the one that is open. -/
abbrev Splitting := List (List Char) × Option (List Char)

/-- Adds text to the open field. -/
def extend (f : Splitting) (cs : List Char) : Splitting := (f.1, some (f.2.getD [] ++ cs))

/-- Finishes the open field, if there is one. -/
def finish (f : Splitting) : Splitting := (f.1 ++ f.2.toList, none)

/-- Adds a piece of a word.  Only what stands outside quotes is split. -/
def addPiece (s : Shell) (f : Splitting) (piece : Piece) : Splitting :=
  match piece with
  | .text cs => extend f cs
  | .parameter name quoted =>
    if name = ['@'] && quoted then
      match s.arguments with
      | [] => f
      | first :: others => others.foldl (fun f cs => extend (finish f) cs) (extend f first)
    else if quoted then extend f (s.value name)
    else
      (s.value name).foldl
        (fun f c => if c = ' ' || c = '\t' || c = '\n' then finish f else extend f [c]) f

/-- The fields of a word. -/
def fields (s : Shell) (word : List Piece) : List (List Char) :=
  if word.isEmpty then [[]] else (finish (word.foldl s.addPiece ([], none))).1

/-- The text of a word that is not split. -/
def text (s : Shell) (word : List Piece) : List Char :=
  word.flatMap fun
    | .text cs => cs
    | .parameter name _ => s.value name

/-- Names that a script can give to a value. -/
def isVariableName (cs : List Char) : Bool :=
  match cs with
  | [] => false
  | c :: _ => !c.isDigit && cs.all fun c => c.isAlphanum || c = '_'

/-- Name and value of a word that sets a variable. -/
def assignment? (word : List Piece) : Option (List Char × List Piece) :=
  match word.span (· ≠ .text ['=']) with
  | (name, _ :: value) =>
    let name := name.flatMap fun
      | .text cs => cs
      | .parameter .. => [' ']
    if isVariableName name then some (name, value) else none
  | _ => none

/-- Sets a variable. -/
def set (s : Shell) (name value : List Char) : Shell :=
  { s with bindings := (name, value) :: s.bindings }

/-! ## Commands -/

/-- A complaint about a command. -/
def complaint (s : Shell) (line : Nat) (text : String) : List Char :=
  s.name ++ ": ".toList ++ numeral line ++ ": ".toList ++ text.toList ++ ['\n']

/-- Compares texts. -/
def test (arguments : List (List Char)) : Bool :=
  match arguments with
  | [a] => !a.isEmpty
  | [op, a] =>
    if op = ['-', 'n'] then !a.isEmpty
    else if op = ['-', 'z'] then a.isEmpty
    else op = ['!'] && a.isEmpty
  | [a, op, b] => if op = ['='] then a = b else op = ['!', '='] && a ≠ b
  | _ => false

/-- Ends the script with a status. -/
def exit (s : Shell) (line : Nat) (arguments : List (List Char)) : Effect :=
  match arguments with
  | [] => { status := s.status, ends := true }
  | argument :: _ =>
    match number? argument with
    | some n => { status := n % 256, ends := true }
    | none =>
      { status := 2, ends := true
        err := s.complaint line ("exit: Illegal number: " ++ String.ofList argument) }

/-- Sends a signal.  All signals but the one that tests whether a process is there end it. -/
def kill (arguments : List (List Char)) : Effect :=
  match arguments with
  | [] => { status := 2 }
  | _ =>
    if arguments.getLast? ≠ some processNumber then { status := 1 }
    else if arguments.head? = some ['-', '0'] then {}
    else { ends := true, kills := true }

/-- The status of an answer. -/
def statusOf (b : Bool) : Nat := if b then 0 else 1

/-- The escapes that the printing command of scripts knows. -/
def echoRules : EscapeRules := { afterZero := 3 }

/-- The commands that a script knows.  There is no line to read in an empty input. -/
def builtin? (s : Shell) (line : Nat) (name : String) (arguments : List (List Char)) :
    Option Effect :=
  match name with
  | "echo" =>
    if arguments.head? = some ['-', 'n'] then
      some { out := echoText (some echoRules) false arguments.tail }
    else some { out := echoText (some echoRules) true arguments }
  | "printf" =>
    match arguments with
    | [] => some { status := 2, err := s.complaint line "printf: usage: printf format [arg ...]" }
    | format :: arguments => some { out := printFormat false format arguments }
  | ":" | "true" | "umask" => some {}
  | "false" | "read" => some { status := 1 }
  | "pwd" => some { out := s.directory ++ ['\n'] }
  | "exit" | "return" => some (s.exit line arguments)
  | "kill" => some (kill arguments)
  | "test" => some { status := statusOf (test arguments) }
  | "[" => some { status := statusOf (test arguments.dropLast) }
  | _ => none

/-- The effect of a command that the shell does not know itself and has to find. -/
def launched (s : Shell) (line : Nat) (name : List Char)
    (ran : Except LaunchError Finished) : Effect :=
  match ran with
  | .ok f => { status := f.exitCode.getD 137, out := latin f.stdout, err := latin f.stderr }
  | .error (.refused .notFound) =>
    { status := 127, err := s.complaint line (String.ofList name ++ ": not found") }
  | .error _ =>
    { status := 126, err := s.complaint line (String.ofList name ++ ": Permission denied") }

/-! ## Outputs -/

/-- Where an output goes. -/
inductive Sink where
  | out
  | err
  | nowhere
  deriving DecidableEq, Repr

/-- Where both outputs go after a redirection.  What goes to a file is not kept. -/
def redirect (s : Shell) (sinks : Sink × Sink) (r : Redirection) : Sink × Sink :=
  let target := s.text r.target
  let sink : Sink :=
    if !r.toDescriptor then .nowhere
    else if target = ['1'] then sinks.1
    else if target = ['2'] then sinks.2
    else .nowhere
  if r.descriptor = 1 then (sink, sinks.2)
  else if r.descriptor = 2 then (sinks.1, sink)
  else sinks

/-- Prints to where an output goes. -/
def print (s : Shell) (sink : Sink) (cs : List Char) : Shell :=
  match sink with
  | .out => { s with out := s.out ++ cs }
  | .err => { s with err := s.err ++ cs }
  | .nowhere => s

/-- The script after a command. -/
def after (s : Shell) (redirections : List Redirection) (e : Effect) : Shell :=
  let sinks := redirections.foldl s.redirect (.out, .err)
  let s := (s.print sinks.1 e.out).print sinks.2 e.err
  { s with status := e.status, ended := e.ends, killed := e.kills }

/-! ## Scripts -/

/-- Runs a command that is not left out. -/
def perform (launch : Launcher) (s : Shell) (c : Command) : Shell :=
  match c.words with
  | [] => s
  | first :: words =>
    match assignment? first with
    | some (name, value) =>
      if words.isEmpty then { s.set name (s.text value) with status := 0 }
      else s.after c.redirections { status := 2 }
    | none =>
      match s.fields first ++ words.flatMap s.fields with
      | [] => { s with status := 0 }
      | name :: arguments =>
        if name = "set".toList then
          { s with strict := s.strict || arguments.contains ['-', 'e'], status := 0 }
        else if name = "exec".toList && !arguments.isEmpty then
          let effect := s.launched c.line (arguments.headD []) (launch arguments)
          s.after c.redirections { effect with ends := true }
        else
          s.after c.redirections <|
            (s.builtin? c.line (String.ofList name) arguments).getD
              (s.launched c.line name (launch (name :: arguments)))

/-- Runs a command unless the script has ended or the condition of the command is not met. -/
def step (launch : Launcher) (s : Shell) (c : Command) : Shell :=
  let wanted := match c.condition with
    | .always => true
    | .afterSuccess => s.status = 0
    | .afterFailure => s.status ≠ 0
  if s.ended || !wanted then s
  else
    let s := s.perform launch c
    if s.strict && s.status ≠ 0 && !c.tested then { s with ended := true } else s

/-- Runs the commands of a script. -/
def run (launch : Launcher) (s : Shell) (commands : List Command) : Shell :=
  commands.foldl (step launch) s

/-- A script that has ended, as whoever ran it sees it. -/
def finished (s : Shell) : Finished where
  exitCode := if s.killed then none else some s.status
  stdout := bytesOf s.out
  stderr := bytesOf s.err

end Shell
end Program
end KernelRegistry
