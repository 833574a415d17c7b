import KernelRegistry.CommandLine.ManifestPath
import KernelRegistry.Install

/-!
# A whole run

The path of the manifest is looked for before the command line is read, because the options of the
command line are those of the manifest.  The first step that fails ends the run and decides how it
is reported.

* `Complaint` — an error in the context that it arose in, with `Complaint.report` for its wording.
* `Outcome` — what a run shows.
* `locateManifest` — the path of the manifest that a command line means.
* `run` — what a command line does on a machine.
-/

set_option autoImplicit false
namespace KernelRegistry

open Text (Bytes)

/-- An error with its causes, the nearest first. -/
structure Complaint where
  message : String
  causes : List String
  deriving DecidableEq, Repr

namespace Complaint

/-- An error on its own. -/
def ofError (e : InstallError) : Complaint := ⟨e.message, e.sources⟩

/-- An error as the cause of a larger one. -/
def within (context : String) (e : InstallError) : Complaint := ⟨context, e.message :: e.sources⟩

/-- A text behind a mark, its lines below one another. -/
def indented (mark : String) (text : String) : String :=
  let margin := String.ofList (List.replicate mark.length ' ')
  mark ++ ("\n" ++ margin).intercalate (text.splitOn "\n") ++ "\n"

/-- A number at the right of five columns. -/
def numberMark (n : Nat) : String :=
  let digits := toString n
  String.ofList (List.replicate (5 - digits.length) ' ') ++ digits ++ ": "

/-- The causes, numbered if there are several. -/
def causesText : List String → String
  | [cause] => indented "    " cause
  | causes =>
    String.join (((List.range causes.length).zip causes).map fun (n, cause) =>
      indented (numberMark n) cause)

/-- The wording of a complaint with its causes. -/
def report (c : Complaint) : String :=
  "Error: " ++ c.message ++ "\n" ++
    if c.causes.isEmpty then "" else "\nCaused by:\n" ++ causesText c.causes

end Complaint

/-- All that can be seen of a run, files aside. -/
structure Outcome where
  exitCode : Nat
  stdout : String := ""
  stderr : String := ""
  log : List LogLine := []
  deriving DecidableEq, Repr

namespace Outcome

/-- The outcome of a run that fails. -/
def failed (c : Complaint) (log : List LogLine) : Outcome where
  exitCode := 1
  stderr := c.report
  log

/-- The outcome of a run that ends with the command line. -/
def ofUsage (e : CommandLine.UsageError) : Outcome :=
  if e.isRequest then { exitCode := e.exitCode, stdout := e.message }
  else { exitCode := e.exitCode, stderr := e.message ++ "\n" }

end Outcome

/-- The context of a failure to load a manifest. -/
def manifestContext (p : Path) : String := "Failed to load installer manifest " ++ p.display

/-- The context of a failure to install. -/
def Request.context (r : Request) : String :=
  "Failed to install the " ++ r.manifest.kernelName ++ " kernel"

/-! ## The manifest -/

/-- A program looks for its manifest beside itself, but the system need not tell it where it is. -/
inductive ProgramDirectory where
  | known (directory : Path)
  /-- It cannot find itself. -/
  | unlocated (cause : Source)
  /-- The path that it finds as its own has no directory. -/
  | missing

/-- Most programs know the directory that they are in. -/
instance : Coe Path ProgramDirectory := ⟨.known⟩

/-- The path of the manifest that a command line means; `beside` is the directory of the program. -/
def manifestPath (beside : Path) (argv : List Bytes) : Path :=
  (CommandLine.givenManifest? argv.tail).getD (CommandLine.manifestBeside beside)

/-- The path of the manifest that a command line means, if it gives one or the program knows its
directory. -/
def locateManifest (program : ProgramDirectory) (argv : List Bytes) : Except InstallError Path :=
  match CommandLine.givenManifest? argv.tail with
  | some p => .ok p
  | none =>
    match program with
    | .known directory => .ok (CommandLine.manifestBeside directory)
    | .unlocated cause => .error (.fileSystem "locate executable" ⟨[]⟩ cause)
    | .missing => .error (.validation "Installer executable has no parent directory")

/-! ## Running -/

section Running

variable [FileTree.Disk]

/-- Carries out a request. -/
def Request.run (listing : FileTree.Listing) (m : Machine) (r : Request) : Outcome × FileTree :=
  match r.execute listing m { tree := m.tree } with
  | .ok report site => ({ exitCode := 0, stdout := report.line, log := site.log }, site.tree)
  | .error e site => (.failed (.within r.context e) site.log, site.tree)

/-- Runs a command line on a machine; gives what is shown, and the files afterwards. -/
def run (listing : FileTree.Listing) (program : ProgramDirectory) (m : Machine)
    (argv : List Bytes) : Outcome × FileTree :=
  match locateManifest program argv with
  | .error e => (.failed (.ofError e) [], m.tree)
  | .ok path =>
    match Manifest.load m path with
    | .error e => (.failed (.within (manifestContext path) e) [], m.tree)
    | .ok manifest =>
      match CommandLine.Invocation.parse manifest argv with
      | .error e => (.ofUsage e, m.tree)
      | .ok invocation =>
        match Request.of m manifest invocation with
        | .error e => (.failed (.ofError e) [], m.tree)
        | .ok r => r.run listing m

end Running

end KernelRegistry
