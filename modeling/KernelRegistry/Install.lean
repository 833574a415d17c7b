import KernelRegistry.FileTree.Copy
import KernelRegistry.KernelSpec
import KernelRegistry.Request
import KernelRegistry.Template

/-!
# Installing

The kernelspec is copied as it is, and then its kernel file is made anew from the template.  A step
that fails leaves what the steps before it did.

* `Site` — the file tree that is worked on, and what was logged.
* `Report` — what was installed.
* `Request.install` — installs what is asked for.
* `Request.execute` — the same for the registries of a machine, with a line before and after.
-/

set_option autoImplicit false
namespace KernelRegistry

/-- How important a line of the log is. -/
inductive Level where
  | info
  | warning
  deriving DecidableEq, Repr

/-- A line of the log. -/
structure LogLine where
  level : Level
  message : String
  deriving DecidableEq, Repr

/-- An installation changes files, and it logs lines as it goes; both outlive a failure. -/
structure Site where
  tree : FileTree
  log : List LogLine := []

/-- A step of an installation. -/
abbrev Installing := EStateM InstallError Site

namespace Installing

/-- Logs a line. -/
def note (level : Level) (message : String) : Installing Unit :=
  modify fun site => { site with log := site.log ++ [⟨level, message⟩] }

/-- A result that changes nothing. -/
def result {α : Type} : Except InstallError α → Installing α
  | .ok a => pure a
  | .error e => throw e

/-- Changes files.  An error is reported with the operation and its path. -/
def change {α : Type} (operation : String) (p : Path) (action : FileTree.Action α) :
    Installing α := fun site =>
  match action site.tree with
  | .ok a tree => .ok a { site with tree }
  | .error e tree => .error (.fileSystem operation p (.file e)) { site with tree }

end Installing

/-- The account that a successful installation gives of itself. -/
structure Report where
  kernelName : String
  destination : Path
  /-- The table for the environment of the kernel. -/
  environment : Environment
  /-- Whether another kernel gave way, which is logged. -/
  replaced : Bool
  deriving DecidableEq

namespace Request

open Installing

section Operations

variable [FileTree.Disk]

/-- The directory that a kernel is installed into. -/
def destination (resolver : Resolver) (m : Machine) (r : Request) : Except InstallError Path :=
  resolver.kernelDirectory m r.registry r.manifest.kernelName

/-- Removes what is at the destination, if that is allowed; says whether there was something. -/
def clear (working : Location) (r : Request) (destination : Path) : Installing Bool := do
  if !(← get).tree.existsAt working destination then return false
  else if !r.replace then throw (.alreadyInstalled destination)
  else do
    note .info ("Removing existing kernelspec at " ++ destination.display)
    change "remove" destination (FileTree.removeAll working destination)

/-- Makes the kernel file from the template. -/
def writeKernelFile (working : Location) (r : Request) (destination : Path) : Installing Unit := do
  let template := r.manifest.template
  let text ← change "read" template (FileTree.readText working template)
  let rendered ← result <|
    (Template.render text destination r.environment).mapError (·.error template)
  for message in KernelSpec.problemMessages rendered do
    note .warning message
  let file := destination.joinText kernelFileName
  change "write" file (FileTree.writeFile working file (Text.encode rendered))

/-- Installs what is asked for. -/
def install (listing : FileTree.Listing) (resolver : Resolver) (m : Machine) (r : Request) :
    Installing Report := do
  let destination ← result (r.destination resolver m)
  note .info
    ("Installing kernelspec '" ++ r.manifest.kernelName ++ "' into " ++ destination.display)
  let replaced ← r.clear m.working destination
  let bundle := r.manifest.bundle
  let _ ← change "copy kernelspec" bundle (FileTree.copyTree listing m.working bundle destination)
  r.writeKernelFile m.working destination
  return {
    kernelName := r.manifest.kernelName
    destination
    environment := r.environment
    replaced
  }

/-- The resolver for the registries of a machine. -/
def resolver (m : Machine) (r : Request) : Resolver where
  directories := .ofMachine m
  interpreter := r.interpreter

/-- Installs what is asked for into a registry of the machine. -/
def execute (listing : FileTree.Listing) (m : Machine) (r : Request) : Installing Report := do
  note .info ("Installing the " ++ r.manifest.shownName ++ " kernel...")
  let report ← r.install listing (r.resolver m) m
  if report.replaced then note .info "Replaced the previously installed kernelspec"
  return report

end Operations

end Request

/-- The line that is printed after an installation. -/
def Report.line (r : Report) : String :=
  "Installed " ++ r.kernelName ++ " kernel into \"" ++ r.destination.display ++ "\"\n"

end KernelRegistry
