import KernelRegistry.CommandLine.Arguments
import KernelRegistry.Destination
import KernelRegistry.FileTree.Actions
import KernelRegistry.Manifest.Reader

/-!
# What is to be installed

A request is all that an installation needs to know.  It is made before the first file is touched,
so what can be wrong with a manifest or a command line is found until then.

* `Manifest.load` — the manifest in a file.
* `Arguments.registry` — the registry that the command line chooses.
* `Request` — a manifest together with all that the command line says.
* `Request.check` — whether there is a kernelspec to install.
* `Request.ofArguments`, `Request.of` — the request that a command line makes, without and with
  this check.
-/

set_option autoImplicit false
namespace KernelRegistry

/-- The manifest in a file. -/
def Manifest.load [FileTree.Disk] (m : Machine) (p : Path) : Except InstallError Manifest :=
  match FileTree.readText m.working p m.tree with
  | .ok text _ => Manifest.ofText p text
  | .error e _ => .error (.fileSystem "read" p (.file e))

/-- The registry that the command line chooses.  An empty directory chooses none. -/
def CommandLine.Arguments.registry (a : CommandLine.Arguments) : Registry :=
  if a.user then .user
  else if a.sysPrefix then .interpreter
  else if a.legacy then .legacy
  else
    match a.location with
    | some p => if p.isEmpty then .system else .below p
    | none => .system

/-- An installation that is asked for. -/
structure Request where
  manifest : Manifest
  registry : Registry
  /-- Whether a kernel that is installed in the same place may give way. -/
  replace : Bool
  interpreter : String
  /-- The table for the environment of the kernel. -/
  environment : Environment
  debug : Bool
  deriving DecidableEq

namespace Request

/-- Checks that there is a kernelspec before anything is touched, so that this cause of failure
costs no one the old kernel. -/
def check (m : Machine) (r : Request) : Except InstallError Unit :=
  let bundle := r.manifest.bundle
  let template := r.manifest.template
  if !m.tree.isDirectoryAt m.working bundle then
    .error (.validation ("Kernel directory not found: " ++ bundle.display))
  else if !m.tree.isFileAt m.working template then
    .error (.validation
      (kernelFileName ++ " not found in kernel directory: " ++ template.display))
  else .ok ()

/-- The request that arguments make with a table, whether or not there is a kernelspec. -/
def ofArguments (manifest : Manifest) (environment : Environment)
    (arguments : CommandLine.Arguments) : Request where
  manifest
  registry := arguments.registry
  replace := arguments.replace
  interpreter := arguments.python.getD defaultInterpreter
  environment
  debug := arguments.debug

/-- The request that a command line makes. -/
def of (m : Machine) (manifest : Manifest) (invocation : CommandLine.Invocation) :
    Except InstallError Request := do
  let environment ← (invocation.settings.environment manifest).mapError Defect.error
  let r := ofArguments manifest environment invocation.arguments
  r.check m
  return r

end Request
end KernelRegistry
