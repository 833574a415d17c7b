import KernelRegistry.Program.Machine
import KernelRegistry.Text.Blank
import KernelRegistry.Text.Lowercase

/-!
# Where kernels are installed

A registry is a data directory; each of its kernels has a directory named after it.

* `Registry` — which registry is meant.
* `DataDirectories` — the directories of a machine that registries are found from.
* `Resolver.dataDirectory` — the data directory of a registry.
* `Resolver.kernelDirectory` — the directory of a kernel in a registry.
-/

set_option autoImplicit false
namespace KernelRegistry

open Text (Bytes)

/-- Which registry is meant. -/
inductive Registry where
  /-- The one that all users share. -/
  | system
  /-- The one of the user. -/
  | user
  /-- The one of the environment that an interpreter belongs to. -/
  | interpreter
  /-- The one below a directory. -/
  | below (directory : Path)
  /-- The one that old notebooks look into. -/
  | legacy
  deriving DecidableEq, Repr

/-- The directories that registries are found from. -/
structure DataDirectories where
  user : Option Path := none
  system : Path
  home : Option Path := none
  deriving DecidableEq, Repr

namespace DataDirectories

/-- The data directory that all users share. -/
def sharedDirectory : Path := .ofString "/usr/local/share/jupyter"

/-- A variable that has a value which is not empty. -/
def given? (m : Machine) (name : String) : Option Path :=
  match m.value? name with
  | some value => if value.isEmpty then none else some ⟨value⟩
  | none => none

/-- The home directory of the user: the one that the environment names, or else the one that the
accounts of the system have. -/
def home? (m : Machine) : Option Path := (given? m "HOME").or m.accountHome

/-- The directory for the data of the user's programs: the one that is named, if by an absolute
path, or else one below the home directory. -/
def userData? (m : Machine) : Option Path :=
  match (m.value? "XDG_DATA_HOME").map Path.mk with
  | some p => if p.isAbsolute then some p else standard
  | none => standard
where
  /-- The one below the home directory. -/
  standard : Option Path :=
    (home? m).map fun home => home.joinText ".local/share"

/-- The directories of a machine. -/
def ofMachine (m : Machine) : DataDirectories where
  user :=
    match given? m "JUPYTER_DATA_DIR" with
    | some p => some p
    | none => (userData? m).map fun p => p.joinText "jupyter"
  system := sharedDirectory
  home := home? m

end DataDirectories

/-- The interpreter that is asked if no other one is named. -/
def defaultInterpreter : String := "python3"

/-- Only the interpreter knows which environment it belongs to, so it is run with a script that
prints it. -/
def probeArguments : List String := ["-c", "import sys; print(sys.prefix)"]

/-- A registry is found from directories that are known beforehand, or by asking an interpreter. -/
structure Resolver where
  directories : DataDirectories
  interpreter : String := defaultInterpreter

namespace Resolver

/-- The registry directory below a directory. -/
def shared (p : Path) : Path := (p.joinText "share").joinText "jupyter"

/-- The environment that the interpreter belongs to, as it reports it. -/
def environmentDirectory (r : Resolver) (m : Machine) : Except InstallError Path := do
  let report := Text.trim (← m.capture r.interpreter probeArguments)
  if report.isEmpty then
    .error (.destination ("'" ++ r.interpreter ++ "' did not report a sys.prefix"))
  else return .ofString report

/-- A directory as it is seen from the root.  A relative path says nothing if the directory that it
is seen from has been removed. -/
def absoluteDirectory (m : Machine) (p : Path) : Except InstallError Path :=
  if p.isAbsolute || m.isPlaced then .ok (Path.absolute m.directory p)
  else .error (.fileSystem "resolve prefix" p (.file .notFound))

/-- The data directory of a registry. -/
def dataDirectory (r : Resolver) (m : Machine) : Registry → Except InstallError Path
  | .system => .ok r.directories.system
  | .user =>
    match r.directories.user with
    | some p => .ok p
    | none => .error (.destination "Could not determine the per-user Jupyter data directory")
  | .interpreter => (r.environmentDirectory m).map shared
  | .below p =>
    if p.isEmpty then .ok r.directories.system
    else (absoluteDirectory m p).map shared
  | .legacy =>
    match r.directories.home with
    | some p => .ok (p.joinText ".ipython")
    | none => .error (.destination "Could not find home directory")

/-- The directory of a kernel below a data directory. -/
def kernelBelow (data : Path) (kernelName : String) : Path :=
  (data.joinText "kernels").joinText (Text.lowercase kernelName)

/-- The directory of a kernel in a registry. -/
def kernelDirectory (r : Resolver) (m : Machine) (registry : Registry) (kernelName : String) :
    Except InstallError Path :=
  (r.dataDirectory m registry).map fun data => kernelBelow data kernelName

end Resolver
end KernelRegistry
