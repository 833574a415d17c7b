import KernelRegistry.Parameter.Basic
import KernelRegistry.Path
import KernelRegistry.Text.Lowercase

/-!
# Manifests

A manifest names a kernel, the directory with its kernelspec, and the parameters that the command
line offers.

* `Manifest` — what a manifest declares, and the directory it was found in.
* `Defect` — why a manifest is not acceptable.
* `Manifest.check` — whether it is, the first defect counting.
* `Manifest.parameter?` — a parameter by name.
* `Manifest.bundle`, `Manifest.template` — the kernelspec directory and its template.
-/

set_option autoImplicit false
namespace KernelRegistry

/-- A manifest says what gets installed, and which parameters whoever installs it can set. -/
structure Manifest where
  kernelName : String
  /-- The directory with the kernelspec, seen from the manifest. -/
  kernelDirectory : Path := .ofString "kernel"
  displayName : Option String := none
  parameters : List Parameter := []
  /-- The directory the manifest was found in. -/
  directory : Path := ⟨[]⟩
  deriving DecidableEq

/-- Why a manifest is not acceptable. -/
inductive Defect where
  | badKernelName (name : String)
  | parameter (name : String) (refusal : Refusal)
  deriving DecidableEq, Repr

/-- The name of the file that describes a kernel in its directory. -/
def kernelFileName : String := "kernel.json"

/-- The name of the file that a manifest is looked for in. -/
def manifestFileName : String := "installer.json"

/-- The characters of a registered name. -/
def isRegistryChar (c : Char) : Bool :=
  c.isLower || c.isDigit || c = '.' || c = '_' || c = '-'

/-- The names that can be the name of a directory in a registry.  Case does not matter, since the
directory has the name in lower case. -/
def isKernelName (s : String) : Bool :=
  hasForm isRegistryChar isRegistryChar (Text.lowercase s)

/-- The wording of a kernel name that is not acceptable. -/
def badKernelNameMessage (name : String) : String :=
  "Invalid kernel name '" ++ name ++ "': only letters, digits, '.', '_' and '-' are allowed"

namespace Manifest

/-- Checks declarations one after the other.  The names of those before are kept, because a name may
be declared only once. -/
def checkParameters (before : List String) : List Parameter → Except Defect Unit
  | [] => .ok ()
  | p :: ps => do
    match p.check with
    | .error refusal => .error (.parameter p.name refusal)
    | .ok () =>
      if before.contains p.name then .error (.parameter p.name .declaredTwice)
      else checkParameters (p.name :: before) ps

/-- Checks a manifest.  The first defect counts. -/
def check (m : Manifest) : Except Defect Unit :=
  if isKernelName m.kernelName then checkParameters [] m.parameters
  else .error (.badKernelName m.kernelName)

/-- The first parameter with a name. -/
def parameter? (m : Manifest) (name : String) : Option Parameter :=
  m.parameters.find? (·.name = name)

/-- The directory with the kernelspec. -/
def bundle (m : Manifest) : Path := m.directory.join m.kernelDirectory

/-- The template of the kernelspec. -/
def template (m : Manifest) : Path := m.bundle.joinText kernelFileName

/-- The name shown to the user. -/
def shownName (m : Manifest) : String := m.displayName.getD m.kernelName

/-- The line that explains the installer in its help text. -/
def about (m : Manifest) : String := "Install the " ++ m.kernelName ++ " kernel."

end Manifest
end KernelRegistry
