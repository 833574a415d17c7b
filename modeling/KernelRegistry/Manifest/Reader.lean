import KernelRegistry.Error
import KernelRegistry.Manifest.Basic
import KernelRegistry.Parameter.Reader

/-!
# Manifests in documents

* `Manifest.reader` — a manifest as an object or as a list.
* `Manifest.parse` — a text that is a manifest.
* `Manifest.ofText` — an acceptable manifest, found at a path.
* `Defect.error` — how a defect is reported.
-/

set_option autoImplicit false
namespace KernelRegistry

open Json

namespace Manifest

/-- The members of a manifest. -/
def fields : Fields Manifest where
  title := "struct InstallerManifest"
  fields := [
    { Field.of "kernel_name" (readText "a string") fun v (m : Manifest) =>
        { m with kernelName := v } with required := true },
    .of "kernel_directory" (readText "path string") fun v m =>
      { m with kernelDirectory := .ofString v },
    .of "display_name" (readOptional (readText "a string")) fun v m => { m with displayName := v },
    .of "parameters" (readList (Parameter.reader (depthLimit - 2))) fun v m =>
      { m with parameters := v }
    ]

/-- A manifest. -/
def reader : Reader Manifest := readRecord fields ⟨"", .ofString "kernel", none, [], ⟨[]⟩⟩

/-- The manifest that a text is. -/
def parse (text : String) : Except Failure Manifest := readWhole? reader text

end Manifest

/-- How a defect is reported. -/
def Defect.error : Defect → InstallError
  | badKernelName name => .validation (badKernelNameMessage name)
  | parameter name refusal => .parameter name refusal.message

/-- How a defect of the manifest at a path is reported. -/
def Defect.errorAt (path : Path) : Defect → InstallError
  | parameter name refusal => .parameter name refusal.message
  | defect => .manifest defect.error.message path none

/-- The manifest with the given text, found at a path, if it is acceptable. -/
def Manifest.ofText (path : Path) (text : String) : Except InstallError Manifest :=
  match Manifest.parse text with
  | .error failure =>
    .error (.manifest "Manifest is not valid JSON" path (some (.document failure text)))
  | .ok m =>
    let m := { m with directory := path.parent?.getD ⟨[]⟩ }
    match m.check with
    | .ok () => .ok m
    | .error defect => .error (defect.errorAt path)

end KernelRegistry
