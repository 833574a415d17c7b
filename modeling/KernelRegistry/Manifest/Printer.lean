import KernelRegistry.Manifest.Basic
import KernelRegistry.Parameter.Printer

/-!
# Writing manifests as documents
-/

set_option autoImplicit false
namespace KernelRegistry

/-- A manifest as a document; the directory it was found in is no part of it. -/
def Manifest.document (m : Manifest) : Json :=
  .object (
    [("kernel_name", .string m.kernelName),
      ("kernel_directory", .string m.kernelDirectory.display)] ++
    textMember? "display_name" m.displayName ++
    [("parameters", .array (m.parameters.map Parameter.document))])

end KernelRegistry
