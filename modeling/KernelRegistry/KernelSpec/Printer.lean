import KernelRegistry.KernelSpec
import KernelRegistry.Parameter.Printer

/-!
# Writing kernelspecs as documents
-/

set_option autoImplicit false
namespace KernelRegistry

/-- A kernelspec as a document; what is absent or empty is left out, the arguments excepted. -/
def KernelSpec.document (spec : KernelSpec) : Json :=
  .object (
    [("argv", .array (spec.argv.map .string))] ++
    textMember? "display_name" spec.displayName ++ textMember? "language" spec.language ++
    textMember? "interrupt_mode" spec.interruptMode ++ tableMember? "env" spec.env)

end KernelRegistry
