import KernelRegistry.Json.Printer
import KernelRegistry.Json.Typed

/-!
# Kernelspecs

* `KernelSpec` — what a kernel file says about a kernel.
* `KernelSpec.parse` — the kernelspec that a text is; members it does not know are passed over.
* `KernelSpec.problems` — what would keep the kernel from being launched.
-/

set_option autoImplicit false
namespace KernelRegistry

open Json

/-- How a kernel is launched. -/
structure KernelSpec where
  argv : List String := []
  displayName : Option String := none
  language : Option String := none
  interruptMode : Option String := none
  env : Table String := .empty
  deriving DecidableEq

namespace KernelSpec

/-- A text that may be null. -/
def optionalText : Reader (Option String) := readOptional (readText "a string")

/-- The members of a kernelspec. -/
def fields : Fields KernelSpec where
  title := "struct KernelSpec"
  fields := [
    .of "argv" (readList (readText "a string")) fun v s => { s with argv := v },
    .of "display_name" optionalText fun v s => { s with displayName := v },
    .of "language" optionalText fun v s => { s with language := v },
    .of "interrupt_mode" optionalText fun v s => { s with interruptMode := v },
    .of "env" (readTable (readText "a string")) fun v s => { s with env := v }
    ]

/-- The kernelspec that a text is. -/
def parse (text : String) : Except Failure KernelSpec :=
  readWhole? (readRecord fields {}) text

/-- A problem of an installed kernel file.  It does not stop an installation, but Jupyter would not
launch the kernel. -/
inductive Problem where
  | mismatch (failure : Failure)
  | noArgv
  | noDisplayName

/-- The wording of a problem of the given text. -/
def Problem.message (text : String) : Problem → String
  | mismatch failure =>
    "kernel.json does not match the kernelspec format: " ++ failure.message text.toList
  | noArgv => "kernel.json has no 'argv' to launch the kernel with"
  | noDisplayName => "kernel.json has no 'display_name'"

/-- The problems of a text: it is no kernelspec, or one that lacks something. -/
def problems (text : String) : List Problem :=
  match parse text with
  | .error failure => [.mismatch failure]
  | .ok spec =>
    (if spec.argv.isEmpty then [.noArgv] else []) ++
      (if spec.displayName.isNone then [.noDisplayName] else [])

/-- The problems of a text in words. -/
def problemMessages (text : String) : List String :=
  (problems text).map (Problem.message text)

end KernelSpec
end KernelRegistry
