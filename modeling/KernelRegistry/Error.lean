import KernelRegistry.Json.Failure
import KernelRegistry.Path
import KernelRegistry.Text.Blank

/-!
# What can go wrong

An error is kept as what went wrong, and not as its text: the same error is shown with its causes in
a report, and judged without them in a proof.

* `FileError` — why the file system refused.
* `Source` — the cause behind an error.
* `InstallError` — an error as it is reported, with `InstallError.message` for its wording and
  `InstallError.sources` for the wording of its causes.
-/

set_option autoImplicit false
namespace KernelRegistry

/-- Why the file system refused. -/
inductive FileError where
  | notFound
  | argumentsTooLong
  | notExecutable
  | permissionDenied
  | exists
  | notDirectory
  | isDirectory
  | invalidArgument
  | nameTooLong
  | notEmpty
  | tooManyLinks
  | nulByte
  | notRegular
  | notText
  deriving DecidableEq, Repr

/-- The wording of a refusal.  Those that the system numbers show the number. -/
def FileError.message : FileError → String
  | notFound => "No such file or directory (os error 2)"
  | argumentsTooLong => "Argument list too long (os error 7)"
  | notExecutable => "Exec format error (os error 8)"
  | permissionDenied => "Permission denied (os error 13)"
  | .exists => "File exists (os error 17)"
  | notDirectory => "Not a directory (os error 20)"
  | isDirectory => "Is a directory (os error 21)"
  | invalidArgument => "Invalid argument (os error 22)"
  | nameTooLong => "File name too long (os error 36)"
  | notEmpty => "Directory not empty (os error 39)"
  | tooManyLinks => "Too many levels of symbolic links (os error 40)"
  | nulByte => "file name contained an unexpected NUL byte"
  | notRegular => "the source path is neither a regular file nor a symlink to a regular file"
  | notText => "stream did not contain valid UTF-8"

/-- The cause behind an error. -/
inductive Source where
  /-- The file system refused. -/
  | file (error : FileError)
  /-- A text is not the document that was asked for. -/
  | document (failure : Json.Failure) (text : String)
  /-- A cause with a wording of its own. -/
  | other (message : String)
  deriving DecidableEq

/-- The wording of a cause. -/
def Source.message : Source → String
  | file error => error.message
  | document failure text => failure.message text.toList
  | other message => message

/-- An error as it is reported. -/
inductive InstallError where
  /-- A manifest cannot be read or is not acceptable. -/
  | manifest (message : String) (path : Path) (source : Option Source)
  /-- A declaration of a parameter, or a value for it, was refused. -/
  | parameter (name message : String)
  /-- There is no place to install to. -/
  | destination (message : String)
  /-- Something is installed in the place already. -/
  | alreadyInstalled (path : Path)
  /-- The kernelspec cannot be made from its template. -/
  | kernelJson (message : String) (path : Path) (source : Option Source)
  /-- An operation on a file failed. -/
  | fileSystem (operation : String) (path : Path) (source : Source)
  /-- A command failed or could not be run; a command that was killed has no exit code. -/
  | process (command : String) (exitCode : Option Int) (stdout stderr : String)
  /-- The kernel that is to be installed is not acceptable. -/
  | validation (message : String)
  deriving DecidableEq

namespace InstallError

/-- The wording of an error. -/
def message : InstallError → String
  | manifest message _ _ => "Manifest error: " ++ message
  | parameter name message => "Parameter '" ++ name ++ "': " ++ message
  | destination message => "Destination error: " ++ message
  | alreadyInstalled path =>
    "Kernel already installed at " ++ path.display ++ "; pass --replace to overwrite it"
  | kernelJson message _ _ => "kernel.json error: " ++ message
  | fileSystem operation path _ =>
    "File system error: " ++ operation ++ " failed on " ++ path.display
  | process command exitCode _ stderr =>
    let code := match exitCode with
      | some code => " with exit code " ++ toString code
      | none => ""
    "Process error: " ++ command ++ " failed" ++ code ++ ": " ++ Text.trim stderr
  | validation message => "Validation error: " ++ message

/-- The wording of the causes, the nearest first. -/
def sources : InstallError → List String
  | manifest _ _ source | kernelJson _ _ source => (source.map Source.message).toList
  | fileSystem _ _ source => [source.message]
  | _ => []

end InstallError
end KernelRegistry
