import KernelRegistry.Error

/-!
# What running a program gives

* `Finished` — exit code and output of a program that was run.
* `LaunchError` — why a program could not be run.
* `capturedOutput` — what a successful program printed.
-/

set_option autoImplicit false
namespace KernelRegistry

open Text (Bytes)

/-- A program that was run; one that was killed has no exit code. -/
structure Finished where
  exitCode : Option Nat := some 0
  stdout : Bytes := []
  stderr : Bytes := []
  deriving DecidableEq, Repr

/-- Why a program could not be run. -/
inductive LaunchError where
  /-- The command or an argument holds a byte that ends it. -/
  | nulByte
  | refused (error : FileError)
  deriving DecidableEq, Repr

/-- The wording of a reason. -/
def LaunchError.message : LaunchError → String
  | nulByte => "nul byte found in provided data"
  | refused error => error.message

/-- A command with its arguments, as messages show it. -/
def commandText (command : String) (arguments : List String) : String :=
  command ++ " " ++ " ".intercalate arguments

/-- The output of a program that succeeded; anything else is an error, with all that the program
said in it. -/
def capturedOutput (command : String) (arguments : List String)
    (ran : Except LaunchError Finished) : Except InstallError String :=
  let shown := commandText command arguments
  match ran with
  | .error e => .error (.process shown none "" ("Failed to execute command: " ++ e.message))
  | .ok f =>
    if f.exitCode = some 0 then .ok (Text.decodeLossy f.stdout)
    else
      .error (.process shown (f.exitCode.map Int.ofNat) (Text.decodeLossy f.stdout)
        (Text.decodeLossy f.stderr))

end KernelRegistry
