import KernelRegistry.Program.Tools

/-!
# Machines

An installation sees files and environment variables, and it may ask an interpreter for its
environment.  Which programs there are and what they print is up to the machine; all that is fixed
is that they change no files.

* `Machine` — surroundings, and the programs that are run in them.
* `Machine.launch` — what running a command gives.
* `Machine.capture` — what a command printed that succeeded.
-/

set_option autoImplicit false
namespace KernelRegistry

/-- Where an installation takes place. -/
structure Machine extends Surroundings where
  /-- What running a command with arguments gives.  It may depend on all that programs see, so on
  files that were installed before. -/
  programs : Surroundings → String → List String → Except LaunchError Finished :=
    Surroundings.launch
  /-- The home directory that the accounts of the system have for the user, if they have one.  It is
  asked for only where the environment names none. -/
  accountHome : Option Path := none

namespace Machine

/-- Runs a command with arguments. -/
def launch (m : Machine) (command : String) (arguments : List String) :
    Except LaunchError Finished :=
  m.programs m.toSurroundings command arguments

/-- The output of a command that succeeded.  One that failed has printed nothing that could be
relied on. -/
def capture (m : Machine) (command : String) (arguments : List String) :
    Except InstallError String :=
  capturedOutput command arguments (m.launch command arguments)

end Machine
end KernelRegistry
