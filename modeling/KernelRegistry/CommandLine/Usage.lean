import KernelRegistry.Text.Blank
import KernelRegistry.Text.Plain

/-!
# Usage errors

A command line that is not understood ends the run before anything is done.  So does one that asks
for help or for the version, which is why these are counted among the errors.

* `UsageError` — why a command line is not understood, or that it asks for a text instead of a run.
* `UsageError.message` — the first paragraph of what is shown.
-/

set_option autoImplicit false
namespace KernelRegistry
namespace CommandLine

/-- Why the options of a command line lead to no run. Options are given as messages show them. -/
inductive UsageError where
  | unexpected (argument : String)
  | missingValue (option : String)
  | refusedValue (value option reason : String)
  | unwantedValue (value option : String)
  | repeated (option : String)
  | conflict (option : String) (others : List String)
  | notText
  /-- The help text was asked for. -/
  | help (text : String)
  /-- The version was asked for. -/
  | version (text : String)
  deriving DecidableEq, Repr

/-- The text up to its first empty line, without blanks at its end.  The rest of an error is advice
on how to call the program. -/
def firstParagraph (s : String) : String :=
  String.ofList (trimEnd (upToBlankLine s.toList))
where
  upToBlankLine : List Char → List Char
    | '\n' :: '\n' :: _ => []
    | c :: cs => c :: upToBlankLine cs
    | [] => []
  trimEnd (cs : List Char) : List Char :=
    (cs.reverse.dropWhile Text.isBlank).reverse

namespace UsageError

/-- The wording of an error, without the mark of errors in front. -/
def wording : UsageError → String
  | unexpected argument => "unexpected argument '" ++ argument ++ "' found"
  | missingValue option => "a value is required for '" ++ option ++ "' but none was supplied"
  | refusedValue value option reason =>
    "invalid value '" ++ value ++ "' for '" ++ option ++ "': " ++ reason
  | unwantedValue value option =>
    "unexpected value '" ++ value ++ "' for '" ++ option ++ "' found; no more were expected"
  | repeated option => "the argument '" ++ option ++ "' cannot be used multiple times"
  | conflict option [other] =>
    "the argument '" ++ option ++ "' cannot be used with '" ++ other ++ "'"
  | conflict option others =>
    "the argument '" ++ option ++ "' cannot be used with:" ++
      String.join (others.map fun other => "\n  " ++ other)
  | notText => "invalid UTF-8 was detected in one or more arguments"
  | help text | version text => text

/-- Help and version were asked for, so they are no errors to whoever called the program. -/
def isRequest : UsageError → Bool
  | help _ | version _ => true
  | _ => false

/-- The text that was asked for, or the first paragraph of the error. -/
def message (e : UsageError) : String :=
  if e.isRequest then Text.plain e.wording
  else firstParagraph (Text.plain ("error: " ++ e.wording))

/-- The exit code of a run that ends here. -/
def exitCode (e : UsageError) : Nat := if e.isRequest then 0 else 2

end UsageError
end CommandLine
end KernelRegistry
