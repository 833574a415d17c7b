import KernelRegistry.CommandLine.Arguments

/-!
# Where the manifest is

The manifest says which options there are, so its path is looked for before the command line can be
read.

* `givenManifest?` — the path on the command line, in an argument of its own or behind an equals
  sign.
* `manifestBeside` — the place where a manifest is looked for otherwise.
-/

set_option autoImplicit false
namespace KernelRegistry
namespace CommandLine

open Text (Bytes)

/-- The option for the path of the manifest. -/
def manifestOption : Bytes := Text.encode "--manifest"

/-- The bytes behind the option and an equals sign in the same argument. -/
def attachedManifest? (argument : Bytes) : Option Bytes :=
  if (manifestOption ++ [equals]).isPrefixOf argument then
    some (argument.drop (manifestOption.length + 1))
  else none

/-- The path of the manifest among arguments, the first that is found before two dashes.  A path
behind an equals sign is taken as text. -/
def givenManifest? : List Bytes → Option Path
  | [] => none
  | argument :: arguments =>
    if argument = [dash, dash] then none
    else if argument = manifestOption then
      match arguments with
      | path :: _ => some ⟨path⟩
      | [] => none
    else
      match attachedManifest? argument with
      | some path => some (.ofString (Text.decodeLossy path))
      | none => givenManifest? arguments

/-- The place where a manifest is looked for if none is given. -/
def manifestBeside (directory : Path) : Path := directory.joinText manifestFileName

end CommandLine
end KernelRegistry
