import KernelRegistry.Error
import KernelRegistry.Json.Printer
import KernelRegistry.Json.Reader
import KernelRegistry.Parameter.Basic

/-!
# Templates of kernel files

A template is a document in which a token stands for the directory that the kernel is installed in.

* `replaceToken` — puts a text in place of every occurrence of the token.
* `pathFragment` — a path as the inside of a string.
* `mergeEnvironment` — the document with a table put into its `env` member.
* `Template.render` — the text of the installed file: the token replaced, the table merged, keys
  sorted, with a line for every item and member.
-/

set_option autoImplicit false
namespace KernelRegistry
namespace Template

open Json

/-- A template cannot know the directory that its kernel is going to be installed in; it has this
token in its place. -/
def token : List Char := "@KERNEL_INSTALL_DIRECTORY@".toList

/-- Puts a text in place of a token that is not empty, wherever it occurs, from left to right. -/
def replaceToken (token image : List Char) (text : List Char) : List Char :=
  match text with
  | [] => []
  | c :: cs =>
    if token.isPrefixOf (c :: cs) then
      image ++ replaceToken token image (cs.drop (token.length - 1))
    else c :: replaceToken token image cs
termination_by text.length
decreasing_by
  · simp only [List.length_drop, List.length_cons]; omega
  · simp

/-- A path as the inside of a string. -/
def pathFragment (p : Path) : String := escaped p.display

/-- The template with the directory in place of the token. -/
def fill (template : String) (directory : Path) : String :=
  String.ofList (replaceToken token (pathFragment directory).toList template.toList)

/-- Why a filled template is no kernel file. -/
inductive Fault where
  | notDocument (failure : Failure) (text : String)
  | notObject
  | badEnvironment
  deriving DecidableEq

/-- Puts entries among members, which are sorted. -/
def insertAll (env : Environment) (members : List (String × Json)) : List (String × Json) :=
  env.entries.foldl (fun ms entry => Entries.insert entry.1 (.string entry.2) ms) members

/-- The canonical document with a table put into its `env` member, which is made if missing. -/
def mergeEnvironment (env : Environment) : Json → Except Fault Json
  | .object members =>
    match (Entries.lookup "env" members).getD (.object []) with
    | .object inner =>
      .ok (.object (Entries.insert "env" (.object (insertAll env inner)) members))
    | _ => .error .badEnvironment
  | _ => .error .notObject

/-- The document of the installed file. -/
def document (template : String) (directory : Path) (env : Environment) : Except Fault Json :=
  let text := fill template directory
  match parse text with
  | .error failure => .error (.notDocument failure text)
  | .ok value => mergeEnvironment env value.canonical

/-- The text of the installed file. -/
def render (template : String) (directory : Path) (env : Environment) : Except Fault String :=
  (document template directory env).map pretty

/-- How a fault of the template at a path is reported. -/
def Fault.error (path : Path) : Fault → InstallError
  | notDocument failure text =>
    .kernelJson "kernel.json is not valid JSON" path (some (.document failure text))
  | notObject => .kernelJson "kernel.json must contain an object" path none
  | badEnvironment => .kernelJson "'env' in kernel.json must be an object" path none

end Template
end KernelRegistry
