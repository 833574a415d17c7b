import KernelRegistry.Run

/-!
# What a run looks at

A machine has all files of its tree at hand, while a program that is run has to read them first.
Which files it needs comes to light step by step, from those that were read before.

* `sight` — the paths whose files decide what a run does, as far as the files that are known tell.
* `locationOf` — the location that a path names, links aside.
-/

set_option autoImplicit false
namespace KernelRegistry

open Text (Bytes)

/-- The paths that a request looks at. -/
def Request.sight (m : Machine) (r : Request) : List Path :=
  let interpreters := match r.registry with
    | .interpreter => m.candidates (.ofString r.interpreter)
    | _ => []
  match r.destination (r.resolver m) m with
  | .ok p => p :: interpreters
  | .error _ => interpreters

/-- The paths that a run looks at: the manifest, then the kernelspec, then the destination. -/
def sight (program : ProgramDirectory) (m : Machine) (argv : List Bytes) : List Path :=
  match locateManifest program argv with
  | .error _ => []
  | .ok path =>
    match Manifest.load m path with
    | .error _ => [path]
    | .ok manifest =>
      let found := [path, manifest.bundle]
      match CommandLine.Invocation.parse manifest argv with
      | .error _ => found
      | .ok invocation =>
        match Request.of m manifest invocation with
        | .error _ => found
        | .ok r => found ++ r.sight m

/-- How often a run finds more to look at: the kernelspec, the interpreter and the destination each
come to light when what was found before is known. -/
def sightRounds : Nat := 4

/-- The location that a path names, links aside. -/
def locationOf (directory p : Path) : Location :=
  ((Path.absolute directory p).components.foldl
    (fun names c =>
      match c with
      | .name bytes => bytes :: names
      | .parent => names.tail
      | .root | .current => names)
    []).reverse

end KernelRegistry
