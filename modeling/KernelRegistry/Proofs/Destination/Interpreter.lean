import KernelRegistry.Proofs.Destination.Absolute
import KernelRegistry.Proofs.FileTree.Spelled

/-!
# An environment that is reported and one that is given

An environment is named by its interpreter, or by its directory on the command line.  The directory
that an interpreter prints is taken as it is printed, without the end of the line; one on the
command line is made absolute first.  The registry below it is found in the same way.

* `Text.trim_append_newline` — a line without its end is the text in it.
* `Resolver.registered` — where a kernel is below the directory of an environment, with
  `kernelBelow_shared`.
* `Resolver.locate_join_registered` — kernels below directories with the same components.
* `Resolver.environmentDirectory_of_printed` — what an interpreter that succeeds reports.
* `Resolver.kernelDirectory_of_printed`, `Resolver.kernelDirectory_below` — the directory of a
  kernel for an environment that is reported, and for one that is given.
* `Resolver.components_kernelDirectory_interpreter` — **the two directories of a kernel are the
  same**, component by component.
-/

set_option autoImplicit false
namespace KernelRegistry

open Text (Bytes encode)

/-! ## Lines -/

namespace Text

/-- A text that neither starts nor ends with white space.  What an interpreter prints is trimmed, so
only such a text comes back as it was. -/
structure Unpadded (s : String) : Prop where
  start : ∀ c ∈ s.toList.head?, isBlank c = false
  finish : ∀ c ∈ s.toList.getLast?, isBlank c = false

theorem unpadded_iff {s : String} : Unpadded s ↔ s.toList.head?.all (!isBlank ·) = true ∧
    s.toList.getLast?.all (!isBlank ·) = true := by
  simp only [Option.all_eq_true, Bool.not_eq_true']
  exact ⟨fun h => ⟨h.start, h.finish⟩, fun h => ⟨h.1, h.2⟩⟩

instance (s : String) : Decidable (Unpadded s) := decidable_of_iff _ unpadded_iff.symm

theorem dropWhile_isBlank {cs : List Char} (h : ∀ c ∈ cs.head?, isBlank c = false) :
    cs.dropWhile isBlank = cs := by
  cases cs with
  | nil => rfl
  | cons c cs => exact List.dropWhile_cons_of_neg (by simp [h c rfl])

/-- **A line without its end is the text in it.** -/
theorem trim_append_newline {s : String} (h : Unpadded s) : trim (s ++ "\n") = s := by
  have hback : ∀ c ∈ s.toList.reverse.head?, isBlank c = false := by
    rw [List.head?_reverse]
    exact h.finish
  have hnewline : isBlank '\n' = true := by decide
  have htrim : trimChars (s.toList ++ ['\n']) = s.toList := by
    cases hs : s.toList with
    | nil => rfl
    | cons c cs =>
      have hc : ¬ isBlank c = true := by simp [h.start c (by rw [hs]; rfl)]
      rw [trimChars, List.cons_append, List.dropWhile_cons_of_neg hc, ← List.cons_append, ← hs,
        List.reverse_concat, List.dropWhile_cons_of_pos hnewline, dropWhile_isBlank hback,
        List.reverse_reverse]
  have hline : (s ++ "\n").toList = s.toList ++ ['\n'] := String.toList_append
  rw [trim, hline, htrim, String.ofList_toList]

end Text

/-! ## Kernels below an environment -/

namespace Resolver

/-- Where a kernel is below the directory of an environment. -/
def registered (kernelName : String) : Path :=
  kernelBelow (.ofString "share/jupyter") kernelName

/-- The directories between that of an environment and those of its kernels. -/
def registryNames : List Bytes := ["share", "jupyter", "kernels"].map encode

section Registered

variable {kernelName : String}

theorem isAbsolute_registered : (registered kernelName).isAbsolute =
    (Path.ofString (Text.lowercase kernelName)).isAbsolute := by
  rw [Bool.eq_iff_iff, registered, kernelBelow, Path.joinText, Path.joinText,
    Path.isAbsolute_join_iff, or_iff_right (by decide)]

theorem names_registered
    (h : (Path.ofString (Text.lowercase kernelName)).isAbsolute = false) :
    (registered kernelName).names =
      registryNames ++ (Path.ofString (Text.lowercase kernelName)).names := by
  have hdirectories :
    ((Path.ofString "share/jupyter").joinText "kernels").names = registryNames := by
    decide
  rw [registered, kernelBelow, Path.joinText, Path.names_join h, hdirectories]

/-- The registry of an environment and the kernel in it may as well be joined first. -/
theorem kernelBelow_shared (p : Path) (kernelName : String) :
    kernelBelow (shared p) kernelName = p.join (registered kernelName) := by
  have hshared : shared p = p.join (.ofString "share/jupyter") := by
    rw [shared, Path.joinText, Path.joinText, Path.join_join (by decide) (by decide)]
    rfl
  have hkernels : (p.join (.ofString "share/jupyter")).join (.ofString "kernels") =
      p.join ((Path.ofString "share/jupyter").join (.ofString "kernels")) :=
    Path.join_join (by decide) (by decide) p _
  simp only [hshared, registered, kernelBelow, Path.joinText, hkernels]
  exact Path.join_join (by decide) (by decide) p _

variable {base base' : Path}

/-- Kernels below directories with the same components are in the same place. -/
theorem locate_join_registered (hbase : base.isAbsolute = true) (hbase' : base'.isAbsolute = true)
    (h : base.components = base'.components) (hsound : (base.join (registered kernelName)).Sound)
    (hsound' : (base'.join (registered kernelName)).Sound) (t : FileTree) (working : Location)
    (follow : Bool) : FileTree.locate t working follow (base.join (registered kernelName)) =
      FileTree.locate t working follow (base'.join (registered kernelName)) := by
  cases hname : (registered kernelName).isAbsolute with
  | true => rw [Path.join, Path.join, if_pos hname, if_pos hname]
  | false =>
    have hgoes : (registered kernelName).names ≠ [] := by
      rw [names_registered (isAbsolute_registered.symm.trans hname)]
      exact List.append_ne_nil_of_left_ne_nil (by decide) _
    exact FileTree.locate_join_congr hname hgoes (Path.names_eq_of_components_eq hbase hbase' h)
      (hbase.trans hbase'.symm) hsound hsound' t working follow

end Registered

/-! ## The environment of an interpreter -/

section Interpreter

variable {r : Resolver} {m : Machine} {f : Finished} {s : String}

/-- **What an interpreter that succeeds reports** is the line that it prints. -/
theorem environmentDirectory_of_printed (hs : s ≠ "") (hunpadded : Text.Unpadded s)
    (hlaunch : m.launch r.interpreter probeArguments = .ok f) (hexit : f.exitCode = some 0)
    (hprinted : f.stdout = encode (s ++ "\n")) : r.environmentDirectory m = .ok (.ofString s) := by
  have hcapture : m.capture r.interpreter probeArguments = .ok (s ++ "\n") := by
    rw [Machine.capture, hlaunch, capturedOutput]
    simp only [if_pos hexit, hprinted, Text.decodeLossy_encode]
  have hreport : ¬ s.isEmpty = true := by simpa using hs
  simp only [environmentDirectory, hcapture, bind, Except.bind, Text.trim_append_newline hunpadded,
    if_neg hreport]
  rfl

/-- The environment that is reported is taken as it is. -/
theorem kernelDirectory_of_printed (kernelName : String) (hs : s ≠ "")
    (hunpadded : Text.Unpadded s) (hlaunch : m.launch r.interpreter probeArguments = .ok f)
    (hexit : f.exitCode = some 0) (hprinted : f.stdout = encode (s ++ "\n")) :
    r.kernelDirectory m .interpreter kernelName =
      .ok ((Path.ofString s).join (registered kernelName)) := by
  rw [kernelDirectory, dataDirectory,
    environmentDirectory_of_printed hs hunpadded hlaunch hexit hprinted, ← kernelBelow_shared]
  rfl

/-- One that is given by an absolute path is taken as well, wherever it is seen from. -/
theorem kernelDirectory_below (r : Resolver) (m : Machine) (kernelName : String) {p : Path}
    (hp : p.isAbsolute = true) : r.kernelDirectory m (.below p) kernelName =
      .ok ((Path.absolute m.directory p).join (registered kernelName)) := by
  have hempty : ¬ p.isEmpty = true := by
    simpa [Path.isEmpty] using Path.bytes_ne_nil_of_isAbsolute hp
  have hdirectory : absoluteDirectory m p = .ok (Path.absolute m.directory p) :=
    if_pos (by rw [hp, Bool.true_or])
  rw [kernelDirectory, dataDirectory, if_neg hempty, hdirectory, ← kernelBelow_shared]
  rfl

/-- **An environment that is reported and one that is given have the same kernels.**  An interpreter
that prints an absolute path, and that path on the command line, give directories of a kernel with
the same components: those of the path, two dots among them, and then those of the registry and of
the kernel's name, unless that starts at the root.  They lead to the same place from everywhere. -/
theorem components_kernelDirectory_interpreter (kernelName : String)
    (habsolute : (Path.ofString s).isAbsolute = true) (hunpadded : Text.Unpadded s)
    (hlaunch : m.launch r.interpreter probeArguments = .ok f) (hexit : f.exitCode = some 0)
    (hprinted : f.stdout = encode (s ++ "\n")) :
    ∃ p q, r.kernelDirectory m .interpreter kernelName = .ok p ∧
      r.kernelDirectory m (.below (.ofString s)) kernelName = .ok q ∧
      p.components = q.components ∧
      ((Path.ofString (Text.lowercase kernelName)).isAbsolute = false →
        q.components = (Path.ofString s).components ++ (registryNames ++
          (Path.ofString (Text.lowercase kernelName)).names).map Path.Component.ofSegment) ∧
      (p.Sound → q.Sound → ∀ (t : FileTree) (working : Location) (follow : Bool),
        FileTree.locate t working follow p = FileTree.locate t working follow q) := by
  have hgiven : (Path.absolute m.directory (.ofString s)).isAbsolute = true :=
    Path.isAbsolute_absolute m.isAbsolute_directory _
  have hparts := Path.components_absolute habsolute m.directory
  have hne := Path.bytes_ne_nil_of_isAbsolute habsolute
  have hne' := Path.bytes_ne_nil_of_isAbsolute hgiven
  have hs : s ≠ "" := by
    rintro rfl
    exact hne rfl
  refine ⟨_, _, kernelDirectory_of_printed kernelName hs hunpadded hlaunch hexit hprinted,
    kernelDirectory_below r m kernelName habsolute, ?_, ?_, ?_⟩
  · exact Path.components_join_congr hne hne' hparts.symm _
  · intro hrelative
    have hregistered := isAbsolute_registered.trans hrelative
    rw [Path.components_join hne' hregistered, hparts, names_registered hrelative]
  · exact locate_join_registered habsolute hgiven hparts.symm

end Interpreter
end Resolver

namespace Sample

/-- A machine with an interpreter that prints a path. -/
def reporting (path : String) : Machine where
  tree := .directory [(encode "python",
    .file 0o755 (encode ("#!/bin/sh\necho " ++ path ++ "\n")))]
  working := []
  bindings := []

/-- The resolver that asks it. -/
def reportingResolver : Resolver :=
  { directories := { system := .ofString "/usr" }, interpreter := "/python" }

theorem launch_reporting :
    (reporting "//opt/./env/..//").launch reportingResolver.interpreter probeArguments =
      .ok { stdout := encode "//opt/./env/..//\n" } := by
  decide +kernel

end Sample

namespace Resolver

open Sample

/-- A path with a double slash at its start, a dot and two dots, and slashes at its end. -/
theorem components_kernelDirectory_interpreter_dots :
    ∃ p q, reportingResolver.kernelDirectory (reporting "//opt/./env/..//") .interpreter "Demo" =
          .ok p ∧
      reportingResolver.kernelDirectory (reporting "//opt/./env/..//")
          (.below (.ofString "//opt/./env/..//")) "Demo" = .ok q ∧
      p.components = q.components ∧
      q.components = .root :: ["opt", "env", "..", "share", "jupyter", "kernels", "demo"].map
        fun name => Path.Component.ofSegment (encode name) := by
  have habsolute : (Path.ofString "//opt/./env/..//").isAbsolute = true := by decide
  have hunpadded : Text.Unpadded "//opt/./env/..//" := by decide
  obtain ⟨p, q, hp, hq, hsame, hparts, -⟩ :=
    components_kernelDirectory_interpreter "Demo" habsolute hunpadded launch_reporting rfl rfl
  exact ⟨p, q, hp, hq, hsame, (hparts (by decide +kernel)).trans (by decide +kernel)⟩

end Resolver
end KernelRegistry
