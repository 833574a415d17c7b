import Mathlib.Control.Monad.Basic
import KernelRegistry.Proofs.Except
import KernelRegistry.Proofs.Path.Components
import KernelRegistry.Destination
import KernelRegistry.FileTree.Actions

/-!
# Destinations that do not depend on the working directory

A registry is found from a fixed directory, from an environment variable, from the home directory,
from what an interpreter reports, or from a directory on the command line.  Only the last one is
made absolute; the others are absolute if what they are found from is.

* `Path.locate_of_isAbsolute` — paths that start at the root lead to the same place from every
  working directory.
* `Resolver.FromRoot` — what a registry is found from starts at the root.
* `Resolver.isAbsolute_kernelDirectory_iff` — **when the directory of a kernel is absolute**.
* `Resolver.kernelDirectory_relative` — one that is relative.
-/

set_option autoImplicit false
namespace KernelRegistry

open Text (Bytes)

/-! ## Paths -/

namespace Path

variable {p : Path}

/-- **An absolute path leads to the same place from every working directory.** -/
theorem locate_of_isAbsolute (h : p.isAbsolute = true) (root : FileTree) (follow : Bool)
    (working working' : Location) :
    FileTree.locate root working follow p = FileTree.locate root working' follow p := by
  rw [FileTree.locate, FileTree.locate, if_pos h, if_pos h]

end Path

theorem Surroundings.isAbsolute_directory (s : Surroundings) : s.directory.isAbsolute = true :=
  decide_eq_true rfl

/-! ## Registries -/

namespace Resolver

open DataDirectories

/-- A registry is found from the root, or it is named by a path that starts there.  The user's
registry is found from the directory that is named for it, or else from the one named for all data
if its path is absolute, or else from the home directory. -/
def FromRoot (interpreter : String) (m : Machine) : Registry → Prop
  | .system | .below _ => True
  | .user =>
    match given? m "JUPYTER_DATA_DIR" with
    | some p => p.isAbsolute = true
    | none => (∃ value, m.value? "XDG_DATA_HOME" = some value ∧ Path.isAbsolute ⟨value⟩ = true) ∨
        ∃ home, home? m = some home ∧ home.isAbsolute = true
  | .legacy => ∃ home, home? m = some home ∧ home.isAbsolute = true
  | .interpreter => ∃ report, m.capture interpreter probeArguments = .ok report ∧
      (Path.ofString (Text.trim report)).isAbsolute = true

section Registries

variable {interpreter : String} {m : Machine} {registry : Registry} {kernelName : String}
  {data p : Path}

/-- A text that does not start with a slash leaves it to the path whether it starts at the root. -/
theorem isAbsolute_joinText_iff {s : String} (h : (Path.ofString s).isAbsolute = false) :
    (data.joinText s).isAbsolute = true ↔ data.isAbsolute = true := by
  rw [Path.joinText, Path.isAbsolute_join h]

theorem isAbsolute_shared_iff : (shared p).isAbsolute = true ↔ p.isAbsolute = true := by
  rw [shared, isAbsolute_joinText_iff (by decide), isAbsolute_joinText_iff (by decide)]

/-- The directory of the user is found from the one that is named for all data, or from home. -/
theorem isAbsolute_userData_iff (h : userData? m = some p) : p.isAbsolute = true ↔
    (∃ value, m.value? "XDG_DATA_HOME" = some value ∧ Path.isAbsolute ⟨value⟩ = true) ∨
      ∃ home, home? m = some home ∧ home.isAbsolute = true := by
  have hstandard : userData?.standard m = some p →
      (p.isAbsolute = true ↔ ∃ home, home? m = some home ∧ home.isAbsolute = true) := by
    intro h
    obtain ⟨home, hhome, rfl⟩ := Option.map_eq_some_iff.1 h
    rw [isAbsolute_joinText_iff (by decide), hhome]
    simp
  rw [userData?] at h
  cases hvalue : m.value? "XDG_DATA_HOME" with
  | none =>
    rw [hvalue] at h
    rw [hstandard h]
    simp
  | some value =>
    rw [hvalue] at h
    simp only [Option.map_some] at h
    split at h
    · next habsolute =>
      obtain rfl := Option.some.inj h
      exact iff_of_true habsolute (.inl ⟨value, rfl, habsolute⟩)
    · next hrelative =>
      rw [hstandard h]
      simp [hrelative]

/-- A directory that is made absolute starts at the root, unless it was removed. -/
theorem absoluteDirectory_eq_ok {directory : Path} (h : absoluteDirectory m directory = .ok p) :
    p = Path.absolute m.directory directory := by
  rw [absoluteDirectory] at h
  split at h
  · exact (Except.ok.inj h).symm
  · cases h

/-- **The data directory of a registry is absolute if what it is found from is.** -/
theorem isAbsolute_dataDirectory_iff
    (h : (Resolver.mk (.ofMachine m) interpreter).dataDirectory m registry = .ok data) :
    data.isAbsolute = true ↔ FromRoot interpreter m registry := by
  cases registry with
  | system =>
    obtain rfl := Except.ok.inj h
    exact iff_of_true (show sharedDirectory.isAbsolute = true by decide) trivial
  | user =>
    have huser : (ofMachine m).user = some data := by
      simp only [dataDirectory] at h
      split at h
      · next p hp => exact Except.ok.inj h ▸ hp
      · cases h
    simp only [ofMachine] at huser
    cases hgiven : given? m "JUPYTER_DATA_DIR" with
    | some p =>
      rw [hgiven] at huser
      obtain rfl := Option.some.inj huser
      simp only [FromRoot, hgiven]
    | none =>
      rw [hgiven] at huser
      obtain ⟨p, hp, rfl⟩ := Option.map_eq_some_iff.1 huser
      simp only [FromRoot, hgiven]
      rw [isAbsolute_joinText_iff (by decide)]
      exact isAbsolute_userData_iff hp
  | interpreter =>
    obtain ⟨p, hp, rfl⟩ := of_map_eq_ok h
    obtain ⟨report, hreport, hp⟩ := of_bind_eq_ok hp
    simp only at hp
    split at hp
    · cases hp
    · obtain rfl := Except.ok.inj hp
      rw [isAbsolute_shared_iff]
      refine ⟨fun habsolute => ⟨report, hreport, habsolute⟩, ?_⟩
      rintro ⟨report', hreport', habsolute⟩
      obtain rfl := Except.ok.inj (hreport.symm.trans hreport')
      exact habsolute
  | below directory =>
    simp only [dataDirectory] at h
    split at h
    · obtain rfl := Except.ok.inj h
      exact iff_of_true (show sharedDirectory.isAbsolute = true by decide) trivial
    · obtain ⟨p, hp, rfl⟩ := of_map_eq_ok h
      obtain rfl := absoluteDirectory_eq_ok hp
      rw [isAbsolute_shared_iff]
      exact iff_of_true (Path.isAbsolute_absolute m.isAbsolute_directory directory) trivial
  | legacy =>
    have hhome : ∃ home, home? m = some home ∧ data = home.joinText ".ipython" := by
      simp only [dataDirectory] at h
      split at h
      · next home hhome => exact ⟨home, hhome, (Except.ok.inj h).symm⟩
      · cases h
    obtain ⟨home, hhome, rfl⟩ := hhome
    rw [isAbsolute_joinText_iff (by decide), FromRoot, hhome]
    simp

/-- **When the directory of a kernel is absolute.**  It is if what the registry is found from starts
at the root, and only then, unless the kernel is called by an absolute path; and then it leads to
the same place wherever it is seen from. -/
theorem isAbsolute_kernelDirectory_iff
    (h : (Resolver.mk (.ofMachine m) interpreter).kernelDirectory m registry kernelName = .ok p) :
    (p.isAbsolute = true ↔ FromRoot interpreter m registry ∨
        (Path.ofString (Text.lowercase kernelName)).isAbsolute = true) ∧
      (p.isAbsolute = true → ∀ root follow working working',
        FileTree.locate root working follow p = FileTree.locate root working' follow p) := by
  obtain ⟨data, hdata, rfl⟩ := of_map_eq_ok h
  refine ⟨?_, fun habsolute root follow => Path.locate_of_isAbsolute habsolute root follow⟩
  rw [kernelBelow, Path.joinText, Path.isAbsolute_join_iff, isAbsolute_joinText_iff (by decide),
    isAbsolute_dataDirectory_iff hdata]

end Registries

end Resolver

namespace Sample

/-- A directory with another one in it, and so on. -/
def chained : List String → FileTree
  | [] => .directory []
  | name :: names => .directory [(Text.encode name, chained names)]

/-- A machine whose user has named a directory for the registry, with a kernel below the working
directory. -/
def naming (directory : String) : Machine where
  tree := chained ["here", "data", "kernels", "demo"]
  working := [Text.encode "here"]
  bindings := [(Text.encode "HOME", Text.encode "home"),
    (Text.encode "JUPYTER_DATA_DIR", Text.encode directory)]

/-- The resolver for its registries. -/
def namingResolver (directory : String) : Resolver :=
  { directories := .ofMachine (naming directory) }

end Sample

namespace Resolver

open Sample

/-- A directory that is named by an absolute path gives one. -/
theorem isAbsolute_kernelDirectory_named :
    (namingResolver "/data").kernelDirectory (naming "/data") .user "Demo" =
        .ok (.ofString "/data/kernels/demo") ∧
      (Path.ofString "/data/kernels/demo").isAbsolute = true := by
  have hdirectory : (namingResolver "/data").kernelDirectory (naming "/data") .user "Demo" =
      .ok (.ofString "/data/kernels/demo") := by decide +kernel
  have hgiven : DataDirectories.given? (naming "/data") "JUPYTER_DATA_DIR" =
      some (.ofString "/data") := by decide +kernel
  have hroot : FromRoot defaultInterpreter (naming "/data") .user := by
    rw [FromRoot, hgiven]
    decide
  exact ⟨hdirectory, (isAbsolute_kernelDirectory_iff hdirectory).1.2 (.inl hroot)⟩

/-- **A directory that is named by a relative path is taken as it is**, and the path leads to
nothing from another working directory. -/
theorem kernelDirectory_relative :
    (namingResolver "data").kernelDirectory (naming "data") .user "Demo" =
        .ok (.ofString "data/kernels/demo") ∧
      (Path.ofString "data/kernels/demo").isAbsolute = false ∧
      (naming "data").tree.existsAt (naming "data").working (.ofString "data/kernels/demo") = true ∧
      (naming "data").tree.existsAt [] (.ofString "data/kernels/demo") = false := by
  refine ⟨?_, ?_, ?_, ?_⟩
  all_goals decide +kernel

end Resolver
end KernelRegistry
