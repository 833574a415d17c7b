import KernelRegistry.Proofs.Destination
import KernelRegistry.Proofs.Install.Frame

/-!
# What an installation can reach

An installation removes and writes nothing else than the directory of its kernel, because that is
a child of the directory of all kernels.  Kernels called by one or two dots are the exception.

* `Request.destination_eq` — the destination is the directory of the kernel.
* `Request.Clearing.removed_below` — **what is removed is a child of the directory that the kernels
  are in**, wherever the paths lead.
* `Request.install_contained` — **what an installation can reach**.
* `Request.install_dots_removes` — one that removes the data directory with all kernels.
-/

set_option autoImplicit false
namespace KernelRegistry
namespace Request

open FileTree Resolver
open Text (Bytes)

section Contained

variable {resolver : Resolver} {m : Machine} {r : Request} {p : Path} {data : Path}

theorem isKernelName_of_check {manifest : Manifest} (h : manifest.check = .ok ()) :
    isKernelName manifest.kernelName = true := by
  rw [Manifest.check] at h
  split at h
  · next hname => exact hname
  · cases h

/-- The destination is the directory of the kernel in the registry. -/
theorem destination_eq (h : r.destination resolver m = .ok p) :
    ∃ data, resolver.dataDirectory m r.registry = .ok data ∧
      p = kernelBelow data r.manifest.kernelName := by
  rw [destination, kernelDirectory] at h
  cases hdata : resolver.dataDirectory m r.registry with
  | error e =>
    rw [hdata] at h
    cases h
  | ok data =>
    rw [hdata] at h
    exact ⟨data, rfl, (Except.ok.inj h).symm⟩

variable [Disk]

/-- **What is removed is what has the name of the kernel in the directory that the path of the
kernels leads to.** -/
theorem Clearing.removed_below {t c : FileTree} {working : Location} {parent : Path} {name : Bytes}
    {replaced : Bool} (h : Clearing working r (parent.join ⟨name⟩) t replaced c)
    (hname : Path.IsName name) (hfreeStart : FreeStart t working parent) :
    c = t ∨ ∃ above, (t.wayTo working parent).goal = some above ∧
      Cleared t c (above ++ [name]) := by
  cases h with
  | nothing => exact .inl rfl
  | removed hexists _ hremove =>
    obtain ⟨-, above, hgoal, -, hcleared⟩ := removeAll_ok hfreeStart hname hexists hremove
    exact .inr ⟨above, hgoal, hcleared⟩

/-- **What an installation can reach.**  The destination is a child of the directory of all kernels,
called by bytes of registered names, unless the kernel is called by one or two dots.  If it is not,
then only what has the name of the kernel in that directory is removed, and nothing outside of the
destination is removed or changed, however the installation goes. -/
theorem install_contained (hcheck : r.manifest.check = .ok ())
    (hdestination : r.destination resolver m = .ok p) :
    ∃ data, resolver.dataDirectory m r.registry = .ok data ∧
      ((∃ name, IsChild (kernelsBelow data) p name ∧ ∀ b ∈ name, isRegistryByte b = true) ↔
        r.manifest.kernelName ≠ "." ∧ r.manifest.kernelName ≠ "..") ∧
      (r.manifest.kernelName ≠ "." → r.manifest.kernelName ≠ ".." →
        (∀ t replaced c, FreeStart t m.working (kernelsBelow data) →
          Clearing m.working r p t replaced c →
          c = t ∨ ∃ above, (t.wayTo m.working (kernelsBelow data)).goal = some above ∧
            Cleared t c (above ++ [fileName r.manifest.kernelName])) ∧
        ∀ listing site above, Listing.Exact listing →
          ClearDestination site.tree m.working (kernelsBelow data) above
            (fileName r.manifest.kernelName) →
          (∀ n, site.tree.node? m.working = some n → n = .directory) →
          ¬ Overlaid site.tree m.working p (above ++ [fileName r.manifest.kernelName]) →
          Spared site.tree (ending (r.install listing resolver m site)).2
            (above ++ [fileName r.manifest.kernelName])) := by
  have hname := isKernelName_of_check hcheck
  obtain ⟨data, hdata, rfl⟩ := destination_eq hdestination
  refine ⟨data, hdata, isChild_kernelBelow_iff hname data, fun hdot hdots => ⟨?_, ?_⟩⟩
  · intro t replaced c hfreeStart hclear
    exact hclear.removed_below ((isName_fileName_iff hname).2 ⟨hdot, hdots⟩) hfreeStart
  · intro listing site above hlisting happroach hworking hoverlaid
    exact (install_course listing resolver m r site).spared hlisting hdestination happroach hworking
      hoverlaid

end Contained

end Request

/-! ## Two dots -/

namespace Sample

open FileTree Request

/-- An installation of a kernel called by two dots. -/
def dotted : Request := request ".." "env" true

/-- The path of its directory. -/
def dottedTarget : Path := (parent "env").join ⟨Text.encode ".."⟩

/-- A tree with another kernel. -/
def others : FileTree := tree "{}" [("other", directory [("kernel.json", file "{}")])]

/-- A tree whose environment has a given data directory. -/
def withData (entries : List (String × FileTree)) : FileTree :=
  others.update (some (directory entries)) (location ["env", "share", "jupyter"])

theorem course_dotted :
    Course listing (dotted.resolver (machine others)) (machine others) dotted others
      (.ok ⟨"..", dottedTarget, .empty, true⟩)
      (withData (("kernels", directory []) :: copied rendered)) := by
  have hremove : removeAll [] dottedTarget others = .ok true (withData []) := by decide +kernel
  have hcopy : copyTree listing [] dotted.manifest.bundle dottedTarget (withData []) =
      .ok 2 (withData (("kernels", directory []) :: copied "{}")) := by decide +kernel
  have hread : readText [] dotted.manifest.template
      (withData (("kernels", directory []) :: copied "{}")) =
      .ok "{}" (withData (("kernels", directory []) :: copied "{}")) := by decide +kernel
  exact .done (by decide +kernel) (.removed (by decide +kernel) rfl hremove) hcopy hread
    (render_empty _) (by decide +kernel)

end Sample

namespace Request

open FileTree Resolver Sample

/-- An ordinary kernel goes into the directory of all kernels, and the rest is left alone. -/
theorem install_contained_replacing : replacing.manifest.check = .ok () ∧
    (∃ name, IsChild (kernelsBelow (.ofString "/env/share/jupyter")) (target "env") name) ∧
    Spared before (ending (replacing.install listing (replacing.resolver (machine before))
      (machine before) ⟨before, []⟩)).2 (kernels ++ [fileName "demo"]) := by
  have hcheck : replacing.manifest.check = .ok () := by decide +kernel
  have hdestination : replacing.destination (replacing.resolver (machine before))
      (machine before) = .ok (target "env") := by decide +kernel
  have hregistry : (replacing.resolver (machine before)).dataDirectory (machine before)
      replacing.registry = .ok (.ofString "/env/share/jupyter") := by decide +kernel
  have hthere : before.existsAt [] (target "env") = true := by decide +kernel
  obtain ⟨data, hdata, hchild, hreach⟩ := install_contained hcheck hdestination
  obtain rfl := Except.ok.inj (hregistry.symm.trans hdata)
  obtain ⟨name, hchild, -⟩ := hchild.2 ⟨by decide, by decide⟩
  obtain ⟨-, hspared⟩ := hreach (by decide) (by decide)
  refine ⟨hcheck, ⟨name, hchild⟩, hspared listing ⟨before, []⟩ kernels listing_exact
    (clearDestination_of_isClearDestination (by decide +kernel))
    (fun n hn => ?_) fun hoverlaid => ?_⟩
  · exact (Option.some.inj hn).symm
  · exact absurd (hthere.symm.trans hoverlaid.1) (by decide)

/-- **A kernel called by two dots takes the place of the data directory**, and other kernels vanish
with it. -/
theorem install_dots_removes : dotted.manifest.check = .ok () ∧ ∃ report site',
    dotted.install listing (dotted.resolver (machine others)) (machine others) ⟨others, []⟩ =
        .ok report site' ∧
      others.node? (kernels ++ location ["other"]) = some .directory ∧
      site'.tree.node? (kernels ++ location ["other"]) = none := by
  obtain ⟨site', hok, htree⟩ := Course.install_eq_ok (s := ⟨others, []⟩) course_dotted
  refine ⟨by decide +kernel, _, site', hok, by decide +kernel, ?_⟩
  rw [htree]
  decide +kernel

end Request
end KernelRegistry
