import KernelRegistry.Proofs.Install.Confined

/-!
# What becomes of the bundle

The destination is cleared before the bundle is read, and nothing compares the two.  If they are
apart, then the bundle is left as it was, however the installation ends.  If they are not, it may be
lost.

* `FileTree.Meets` — a destination at, above or below a place, or the way to it through directories
  that have to be made there.
* `FileTree.Kept.untouched` — what does not meet the destination is as it was.
* `Request.bundle_found` — a request that was checked has a bundle.
* `Request.install_keeps_bundle` — **an installation leaves a bundle alone that does not meet its
  destination**.
* `Request.install_removes_bundle` — one that loses the bundle.
-/

set_option autoImplicit false
namespace KernelRegistry

open Text (Bytes)

namespace FileTree

/-- The destination, a name in the directory that a path leads to, is at, above or below a place; or
a directory has to be made at or below the place on the way to it. -/
def Meets (t : FileTree) (working : Location) (p : Path) (name : Bytes) (x : Location) : Prop :=
  (∃ above, (t.wayTo working p).goal = some above ∧
      (above ++ [name] <+: x ∨ x <+: above ++ [name])) ∨
    ∃ y ∈ (t.wayTo working p).stops, x <+: y ∧ t.node? y = none

section Meets

variable {t c u : FileTree} {working above x : Location} {p : Path} {name : Bytes}

/-- A destination that does not meet a place is nowhere at or below it. -/
theorem Meets.not_atDestination (h : ¬ Meets t working p name x) (below : Location) :
    ¬ AtDestination t working p name (x ++ below) := by
  rintro ⟨above, hgoal, hunder⟩
  exact h (.inl ⟨above, hgoal, List.prefix_or_prefix_of_prefix hunder (List.prefix_append x below)⟩)

/-- **What does not meet the destination is as it was.** -/
theorem Kept.untouched (h : Kept c u working p name) (hmeets : ¬ Meets c working p name x)
    (below : Location) : u.node? (x ++ below) = c.node? (x ++ below) := by
  rcases h.elsewhere _ (Meets.not_atDestination hmeets below) with hsame | ⟨hgone, hstop⟩
  · exact hsame
  · exact absurd (.inr ⟨_, hstop, List.prefix_append x below, hgone⟩) hmeets

/-- A check for a place that does not meet the destination. -/
theorem not_meets (hgoal : (t.wayTo working p).goal = some above)
    (hunder : (above ++ [name]).isPrefixOf x = false)
    (hover : x.isPrefixOf (above ++ [name]) = false)
    (hstops : (t.wayTo working p).stops.all
      (fun y => !x.isPrefixOf y || (t.node? y).isSome) = true) : ¬ Meets t working p name x := by
  rintro (⟨above', hgoal', hmeets⟩ | ⟨y, hy, hx, hnone⟩)
  · obtain rfl := Option.some.inj (hgoal.symm.trans hgoal')
    rw [← List.isPrefixOf_iff_prefix, ← List.isPrefixOf_iff_prefix, hunder, hover] at hmeets
    simp at hmeets
  · have hstop := List.all_eq_true.1 hstops y hy
    rw [List.isPrefixOf_iff_prefix.2 hx, hnone] at hstop
    cases hstop

end Meets

end FileTree

/-! ## Installing -/

namespace Request

open FileTree

section Bundle

variable {listing : Listing} {resolver : Resolver} {m : Machine} {r : Request} {t u : FileTree}
variable {parent : Path} {name : Bytes} {x : Location} {outcome : Except InstallError Report}

/-- A request that was checked has a bundle, with a template that is a file. -/
theorem bundle_found (h : r.check m = .ok ()) :
    (∃ x entries, find m.tree m.working true r.manifest.bundle = .ok (x, .directory entries)) ∧
      ∃ y mode content,
        find m.tree m.working true r.manifest.template = .ok (y, .file mode content) := by
  simp only [check] at h
  split at h
  · cases h
  next hbundle =>
  split at h
  · cases h
  next htemplate =>
  rw [Bool.not_eq_true, Bool.not_eq_false'] at hbundle
  rw [Bool.not_eq_true, Bool.not_eq_false', isFileAt] at htemplate
  constructor
  · obtain ⟨x, found, hfind, hnode⟩ := exists_find_of_isDirectoryAt hbundle
    obtain ⟨entries, rfl⟩ := exists_directory_of_node hnode
    exact ⟨x, entries, hfind⟩
  · split at htemplate
    · next y node hfind =>
      cases node with
      | file mode content => exact ⟨y, mode, content, hfind⟩
      | _ => cases htemplate
    · cases htemplate

/-- A place is out of the way of an installation, both before the destination was cleared and after
that, and no link is hidden at the destination. -/
def Aside (m : Machine) (r : Request) (t : FileTree) (parent : Path) (name : Bytes)
    (x : Location) : Prop :=
  ∀ replaced c, Clearing m.working r (parent.join ⟨name⟩) t replaced c →
    ¬ HiddenLink c m.working parent name ∧ ¬ Meets t m.working parent name x ∧
      ¬ Meets c m.working parent name x

/-- **However it goes, what is out of the way is as it was.** -/
theorem Course.untouched (hcourse : Course listing resolver m r t outcome u)
    (hlisting : listing.Exact) (hname : Path.IsName name)
    (hdestination : r.destination resolver m = .ok (parent.join ⟨name⟩)) (hproper : t.Proper)
    (hworking : ∀ n, t.node? m.working = some n → n = .directory)
    (haside : Aside m r t parent name x) (below : Location) :
    u.node? (x ++ below) = t.node? (x ++ below) := by
  have hfreeStart := FreeStart.of_working hproper.root hworking parent
  have huntouched : ∀ {replaced c v}, Clearing m.working r (parent.join ⟨name⟩) t replaced c →
      Kept c v m.working parent name → v.node? (x ++ below) = t.node? (x ++ below) := by
    intro replaced c v hclear hkept
    obtain ⟨-, hbefore, hafter⟩ := haside replaced c hclear
    rw [hkept.untouched hafter,
      hclear.elsewhere hname hfreeStart (Meets.not_atDestination hbefore below)]
  refine hcourse.left (P := fun u => u.node? (x ++ below) = t.node? (x ++ below)) hdestination rfl
    (fun e v hexists hremove => ?_) (fun replaced c hclear => ?_)
    (fun replaced c count v content hclear hcopy => ?_)
  · obtain ⟨above, -, hfails⟩ := removeAll_error hfreeStart hname hexists hremove
    rw [(removalFails_sound hfails).2]
  · have hkept := hclear.kept hlisting hname hproper hworking (haside replaced c hclear).1
    exact huntouched hclear hkept.1
  · have hkept := hclear.kept hlisting hname hproper hworking (haside replaced c hclear).1
    exact huntouched hclear (hkept.2 count v hcopy content)

/-- An installation changes nothing if the place is taken and may not be freed. -/
theorem Course.unchanged_of_taken {p : Path} (hcourse : Course listing resolver m r t outcome u)
    (hdestination : r.destination resolver m = .ok p) (hexists : t.existsAt m.working p = true)
    (hreplace : r.replace = false) : u = t :=
  (hcourse.unique (.refused hdestination hexists hreplace)).2

/-- **An installation leaves the bundle alone** that is out of its way.  A request that was checked
has a bundle.  If there is no place to install to, or the place is taken and may not be freed, then
nothing changes at all.  If the destination is a name in a directory, then the bundle and everything
below it are as they were, however the installation ends, unless the destination is at, above or
below the bundle, or is reached through directories that have to be made in it, or hides a link. -/
theorem install_keeps_bundle {log : List LogLine} (hlisting : listing.Exact)
    (hproper : m.tree.Proper) (hworking : ∀ n, m.tree.node? m.working = some n → n = .directory)
    (hcheck : r.check m = .ok ()) :
    ∃ x entries, find m.tree m.working true r.manifest.bundle = .ok (x, .directory entries) ∧
      (∀ e, r.destination resolver m = .error e →
        (ending (r.install listing resolver m ⟨m.tree, log⟩)).2 = m.tree) ∧
      (∀ p, r.destination resolver m = .ok p → m.tree.existsAt m.working p = true →
        r.replace = false → (ending (r.install listing resolver m ⟨m.tree, log⟩)).2 = m.tree) ∧
      ∀ (parent : Path) (name : Bytes), Path.IsName name →
        r.destination resolver m = .ok (parent.join ⟨name⟩) →
        Aside m r m.tree parent name x →
        ∀ below, (ending (r.install listing resolver m ⟨m.tree, log⟩)).2.node? (x ++ below) =
          m.tree.node? (x ++ below) := by
  obtain ⟨⟨x, entries, hfind⟩, -⟩ := bundle_found hcheck
  have hcourse := install_course listing resolver m r ⟨m.tree, log⟩
  refine ⟨x, entries, hfind, fun e hresolve => ?_, fun p hresolve hexists hreplace => ?_,
    fun parent name hname hdestination haside below =>
      hcourse.untouched hlisting hname hdestination hproper hworking haside below⟩
  · exact (hcourse.unique (.unresolved hresolve)).2
  · exact hcourse.unchanged_of_taken hresolve hexists hreplace

end Bundle

end Request

/-! ## A kernel that is installed over its bundle -/

namespace Sample

open FileTree Request

/-- An installation of a kernel in place of itself. -/
def inPlace : Request :=
  { replacing with
    manifest := {
      kernelName := "demo"
      kernelDirectory := .ofString "env/share/jupyter/kernels/demo" } }

/-- The tree before: the bundle is in the place that it is to be installed to. -/
def settled : FileTree :=
  tree "{}" [("demo", directory [("kernel.json", file "{}"), ("run", file "run")])]

/-- The error that is reported: there is no template. -/
def templateGone : InstallError :=
  .fileSystem "read" inPlace.manifest.template (.file .notFound)

theorem course_inPlace :
    Course listing (inPlace.resolver (machine settled)) (machine settled) inPlace settled
      (.error templateGone) (tree "{}" [("demo", directory [])]) := by
  have hremove : removeAll [] (target "env") settled = .ok true (tree "{}" []) := by decide +kernel
  have hcopy : copyTree listing [] inPlace.manifest.bundle (target "env") (tree "{}" []) =
      .ok 0 (tree "{}" [("demo", directory [])]) := by decide +kernel
  have hread : readText [] inPlace.manifest.template (tree "{}" [("demo", directory [])]) =
      .error .notFound (tree "{}" [("demo", directory [])]) := by decide +kernel
  exact .notRead (by decide +kernel) (.removed (by decide +kernel) rfl hremove) hcopy hread

end Sample

namespace Request

open FileTree Sample

/-- The kernel that gives way is not the bundle, which is as it was. -/
theorem install_keeps_bundle_replacing :
    replacing.check (machine before) = .ok () ∧
      ∀ below, (ending (replacing.install listing (replacing.resolver (machine before))
          (machine before) ⟨before, []⟩)).2.node? (location ["kernel"] ++ below) =
        before.node? (location ["kernel"] ++ below) := by
  have hproper : before.Proper := proper_of_isProper (by decide +kernel)
  have hworking : ∀ n, before.node? (machine before).working = some n → n = .directory :=
    fun n hn => (Option.some.inj hn).symm
  have hbundle : before.isDirectoryAt [] replacing.manifest.bundle = true := by decide +kernel
  have htemplate : before.isFileAt [] replacing.manifest.template = true := by decide +kernel
  have hcheck : replacing.check (machine before) = .ok () := by
    simp [check, machine, hbundle, htemplate]
  have hdestination : replacing.destination (replacing.resolver (machine before))
      (machine before) = .ok ((parent "env").join ⟨Text.encode "demo"⟩) := by decide +kernel
  have hremove : removeAll [] (target "env") before = .ok true (tree "{}" []) := by decide +kernel
  have hseen : ((tree "{}" []).wayTo [] (parent "env")).stops.all
      (fun x => ((tree "{}" []).node? x).isSome) = true := by decide +kernel
  have hfound : (find before [] true replacing.manifest.bundle).toOption.map (·.1) =
      some (location ["kernel"]) := by decide +kernel
  obtain ⟨x, entries, hfind, -, -, hkept⟩ :=
    @install_keeps_bundle listing (replacing.resolver (machine before))
    (machine before) replacing []
      listing_exact hproper hworking hcheck
  obtain rfl : x = location ["kernel"] := by
    rw [show find before [] true replacing.manifest.bundle = _ from hfind] at hfound
    exact Option.some.inj hfound
  have hgoal : (before.wayTo [] (parent "env")).goal = some kernels := by decide +kernel
  have hgoal' : ((tree "{}" []).wayTo [] (parent "env")).goal = some kernels := by decide +kernel
  have hbefore : ¬ Meets before [] (parent "env") (Text.encode "demo") (location ["kernel"]) :=
    not_meets hgoal (by decide) (by decide) (by decide +kernel)
  have hafter : ¬ Meets (tree "{}" []) [] (parent "env") (Text.encode "demo")
      (location ["kernel"]) :=
    not_meets hgoal' (by decide) (by decide) (by decide +kernel)
  refine ⟨hcheck, hkept (parent "env") (Text.encode "demo") (by decide) hdestination ?_⟩
  intro replaced c hclear
  obtain ⟨-, rfl⟩ := hclear.unique (.removed (by decide +kernel) rfl hremove)
  refine ⟨fun hlink => ?_, hbefore, hafter⟩
  obtain ⟨⟨y, hy, hnone⟩, -⟩ := hlink
  have := List.all_eq_true.1 hseen y hy
  rw [hnone] at this
  cases this

/-- **A bundle in the place of the destination is lost**: it is removed before it is copied. -/
theorem install_removes_bundle :
    inPlace.check (machine settled) = .ok () ∧
      find settled [] true inPlace.manifest.bundle =
        .ok (kernels ++ location ["demo"],
          directory [("kernel.json", file "{}"), ("run", file "run")]) ∧
      ∃ site', inPlace.install listing (inPlace.resolver (machine settled)) (machine settled)
          ⟨settled, []⟩ = .error templateGone site' ∧
        settled.node? (kernels ++ location ["demo", "run"]) =
          some (.file newFileMode (Text.encode "run")) ∧
        site'.tree.node? (kernels ++ location ["demo", "run"]) = none ∧
        site'.tree.node? (kernels ++ location ["demo", "kernel.json"]) = none := by
  obtain ⟨site', herror, htree⟩ := Course.install_eq_error (s := ⟨settled, []⟩) course_inPlace
  have hbundle : settled.isDirectoryAt [] inPlace.manifest.bundle = true := by decide +kernel
  have htemplate : settled.isFileAt [] inPlace.manifest.template = true := by decide +kernel
  refine ⟨?_, by decide +kernel, site', herror, by decide +kernel, ?_, ?_⟩
  · simp [check, machine, hbundle, htemplate]
  · rw [htree]
    decide +kernel
  · rw [htree]
    decide +kernel

end Request
end KernelRegistry
