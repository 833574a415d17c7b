import KernelRegistry.Proofs.Install.Containment

/-!
# What a failed installation leaves

An installation is not rolled back.  Seven of its steps can fail, and the error that it ends with
says which one did; how much is left of the old kernel, and how much there is of the new one,
depends on nothing else.  Two of the steps do not happen at once: a removal may have taken a part of
the old kernel when the disk stops it, and of a file that is written there may be only the
beginning.

* `Stage`, `InstallError.stage?` — the steps, and the step that an error comes from.
* `Request.Remains` — what is left when a step fails.
* `Request.Course.early` — what holds of the first three steps wherever the paths lead.
* `Request.Course.remains` — what is left, if nothing on the way depends on the old kernel.
* `Request.install_failed` — **what a failed installation leaves**.
* `Request.install_failed_halfway`, `Request.install_not_rolled_back` — two that lose the old
  kernel, the one in part and the other one altogether.
-/

set_option autoImplicit false
namespace KernelRegistry

open Text (Bytes)

/-! ## Stages -/

/-- The steps of an installation that can fail, in their order. -/
inductive Stage where
  /-- To find the place to install to. -/
  | resolving
  /-- To decide that what is there may give way. -/
  | refusing
  | removing
  /-- To copy the bundle, with its template. -/
  | copying
  /-- To read the template back. -/
  | reading
  | rendering
  /-- To write the kernel file over the template. -/
  | writing
  deriving DecidableEq, Repr

/-- The step that an error comes from.  Errors of a manifest or of its parameters do not come from
an installation, which has a request to start with. -/
def InstallError.stage? : InstallError → Option Stage
  | .destination _ | .process .. => some .resolving
  | .alreadyInstalled _ => some .refusing
  | .kernelJson .. => some .rendering
  | .fileSystem operation _ _ =>
    match operation with
    | "resolve prefix" => some .resolving
    | "remove" => some .removing
    | "copy kernelspec" => some .copying
    | "read" => some .reading
    | "write" => some .writing
    | _ => none
  | .manifest .. | .parameter .. | .validation _ => none

namespace Resolver

variable {resolver : Resolver} {m : Machine} {registry : Registry} {e : InstallError}

theorem capturedOutput_error {command : String} {arguments : List String}
    {ran : Except LaunchError Finished}
    (h : capturedOutput command arguments ran = .error e) : e.stage? = some .resolving := by
  cases ran with
  | error failure =>
    cases h
    rfl
  | ok finished =>
    simp only [capturedOutput] at h
    split at h
    · cases h
    · cases h
      rfl

theorem environmentDirectory_error (h : resolver.environmentDirectory m = .error e) :
    e.stage? = some .resolving := by
  rw [environmentDirectory] at h
  cases hcapture : m.capture resolver.interpreter probeArguments with
  | error e' =>
    rw [hcapture] at h
    cases h
    exact capturedOutput_error hcapture
  | ok report =>
    rw [hcapture] at h
    simp only [bind, Except.bind] at h
    split at h
    · cases h
      rfl
    · cases h

theorem absoluteDirectory_error {p : Path} (h : absoluteDirectory m p = .error e) :
    e.stage? = some .resolving := by
  rw [absoluteDirectory] at h
  split at h
  · cases h
  · cases h
    rfl

/-- The name of a data directory is found out before anything is done. -/
theorem dataDirectory_error (h : resolver.dataDirectory m registry = .error e) :
    e.stage? = some .resolving := by
  cases registry with
  | system => cases h
  | user =>
    rw [dataDirectory] at h
    split at h
    · cases h
    · cases h
      rfl
  | interpreter =>
    rw [dataDirectory] at h
    cases hdirectory : resolver.environmentDirectory m with
    | error e' =>
      rw [hdirectory] at h
      cases h
      exact environmentDirectory_error hdirectory
    | ok p =>
      rw [hdirectory] at h
      cases h
  | below p =>
    rw [dataDirectory] at h
    split at h
    · cases h
    cases habsolute : absoluteDirectory m p with
    | error e' =>
      rw [habsolute] at h
      cases h
      exact absoluteDirectory_error habsolute
    | ok q =>
      rw [habsolute] at h
      cases h
  | legacy =>
    rw [dataDirectory] at h
    split at h
    · cases h
    · cases h
      rfl

end Resolver

/-! ## What is left -/

namespace Request

open FileTree Resolver

/-- The image of the bundle is at the destination, with the template as its kernel file. -/
structure Imaged (t u : FileTree) (working : Location) (r : Request) (destination x : Location) :
    Prop where
  directory : u.node? destination = some .directory
  node : ∀ below, u.node? (destination ++ below) = t.image working r.manifest.bundle x below

/-- The same, but the kernel file holds only the beginning of what was made from the template,
because the disk has stopped the write that came after the template was cut off. -/
structure Torn [Disk] (t u : FileTree) (working : Location) (r : Request) (p : Path)
    (destination x : Location) : Prop where
  directory : u.node? destination = some .directory
  node : ∃ mode content template rendered cut,
    t.image working r.manifest.bundle x [kernelFileBytes] = some (.file mode content) ∧
      Text.decode? content = some template ∧
      Template.render template p r.environment = .ok rendered ∧
      Disk.Cut (Text.encode rendered) cut ∧
      ∀ below, u.node? (destination ++ below) =
        if below = [kernelFileBytes] then some (.file mode cut)
        else t.image working r.manifest.bundle x below

/-- The tree that is left when an installation fails at a stage.  Nothing of the old kernel outlives
the removal, so from then on all that is left is made from the bundle alone. -/
def Remains [Disk] (t : FileTree) (working : Location) (r : Request) (p : Path)
    (destination x : Location) (u : FileTree) : Stage → Prop
  | .resolving | .refusing => u = t
  | .removing => ∃ cause, RemovalFails t destination cause u
  | .copying => ∀ below n, u.node? (destination ++ below) = some n →
      Copied t working r.manifest.bundle x below n
  | .reading | .rendering => Imaged t u working r destination x
  | .writing => Imaged t u working r destination x ∨ Torn t u working r p destination x

section Failed

variable [Disk] {listing : Listing} {resolver : Resolver} {m : Machine} {r : Request}
variable {t c u : FileTree} {above x : Location} {parent : Path} {name : Bytes} {e : InstallError}
variable {replaced : Bool} {count : Nat}

omit [Disk] in
theorem destination_error (h : r.destination resolver m = .error e) :
    e.stage? = some .resolving := by
  rw [destination, kernelDirectory] at h
  cases hdata : resolver.dataDirectory m r.registry with
  | error e' =>
    rw [hdata] at h
    cases h
    exact dataDirectory_error hdata
  | ok data =>
    rw [hdata] at h
    cases h

omit [Disk] in
theorem stage?_fault (fault : Template.Fault) (p : Path) :
    (fault.error p).stage? = some .rendering := by
  cases fault <;> rfl

/-- Every error of an installation comes from one of the seven steps. -/
theorem Course.stage (h : Course listing resolver m r t (.error e) u) :
    ∃ stage, e.stage? = some stage := by
  cases h with
  | unresolved hresolve => exact ⟨_, destination_error hresolve⟩
  | refused | notRemoved | notCopied | notRead | notWritten => exact ⟨_, rfl⟩
  | notRendered => exact ⟨_, stage?_fault ..⟩

/-- Up to the removal, only the removal itself changes anything. -/
theorem Course.early (h : Course listing resolver m r t (.error e) u) :
    (e.stage? = some .resolving ∨ e.stage? = some .refusing → u = t) ∧
      (e.stage? = some .removing → ∃ p cause, r.destination resolver m = .ok p ∧
        e = .fileSystem "remove" p (.file cause) ∧ t.existsAt m.working p = true ∧
        removeAll m.working p t = .error cause u) := by
  cases h with
  | unresolved hresolve =>
    rw [destination_error hresolve]
    exact ⟨fun _ => rfl, nofun⟩
  | refused => exact ⟨fun _ => rfl, nofun⟩
  | notRemoved hresolve hexists _ hremove =>
    exact ⟨nofun, fun _ => ⟨_, _, hresolve, rfl, hexists, hremove⟩⟩
  | notCopied | notRead | notWritten => exact ⟨nofun, nofun⟩
  | notRendered =>
    rw [stage?_fault]
    exact ⟨nofun, nofun⟩

/-- **A copy that fails has put nothing else than parts of the image at the destination.** -/
theorem Layout.copied_part (hlayout : Layout t m.working parent name r.manifest.bundle above x)
    (hlisting : listing.Exact) (hcleared : Cleared t c (above ++ [name])) {cause : FileError}
    (hcopy : copyTree listing m.working r.manifest.bundle (parent.join ⟨name⟩) c = .error cause u)
    {below : Location} {n : Node} (hn : u.node? (above ++ [name] ++ below) = some n) :
    Copied t m.working r.manifest.bundle x below n := by
  have happroach := hlayout.toClearDestination.cleared hcleared
  rcases copyTree_cases happroach listing r.manifest.bundle with
    ⟨_, v, hmade, herror⟩ | ⟨b, hmade, hmake, hentries⟩
  · rw [herror] at hcopy
    cases hcopy
    exact .inl (happroach.made_below hcleared happroach.follows hmade hn)
  · have hb := hlayout.prepared hcleared hmake
    have hadvance := Apart.copyEntries hb.ready hb.source hlisting
      (Inside.of_empty (.inl ⟨rfl, rfl⟩) hb.destination hb.empty)
      ((Path.Follows.refl parent).join hlayout.isName) (.root b r.manifest.bundle x)
      (pathLimit - 1)
    rw [hentries] at hcopy
    rw [Action.after_of_error hcopy] at hadvance
    have hcopied := hadvance.inside.node below n hn
    rwa [Copied, hb.image] at hcopied

/-- A copy that has succeeded leaves the image, whatever fails after it. -/
theorem Layout.imaged (hlayout : Layout t m.working parent name r.manifest.bundle above x)
    (hlisting : listing.Exact) (hcleared : Cleared t c (above ++ [name]))
    (hcopy : copyTree listing m.working r.manifest.bundle (parent.join ⟨name⟩) c = .ok count u) :
    Imaged t u m.working r (above ++ [name]) x := by
  obtain ⟨b, hb, -, hdirectory, himage⟩ := hlayout.copied hlisting hcleared
    ((Action.EqOrRefused.copyTree ..).of_ok hcopy)
  have hx : t.node? (x ++ []) = some .directory := by
    rw [← hb.node, List.append_nil]
    exact hdirectory
  refine ⟨?_, fun below => (himage below).1⟩
  rw [← List.append_nil (above ++ [name]), (himage []).1, image_of_not_link hx (by simp)]

/-- If the kernel file cannot be written, the template is in its place as it was copied, or there is
the beginning of what was to be written. -/
theorem Layout.torn (hlayout : Layout t m.working parent name r.manifest.bundle above x)
    (hlisting : listing.Exact) (hcleared : Cleared t c (above ++ [name]))
    (hcopy : copyTree listing m.working r.manifest.bundle (parent.join ⟨name⟩) c = .ok count u)
    {template rendered : String} {v : FileTree} {cause : FileError}
    (hread : u.textAt m.working r.manifest.template = .ok template)
    (hrender : Template.render template (parent.join ⟨name⟩) r.environment = .ok rendered)
    (hwrite : FileTree.writeFile m.working ((parent.join ⟨name⟩).joinText kernelFileName)
      (Text.encode rendered) u = .error cause v) :
    Imaged t v m.working r (above ++ [name]) x ∨
      Torn t v m.working r (parent.join ⟨name⟩) (above ++ [name]) x := by
  have himaged := hlayout.imaged hlisting hcleared hcopy
  obtain ⟨b, hb, hu, hdirectory, himage⟩ := hlayout.copied hlisting hcleared
    ((Action.EqOrRefused.copyTree ..).of_ok hcopy)
  have himage := fun below => (himage below).1
  obtain ⟨mode, content, hold, hdecode⟩ := hb.template_copied hu hdirectory himage hread
  rcases hb.notWritten hu hdirectory himage hread hwrite with
    hsame | ⟨mode', content', cut, hold', hcut, hnode⟩
  · exact .inl ⟨(hsame _).trans himaged.directory, fun below => (hsame _).trans (himage below)⟩
  · cases hold.symm.trans hold'
    refine .inr ⟨?_, mode, content, template, rendered, cut, (himage _).symm.trans hold, hdecode,
      hrender, hcut, fun below => ?_⟩
    · rw [hnode, if_neg (by simp)]
      exact himaged.directory
    · simp only [hnode, List.append_cancel_left_eq, himage]

/-- **What is left follows from the step that failed.** -/
theorem Course.remains (h : Course listing resolver m r t (.error e) u) (hlisting : listing.Exact)
    (hdestination : r.destination resolver m = .ok (parent.join ⟨name⟩))
    (hlayout : Layout t m.working parent name r.manifest.bundle above x)
    (hoverlaid : ¬ Overlaid t m.working (parent.join ⟨name⟩) (above ++ [name])) :
    ∃ stage, e.stage? = some stage ∧
      Remains t m.working r (parent.join ⟨name⟩) (above ++ [name]) x u stage := by
  have hcleared : ∀ {p replaced c}, r.destination resolver m = .ok p →
      Clearing m.working r p t replaced c →
        p = parent.join ⟨name⟩ ∧ Cleared t c (above ++ [name]) := by
    intro p replaced c hresolve hclear
    obtain rfl := Except.ok.inj (hdestination.symm.trans hresolve)
    exact ⟨rfl, (hclear.cleared hlayout.toClearDestination hoverlaid).1⟩
  cases h with
  | unresolved hresolve => exact ⟨.resolving, destination_error hresolve, rfl⟩
  | refused => exact ⟨.refusing, rfl, rfl⟩
  | notRemoved hresolve hexists _ hremove =>
    obtain rfl := Except.ok.inj (hdestination.symm.trans hresolve)
    obtain ⟨above', hgoal, hfails⟩ :=
      removeAll_error ⟨hlayout.proper.root, hlayout.origin⟩ hlayout.isName hexists hremove
    obtain rfl := Option.some.inj (hlayout.goal.symm.trans hgoal)
    exact ⟨.removing, rfl, _, hfails⟩
  | notCopied hresolve hclear hcopy =>
    obtain ⟨rfl, hcleared⟩ := hcleared hresolve hclear
    exact ⟨.copying, rfl, fun _ _ => hlayout.copied_part hlisting hcleared hcopy⟩
  | notRead hresolve hclear hcopy =>
    obtain ⟨rfl, hcleared⟩ := hcleared hresolve hclear
    exact ⟨.reading, rfl, hlayout.imaged hlisting hcleared hcopy⟩
  | notRendered hresolve hclear hcopy =>
    obtain ⟨rfl, hcleared⟩ := hcleared hresolve hclear
    exact ⟨.rendering, stage?_fault .., hlayout.imaged hlisting hcleared hcopy⟩
  | notWritten hresolve hclear hcopy hread hrender hwrite =>
    obtain ⟨rfl, hcleared⟩ := hcleared hresolve hclear
    exact ⟨.writing, rfl,
      hlayout.torn hlisting hcleared hcopy (readText_eq_ok hread).2 hrender hwrite⟩

/-- **What a failed installation leaves**, whatever the disk does.  It is not rolled back.

Up to the decision that the old kernel may give way, a failure leaves everything as it was; a
removal that fails has changed nothing, or the disk has stopped it and it has removed a part of the
old kernel.  These three hold wherever the paths lead.  Later, nothing of the old kernel is left.
If the copy fails, then nothing else than parts of the image of the bundle is there.  If the
template cannot be read or filled in, then the image is there with the template as it is; the same
is left if the kernel file cannot be written, or the kernel file is cut short.  What is elsewhere is
spared in any case. -/
theorem install_failed {site site' : Site} (hcheck : r.manifest.check = .ok ())
    (hdot : r.manifest.kernelName ≠ ".") (hdots : r.manifest.kernelName ≠ "..")
    (hroot : site.tree.node? [] = some .directory)
    (hworking : ∀ n, site.tree.node? m.working = some n → n = .directory)
    (hlisting : listing.Exact) (hinstall : r.install listing resolver m site = .error e site') :
    ∃ stage, e.stage? = some stage ∧
      (stage = .resolving ∨ stage = .refusing → site'.tree = site.tree) ∧
      (stage = .removing → ∃ data above cause,
        resolver.dataDirectory m r.registry = .ok data ∧
          (site.tree.wayTo m.working (kernelsBelow data)).goal = some above ∧
          e = .fileSystem "remove" (kernelBelow data r.manifest.kernelName) (.file cause) ∧
          RemovalFails site.tree (above ++ [fileName r.manifest.kernelName]) cause site'.tree) ∧
      ∀ data above x, resolver.dataDirectory m r.registry = .ok data →
        Layout site.tree m.working (kernelsBelow data) (fileName r.manifest.kernelName)
          r.manifest.bundle above x →
        ¬ Overlaid site.tree m.working (kernelBelow data r.manifest.kernelName)
          (above ++ [fileName r.manifest.kernelName]) →
        Spared site.tree site'.tree (above ++ [fileName r.manifest.kernelName]) ∧
          Remains site.tree m.working r (kernelBelow data r.manifest.kernelName)
            (above ++ [fileName r.manifest.kernelName]) x site'.tree stage := by
  have hcourse := course_of_error hinstall
  have hname := (isName_fileName_iff (isKernelName_of_check hcheck)).2 ⟨hdot, hdots⟩
  obtain ⟨stage, hstage⟩ := hcourse.stage
  obtain ⟨hunchanged, hremoving⟩ := hcourse.early
  simp only [hstage, Option.some.injEq] at hunchanged hremoving
  refine ⟨stage, hstage, hunchanged, fun hstage => ?_,
    fun data above x hdata hlayout hoverlaid => ?_⟩
  · obtain ⟨p, cause, hdestination, herror, hexists, hremove⟩ := hremoving hstage
    obtain ⟨data, hdata, rfl⟩ := destination_eq hdestination
    obtain ⟨above, hgoal, hfails⟩ :=
      removeAll_error (.of_working hroot hworking (kernelsBelow data)) hname hexists hremove
    exact ⟨data, above, cause, hdata, hgoal, herror, hfails⟩
  · have hdestination : r.destination resolver m =
        .ok ((kernelsBelow data).join ⟨fileName r.manifest.kernelName⟩) := by
      rw [destination, kernelDirectory, hdata]
      rfl
    refine ⟨hcourse.spared hlisting hdestination hlayout.toClearDestination hworking hoverlaid, ?_⟩
    obtain ⟨stage', hstage', hremains⟩ := hcourse.remains hlisting hdestination hlayout hoverlaid
    obtain rfl : stage = stage' := Option.some.inj (hstage.symm.trans hstage')
    exact hremains

end Failed

end Request

/-! ## Two failures that lose the old kernel -/

namespace Sample

open FileTree Request

/-! ### A template that is no object -/

/-- The tree before it: the template is a list. -/
def listed : FileTree := tree "[]" [stale]

/-- The error that is reported. -/
def notObject : InstallError := Template.Fault.notObject.error replacing.manifest.template

theorem course_notObject :
    Course listing (replacing.resolver (machine listed)) (machine listed) replacing listed
      (.error notObject) (tree "[]" [("demo", directory (copied "[]"))]) := by
  have hremove : removeAll [] (target "env") listed = .ok true (tree "[]" []) := by decide +kernel
  have hcopy : copyTree listing [] replacing.manifest.bundle (target "env") (tree "[]" []) =
      .ok 2 (tree "[]" [("demo", directory (copied "[]"))]) := by decide +kernel
  have hread : readText [] replacing.manifest.template
      (tree "[]" [("demo", directory (copied "[]"))]) =
      .ok "[]" (tree "[]" [("demo", directory (copied "[]"))]) := by decide +kernel
  have hrender : Template.render "[]" (target "env") .empty = .error .notObject := by decide +kernel
  exact .notRendered (by decide +kernel) (.removed (by decide +kernel) rfl hremove) hcopy hread
    hrender

/-! ### A file that cannot be removed -/

/-- A file cannot be removed. -/
def refuseUnlink (stuck : Location) : Call → Option FileTree.Refusal
  | .unlink place => if place = stuck then some ⟨.permissionDenied, 0, nofun⟩ else none
  | _ => none

/-- A disk on which a file of the old kernel cannot be removed. -/
@[reducible]
def sticky : Disk where
  refusal? call _ := refuseUnlink (kernels ++ location ["demo", "stale.txt"]) call

/-- A kernel that has another file beside it. -/
def aged : FileTree :=
  tree "{}" [("demo", directory [("kernel.json", file "{}"), ("stale.txt", file "stale")])]

/-- The error that is reported. -/
def notRemoved : InstallError := .fileSystem "remove" (target "env") (.file .permissionDenied)

theorem course_sticky :
    @Course sticky listing (replacing.resolver (machine aged)) (machine aged) replacing aged
      (.error notRemoved) (tree "{}" [stale]) := by
  have hremove : @removeAll sticky [] (target "env") aged =
      .error .permissionDenied (tree "{}" [stale]) := by decide +kernel
  exact @Course.notRemoved sticky _ _ _ _ _ _ _ _ (by decide +kernel) (by decide +kernel) rfl
    hremove

end Sample

namespace Request

open FileTree Resolver Sample

/-- A template that is no object stays where it was copied to. -/
theorem install_failed_notObject : ∃ site',
    replacing.install listing (replacing.resolver (machine listed)) (machine listed) ⟨listed, []⟩ =
        .error notObject site' ∧
      Spared listed site'.tree (kernels ++ [fileName "demo"]) ∧
      Imaged listed site'.tree [] replacing (kernels ++ [fileName "demo"])
        (location ["kernel"]) := by
  obtain ⟨site', herror, -⟩ := Course.install_eq_error (s := ⟨listed, []⟩) course_notObject
  have hcheck : replacing.manifest.check = .ok () := by decide +kernel
  have hregistry : (replacing.resolver (machine listed)).dataDirectory (machine listed)
      replacing.registry = .ok (.ofString "/env/share/jupyter") := by decide +kernel
  have hlayout : Layout listed [] (kernelsBelow (.ofString "/env/share/jupyter")) (fileName "demo")
      replacing.manifest.bundle kernels (location ["kernel"]) :=
    layout_of_isLayout (by decide +kernel)
  have hthere :
    listed.existsAt [] (kernelBelow (.ofString "/env/share/jupyter") "demo") = true := by
    decide +kernel
  have hworking : ∀ n, listed.node? (machine listed).working = some n → n = .directory :=
    fun n hn => (Option.some.inj hn).symm
  obtain ⟨stage, hstage, -, -, hleft⟩ := install_failed hcheck (by decide) (by decide) (by rfl)
    hworking listing_exact herror
  obtain ⟨hspared, hremains⟩ := hleft _ kernels (location ["kernel"]) hregistry hlayout
    fun hoverlaid => absurd (hthere.symm.trans hoverlaid.1) (by decide)
  obtain rfl : Stage.rendering = stage := Option.some.inj hstage
  exact ⟨site', herror, hspared, hremains⟩

/-- **A removal that the disk stops leaves a part of the old kernel**, which is neither the old one
nor none. -/
theorem install_failed_halfway : ∃ site',
    @install sticky listing (replacing.resolver (machine aged)) (machine aged) replacing
        ⟨aged, []⟩ = .error notRemoved site' ∧
      aged.node? (kernels ++ location ["demo", "kernel.json"]) ≠ none ∧
      site'.tree.node? (kernels ++ location ["demo", "kernel.json"]) = none ∧
      site'.tree.node? (kernels ++ location ["demo", "stale.txt"]) =
        some (.file newFileMode (Text.encode "stale")) := by
  obtain ⟨site', herror, htree⟩ :=
    @Course.install_eq_error sticky _ _ _ _ ⟨aged, []⟩ _ _ course_sticky
  have hthere : aged.node? (kernels ++ location ["demo", "kernel.json"]) =
      some (.file newFileMode (Text.encode "{}")) := by decide +kernel
  refine ⟨site', herror, by rw [hthere]; simp, ?_, ?_⟩
  · rw [htree]
    decide +kernel
  · rw [htree]
    decide +kernel

/-- **A failed installation is not rolled back**: the kernel that was there is gone, and the
template is in its place. -/
theorem install_not_rolled_back :
    replacing.check (machine listed) = .ok () ∧ ∃ e site',
      replacing.install listing (replacing.resolver (machine listed)) (machine listed)
          ⟨listed, []⟩ = .error e site' ∧
        listed.node? (kernels ++ location ["demo", "stale.txt"]) =
          some (.file newFileMode (Text.encode "stale")) ∧
        site'.tree.node? (kernels ++ location ["demo", "stale.txt"]) = none ∧
        site'.tree.node? (kernels ++ location ["demo", "kernel.json"]) =
          some (.file newFileMode (Text.encode "[]")) := by
  obtain ⟨site', herror, htree⟩ := Course.install_eq_error (s := ⟨listed, []⟩) course_notObject
  have hbundle : listed.isDirectoryAt [] replacing.manifest.bundle = true := by decide +kernel
  have htemplate : listed.isFileAt [] replacing.manifest.template = true := by decide +kernel
  refine ⟨?_, notObject, site', herror, by decide +kernel, ?_, ?_⟩
  · simp [check, machine, hbundle, htemplate]
  · rw [htree]
    decide +kernel
  · rw [htree]
    decide +kernel

end Request
end KernelRegistry
