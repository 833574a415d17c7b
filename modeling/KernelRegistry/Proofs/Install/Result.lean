import KernelRegistry.Proofs.Except
import KernelRegistry.Proofs.FileTree.Approach
import KernelRegistry.Proofs.FileTree.Computed
import KernelRegistry.Proofs.Install.Course

/-!
# What an installation installs

An installation puts an image of its bundle at the destination, with one file of it made from a
template, and leaves nothing else there.  This takes that the destination has nothing to do with the
bundle, and that what is there is seen before directories are made on the way.

* `Request.Layout` — what is asked of the places that an installation works with.
* `Request.Overlaid` — something is at the destination that is not seen there, because its path
  comes through a directory that is still missing.
* `Request.installed` — what an installation has to leave at the destination.
* `Layout.copied`, `Prepared.written` — what copying and writing the kernel file leave there.
* `Request.install_result` — **what an installation leaves at its destination**.
* `Request.install_overlays` — one that leaves more there, because the destination was not seen.
-/

set_option autoImplicit false
namespace KernelRegistry
namespace Request

open FileTree
open Text (Bytes)

/-- The name of the kernel file. -/
def kernelFileBytes : Bytes := Text.encode kernelFileName

theorem isName_kernelFileBytes : Path.IsName kernelFileBytes := by decide

/-- The destination is a name in a directory, its path is clear of it, and so is the bundle with
everything that is linked to from there.  No directory on the way to the destination has to be made
inside of the bundle. -/
structure Layout (t : FileTree) (working : Location) (parent : Path) (name : Bytes) (bundle : Path)
    (above x : Location) : Prop extends ClearDestination t working parent above name where
  source : Apart t working bundle (above ++ [name]) x
  unmade : ∀ y ∈ (t.wayTo working parent).stops, x <+: y → t.node? y ≠ none

/-- A check for `Layout`. -/
def isLayout (t : FileTree) (working : Location) (parent : Path) (name : Bytes) (bundle : Path)
    (above x : Location) : Bool :=
  t.isClearDestination working above parent name && t.isApart working (above ++ [name]) x bundle &&
    (t.wayTo working parent).stops.all fun y => !x.isPrefixOf y || (t.node? y).isSome

theorem layout_of_isLayout {t : FileTree} {working above x : Location} {parent bundle : Path}
    {name : Bytes} (h : isLayout t working parent name bundle above x = true) :
    Layout t working parent name bundle above x := by
  rw [isLayout, Bool.and_eq_true, Bool.and_eq_true, List.all_eq_true] at h
  obtain ⟨⟨happroach, hapart⟩, hunmade⟩ := h
  refine ⟨clearDestination_of_isClearDestination happroach, apart_of_isApart hapart,
    fun y hy hx => ?_⟩
  have := hunmade y hy
  rw [List.isPrefixOf_iff_prefix.2 hx] at this
  simpa [Option.isSome_iff_ne_none] using this

/-- Something is at the destination, but its path does not lead there until the directories that it
comes through have been made. -/
def Overlaid (t : FileTree) (working : Location) (p : Path) (destination : Location) : Prop :=
  t.existsAt working p = false ∧ t.node? destination ≠ none

/-- The kernel file that is made from a template with some permissions. -/
def kernelFile (r : Request) (p : Path) : Option Node → Option Node
  | some (.file mode content) =>
    match Text.decode? content with
    | some template =>
      match Template.render template p r.environment with
      | .ok rendered => some (.file mode (Text.encode rendered))
      | .error _ => none
    | none => none
  | _ => none

/-- The specification of an installation, place by place: the image of the bundle, where the kernel
file is made from its template. -/
def installed (t : FileTree) (working : Location) (r : Request) (p : Path) (x below : Location) :
    Option Node :=
  let image := t.image working r.manifest.bundle x below
  if below = [kernelFileBytes] then kernelFile r p image else image

section Result

variable {listing : Listing} {t c u v : FileTree} {working above x : Location} {parent : Path}
variable {name : Bytes} {r : Request} {replaced : Bool}

/-- **What is found at the destination is removed**, and nothing else is changed. -/
theorem Clearing.cleared [Disk] (hclear : Clearing working r (parent.join ⟨name⟩) t replaced c)
    (h : ClearDestination t working parent above name)
    (hoverlaid : ¬ Overlaid t working (parent.join ⟨name⟩) (above ++ [name])) :
    Cleared t c (above ++ [name]) ∧ (replaced = true ↔ t.node? (above ++ [name]) ≠ none) := by
  cases hclear with
  | nothing hexists =>
    have hnone : t.node? (above ++ [name]) = none := by
      by_cases hnone : t.node? (above ++ [name]) = none
      · exact hnone
      · exact absurd ⟨hexists, hnone⟩ hoverlaid
    exact ⟨Cleared.of_none hnone, by simp [hnone]⟩
  | removed hexists hreplace hremove =>
    obtain ⟨rfl, above', hgoal, hthere, hcleared⟩ :=
      removeAll_ok ⟨h.proper.root, h.origin⟩ h.isName hexists hremove
    obtain rfl : above = above' := Option.some.inj (h.goal.symm.trans hgoal)
    exact ⟨hcleared, by simp [hthere]⟩

/-- The tree in which the bundle is copied: everything on the way to the destination is there, the
destination is empty, and the bundle is what it was before. -/
structure Prepared (t b : FileTree) (working : Location) (parent : Path) (name : Bytes)
    (bundle : Path) (above x : Location) : Prop where
  ready : Ready b working parent above name
  source : Apart b working bundle (above ++ [name]) x
  node : ∀ below, b.node? (x ++ below) = t.node? (x ++ below)
  image : ∀ below, b.image working bundle x below = t.image working bundle x below
  destination : b.node? (above ++ [name]) = some .directory
  empty : ∀ below, below ≠ [] → b.node? (above ++ [name] ++ below) = none

theorem Layout.prepared [Disk] {bundle : Path} {b : FileTree}
    (h : Layout t working parent name bundle above x) (hc : Cleared t c (above ++ [name]))
    (hok : makeDirectories working (parent.join ⟨name⟩) c = .ok () b) :
    Prepared t b working parent name bundle above x := by
  have happroach := h.toClearDestination.cleared hc
  obtain ⟨hready, hdestination, hempty⟩ := happroach.ready hc happroach.follows hok
  have hmade := makeDirectories_made happroach.freeStart
  rw [Action.after_of_ok hok] at hmade
  have hway :=
    hready.toClearDestination.way (nodeAt_of_node? hready.directory) (nodeAt_of_node? hdestination)
  -- on the way, only the destination itself may have been at or below the destination
  have hunmade : ∀ y ∈ (c.wayTo working (parent.join ⟨name⟩)).stops, x <+: y →
      c.node? y ≠ none := by
    intro y hy hx
    have hy' : ¬ above ++ [name] <+: y := by
      obtain ⟨below, rfl⟩ := hx
      exact h.source.not_below below
    rw [← hmade.wayTo, hway, hmade.wayTo, hc.wayTo h.clear] at hy
    rcases List.mem_append.1 hy with hy | hy
    · rw [hc.elsewhere y hy']
      exact h.unmade y hy hx
    · rw [List.mem_singleton.1 hy] at hy'
      exact absurd (List.prefix_refl _) hy'
  have hsource := h.source.cleared hc
  refine ⟨hready, hsource.made hmade happroach.proper.root hunmade, fun below => ?_,
    fun below => ?_,
    hdestination, hempty⟩
  · rw [hmade.node?_source hunmade, hc.elsewhere _ (h.source.not_below below)]
  · rw [hmade.image hunmade, h.source.image_eq hc.elsewhere fun _ => hc.nodeAt]

/-! ## Copying the bundle -/

/-- **A bundle that was copied is at the destination as its image says.** -/
theorem Layout.copied {bundle : Path} (h : Layout t working parent name bundle above x)
    (hlisting : listing.Exact) (hc : Cleared t c (above ++ [name])) {count : Nat}
    (hcopy : copyTree listing working bundle (parent.join ⟨name⟩) c = .ok count u) :
    ∃ b, Prepared t b working parent name bundle above x ∧
      Inside b (above ++ [name]) (Copied b working bundle x) u ∧ b.node? x = some .directory ∧
      ∀ below, u.node? (above ++ [name] ++ below) = t.image working bundle x below ∧
        (t.node? (x ++ below) ≠ none → t.image working bundle x below ≠ none) := by
  rw [copyTree_eq] at hcopy
  obtain ⟨_, b, hmake, hentries⟩ := bind_eq_ok hcopy
  have hb := h.prepared hc hmake
  have hinside : Inside b (above ++ [name]) (Copied b working bundle x) b :=
    Inside.of_empty (.inl ⟨rfl, rfl⟩) hb.destination hb.empty
  have hfollows := (Path.Follows.refl parent).join h.isName
  have hadvance := Apart.copyEntries hb.ready hb.source hlisting hinside hfollows
    (.root b bundle x) (pathLimit - 1)
  rw [Action.after_of_ok hentries] at hadvance
  obtain ⟨hdirectory, himage⟩ := Apart.copyEntries_image hb.ready hb.source hlisting hinside
    (by rw [hb.destination]; simp) hfollows (pathLimit - 1) hentries
  refine ⟨b, hb, hadvance.inside, hdirectory, fun below => ?_⟩
  rw [← hb.image, ← hb.node]
  exact himage below

/-! ## Writing the kernel file -/

theorem textAt_eq_ok {p : Path} {text : String} (h : t.textAt working p = .ok text) :
    ∃ here mode content, find t working true p = .ok (here, .file mode content) ∧
      Text.decode? content = some text := by
  rw [textAt, bytesAt] at h
  cases hfind : find t working true p with
  | error e => rw [hfind] at h; cases h
  | ok found =>
    obtain ⟨here, node⟩ := found
    rw [hfind] at h
    cases node with
    | file mode content =>
      refine ⟨here, mode, content, rfl, ?_⟩
      cases hdecode : Text.decode? content with
      | some s =>
        simp only [bind, Except.bind, pure, Except.pure, hdecode] at h
        rw [Except.ok.inj h]
      | none =>
        simp only [bind, Except.bind, pure, Except.pure, hdecode] at h
        cases h
    | link | directory => cases h

section Finish

variable {b : FileTree} {template : String}
variable (hb : Prepared t b working parent name r.manifest.bundle above x)
variable (hu : Inside b (above ++ [name]) (Copied b working r.manifest.bundle x) u)
variable (hdirectory : b.node? x = some .directory)
variable (himage : ∀ below, u.node? (above ++ [name] ++ below) =
  t.image working r.manifest.bundle x below)
include hb hu hdirectory himage

/-- A template that was read is at the destination, where it was copied to. -/
theorem Prepared.template_copied (hread : u.textAt working r.manifest.template = .ok template) :
    ∃ mode content, u.node? (above ++ [name] ++ [kernelFileBytes]) = some (.file mode content) ∧
      Text.decode? content = some template := by
  have hnames : ∀ n ∈ [kernelFileBytes], Path.IsName n := by simpa using isName_kernelFileBytes
  obtain ⟨here, mode, content, hfind, hdecode⟩ := textAt_eq_ok hread
  have hcontent := hb.source.content_of_find (Copied.plain b working r.manifest.bundle x) hu
    hdirectory isName_kernelFileBytes (Apart.freeStart hb.ready hb.source hu hnames) hfind
  refine ⟨mode, content, ?_, hdecode⟩
  rw [himage, ← hb.image, hcontent]

/-- **The kernel file is written in place of its template**, and nothing else is changed. -/
theorem Prepared.written {rendered : String}
    (hread : u.textAt working r.manifest.template = .ok template)
    (hrender : Template.render template (parent.join ⟨name⟩) r.environment = .ok rendered)
    (hwrite : FileTree.writeFile working ((parent.join ⟨name⟩).joinText kernelFileName)
      (Text.encode rendered) u = .ok () v) :
    (∀ below, v.node? (above ++ [name] ++ below) =
        installed t working r (parent.join ⟨name⟩) x below) ∧
      (∀ below, u.node? (above ++ [name] ++ below) ≠ none →
        v.node? (above ++ [name] ++ below) ≠ none) ∧
      ∀ y, ¬ above ++ [name] <+: y → v.node? y = u.node? y := by
  have hnames : ∀ n ∈ [] ++ [kernelFileBytes], Path.IsName n := by
    simpa using isName_kernelFileBytes
  obtain ⟨mode, content, hold, hdecode⟩ := hb.template_copied hu hdirectory himage hread
  have hnode := hu.writeFile_present hb.ready (Copied.plain b working r.manifest.bundle x) hnames
    (((Path.Follows.refl parent).join hb.ready.isName).join isName_kernelFileBytes)
    (fun part hpart => .inl ⟨List.prefix_nil.1 hpart, rfl⟩) hold hwrite
  simp only [List.nil_append] at hnode
  refine ⟨fun below => ?_, fun below hbelow => ?_, fun y hy => ?_⟩
  · rw [hnode, installed, ← himage]
    by_cases hbelow : below = [kernelFileBytes]
    · subst hbelow
      rw [if_pos rfl, if_pos rfl, hold, kernelFile, hdecode]
      simp only [hrender]
    · rw [if_neg fun h => hbelow (List.append_cancel_left h), if_neg hbelow]
  · rw [hnode]
    split
    · simp
    · exact hbelow
  · rw [hnode, if_neg]
    rintro rfl
    exact hy (List.prefix_append _ _)

/-- If the kernel file cannot be written, the template is still in its place, or the disk has
stopped while the kernel file was written over it. -/
theorem Prepared.notWritten [Disk] {content : Bytes} {e : FileError}
    (hread : u.textAt working r.manifest.template = .ok template)
    (hwrite : FileTree.writeFile working ((parent.join ⟨name⟩).joinText kernelFileName)
      content u = .error e v) :
    (∀ y, v.node? y = u.node? y) ∨ ∃ mode old cut,
      u.node? (above ++ [name] ++ [kernelFileBytes]) = some (.file mode old) ∧
      Disk.Cut content cut ∧ ∀ y, v.node? y =
        if y = above ++ [name] ++ [kernelFileBytes] then some (.file mode cut) else u.node? y := by
  have hnames : ∀ n ∈ [] ++ [kernelFileBytes], Path.IsName n := by
    simpa using isName_kernelFileBytes
  obtain ⟨mode, old, hold, -⟩ := hb.template_copied hu hdirectory himage hread
  have hplain := @Copied.plain Disk.sound b working r.manifest.bundle x
  have hwritten := hu.writeFile_error hb.ready hplain hnames
    (((Path.Follows.refl parent).join hb.ready.isName).join isName_kernelFileBytes)
    (fun part hpart => .inl ⟨List.prefix_nil.1 hpart, rfl⟩) hold hwrite
  exact hwritten.imp_right fun ⟨cut, hcut, hnode⟩ => ⟨mode, old, cut, hold, hcut, hnode⟩

end Finish

theorem installed_eq_none {t : FileTree} {p : Path} {below : Location}
    (h : t.node? (x ++ below) = none) : installed t working r p x below = none := by
  have himage : t.image working r.manifest.bundle x below = none := by
    rw [image, h]
  rw [installed, himage]
  split <;> rfl

/-- **What is installed does not depend on what was at the destination before.** -/
theorem Layout.installed_eq {p : Path} (h : Layout t working parent name r.manifest.bundle above x)
    (hu : Layout u working parent name r.manifest.bundle above x)
    (helsewhere : ∀ y, ¬ above ++ [name] <+: y → u.node? y = t.node? y) (below : Location) :
    installed u working r p x below = installed t working r p x below := by
  have himage : u.image working r.manifest.bundle x below =
      t.image working r.manifest.bundle x below := by
    by_cases hdirectory : u.nodeAt (above ++ [name]) = .directory
    · exact h.source.image_eq helsewhere (fun _ => hdirectory) below
    · exact (hu.source.image_eq (fun y hy => (helsewhere y hy).symm)
        (fun h => absurd h hdirectory) below).symm
  rw [installed, installed, himage]

end Result

end Request

/-! ## A machine for examples -/

namespace Sample

open FileTree Request

/-- A directory with entries. -/
def directory (entries : List (String × FileTree)) : FileTree :=
  .directory (entries.map fun e => (Text.encode e.1, e.2))

/-- A file with a text. -/
def file (content : String) : FileTree := .file newFileMode (Text.encode content)

/-- A location by its names. -/
def location (names : List String) : Location := names.map Text.encode

/-- A bundle with a kernel file and a link, and an environment with some kernels. -/
def tree (template : String) (kernels : List (String × FileTree)) : FileTree :=
  directory [
    ("kernel", directory [
      ("kernel.json", file template),
      ("logo.svg", .link (Text.encode "../logo.svg"))]),
    ("logo.svg", file "logo"),
    ("env", directory [("share", directory [("jupyter", directory [
      ("kernels", directory kernels)])])])]

/-- The kernel that was installed before. -/
def stale : String × FileTree := ("demo", directory [("stale.txt", file "stale")])

/-- The copy of the bundle. -/
def copied (template : String) : List (String × FileTree) :=
  [("kernel.json", file template), ("logo.svg", file "logo")]

/-- A machine that works at its root. -/
def machine (t : FileTree) : Machine := { tree := t, working := [], bindings := [] }

/-- The installation of the bundle into an environment, under a name. -/
def request (kernelName environment : String) (replace : Bool) : Request where
  manifest := { kernelName }
  registry := .below (.ofString environment)
  replace
  interpreter := defaultInterpreter
  environment := .empty
  debug := false

/-- The directory of all kernels. -/
def kernels : Location := location ["env", "share", "jupyter", "kernels"]

/-- The kernel file that is made from an empty object. -/
def rendered : String := "\x7b\n    \"env\": \x7b\x7d\n\x7d"

/-- It is made for every directory, which is not mentioned in it. -/
theorem render_empty (p : Path) : Template.render "{}" p .empty = .ok rendered := by
  have hfill : Template.fill "{}" p = "{}" := by
    -- the token is in front of neither of the two characters
    show String.ofList (Template.replaceToken _ _ ['\x7b', '\x7d']) = "{}"
    rw [Template.replaceToken, if_neg (by decide), Template.replaceToken, if_neg (by decide),
      Template.replaceToken]
  rw [Template.render, Template.document, hfill]
  exact of_toOption_eq_some (by decide +kernel)

/-- The names of a directory in the order of their bytes. -/
def listing : Listing := id

theorem listing_exact : listing.Exact := fun _ => List.Perm.refl _

/-! ### Two installations -/

/-- The path of the directory of all kernels in an environment. -/
def parent (environment : String) : Path :=
  .ofString ("/" ++ environment ++ "/share/jupyter/kernels")

/-- The path of the kernel in an environment. -/
def target (environment : String) : Path := (parent environment).join ⟨Text.encode "demo"⟩

/-- An installation in place of another kernel. -/
def replacing : Request := request "demo" "env" true

/-- An installation whose destination has a path through a directory that is missing. -/
def overlaying : Request := request "demo" "missing/../env" false

/-- The tree before both of them. -/
def before : FileTree := tree "{}" [stale]

theorem course_replacing :
    Course listing (replacing.resolver (machine before)) (machine before) replacing before
      (.ok ⟨"demo", target "env", .empty, true⟩)
      (tree "{}" [("demo", directory (copied rendered))]) := by
  have hremove : removeAll [] (target "env") before = .ok true (tree "{}" []) := by decide +kernel
  have hcopy : copyTree listing [] replacing.manifest.bundle (target "env") (tree "{}" []) =
      .ok 2 (tree "{}" [("demo", directory (copied "{}"))]) := by decide +kernel
  have hread : readText [] replacing.manifest.template
      (tree "{}" [("demo", directory (copied "{}"))]) =
      .ok "{}" (tree "{}" [("demo", directory (copied "{}"))]) := by decide +kernel
  exact .done (by decide +kernel) (.removed (by decide +kernel) rfl hremove) hcopy hread
    (render_empty _) (by decide +kernel)

/-- The tree that is left if the destination is overlaid. -/
def overlaid (kernelFile : String) : FileTree :=
  (tree "{}" [("demo", directory (("stale.txt", file "stale") :: copied kernelFile))]).update
    (some (.directory [])) (location ["missing"])

theorem course_overlaying :
    Course listing (overlaying.resolver (machine before)) (machine before) overlaying before
      (.ok ⟨"demo", target "missing/../env", .empty, false⟩) (overlaid rendered) := by
  have hcopy : copyTree listing [] overlaying.manifest.bundle (target "missing/../env") before =
      .ok 2 (overlaid "{}") := by decide +kernel
  have hread : readText [] overlaying.manifest.template (overlaid "{}") =
      .ok "{}" (overlaid "{}") := by decide +kernel
  exact .done (by decide +kernel) (.nothing (by decide +kernel)) hcopy hread (render_empty _)
    (by decide +kernel)

end Sample

/-! ## Installing -/

namespace Request

open FileTree
open Text (Bytes)

/-- The destination has the image of the bundle, with the kernel file made from its template, and
nothing else; and something was replaced if there was something. -/
structure Installed (t t' : FileTree) (working : Location) (r : Request) (p : Path)
    (destination x : Location) (replaced : Bool) : Prop where
  replaced : replaced = true ↔ t.node? destination ≠ none
  node : ∀ below, t'.node? (destination ++ below) = installed t working r p x below
  paths : ∀ below, t'.node? (destination ++ below) ≠ none ↔ t.node? (x ++ below) ≠ none

section Install

variable [Disk] {listing : Listing} {resolver : Resolver} {m : Machine} {r : Request}
variable {site site' : Site} {report : Report} {parent : Path} {name : Bytes}
variable {above x : Location}

/-- **An installation that succeeds installs the bundle**, and reports whether something gave way,
which it does only if that was asked for.  The one exception is a destination that is not seen,
because its path comes through a directory that is still missing.  What is installed is the same
whatever was at the destination before. -/
theorem install_result (hlisting : listing.Exact)
    (hdestination : r.destination resolver m = .ok (parent.join ⟨name⟩))
    (hlayout : Layout site.tree m.working parent name r.manifest.bundle above x)
    (hok : r.install listing resolver m site = .ok report site') :
    report.destination = parent.join ⟨name⟩ ∧
      report.replaced = site.tree.existsAt m.working (parent.join ⟨name⟩) ∧
      (report.replaced = true → r.replace = true) ∧
      (Installed site.tree site'.tree m.working r (parent.join ⟨name⟩) (above ++ [name]) x
          report.replaced ↔
        ¬ Overlaid site.tree m.working (parent.join ⟨name⟩) (above ++ [name])) ∧
      ∀ u, Layout u m.working parent name r.manifest.bundle above x →
        (∀ y, ¬ above ++ [name] <+: y → u.node? y = site.tree.node? y) →
        ∀ below, installed u m.working r (parent.join ⟨name⟩) x below =
          installed site.tree m.working r (parent.join ⟨name⟩) x below := by
  have hcourse := course_of_ok hok
  cases hcourse with
  | @done p replaced c u v count template rendered hresolve hclear hcopy hread hrender hwrite =>
    obtain rfl : parent.join ⟨name⟩ = p := Except.ok.inj (hdestination.symm.trans hresolve)
    have hreplaced : replaced = site.tree.existsAt m.working (parent.join ⟨name⟩) := by
      cases hclear with
      | nothing hexists => exact hexists.symm
      | removed hexists hreplace hremove =>
        rw [hexists]
        exact (removeAll_ok ⟨hlayout.proper.root, hlayout.origin⟩ hlayout.isName hexists hremove).1
    refine ⟨rfl, hreplaced, fun h => ?_, ⟨fun h hoverlaid => ?_, fun hoverlaid => ?_⟩,
      fun u hu helsewhere => hlayout.installed_eq hu helsewhere⟩
    · cases hclear with
      | nothing => cases h
      | removed _ hreplace => exact hreplace
    · have hthere := h.replaced.2 hoverlaid.2
      rw [hreplaced, hoverlaid.1] at hthere
      cases hthere
    · obtain ⟨hcleared, hthere⟩ := hclear.cleared hlayout.toClearDestination hoverlaid
      -- what succeeds on this disk does the same on a sound one
      obtain ⟨b, hb, hu, hdirectory, himage⟩ := hlayout.copied hlisting hcleared
        ((Action.EqOrRefused.copyTree ..).of_ok hcopy)
      obtain ⟨hnode, hkept, -⟩ := hb.written hu hdirectory (fun below => (himage below).1)
        (readText_eq_ok hread).2 hrender ((Action.EqOrRefused.writeFile ..).of_ok hwrite)
      refine ⟨hthere, hnode, fun below => ⟨fun h hnone => ?_, fun h => hkept below ?_⟩⟩
      · rw [hnode, installed_eq_none hnone] at h
        exact h rfl
      · rw [(himage below).1]
        exact (himage below).2 h

end Install

open Sample

/-- The kernel that is replaced leaves nothing behind. -/
theorem install_result_replacing : ∃ report site',
    replacing.install listing (replacing.resolver (machine before)) (machine before)
        ⟨before, []⟩ = .ok report site' ∧
      report.replaced = true ∧
      Installed before site'.tree [] replacing (target "env")
        (kernels ++ [Text.encode "demo"]) (location ["kernel"]) report.replaced := by
  obtain ⟨site', hok, -⟩ := Course.install_eq_ok (s := ⟨before, []⟩) course_replacing
  have hlayout : Layout before [] (parent "env") (Text.encode "demo")
      replacing.manifest.bundle kernels (location ["kernel"]) :=
    layout_of_isLayout (by decide +kernel)
  have hdestination : replacing.destination (replacing.resolver (machine before))
      (machine before) = .ok ((parent "env").join ⟨Text.encode "demo"⟩) := by decide +kernel
  have hthere : before.existsAt [] (target "env") = true := by decide +kernel
  obtain ⟨-, -, -, hinstalled, -⟩ := install_result listing_exact hdestination hlayout hok
  refine ⟨_, site', hok, rfl, hinstalled.2 fun hoverlaid => ?_⟩
  exact absurd (hthere.symm.trans hoverlaid.1) (by decide)

/-- **A destination that is not seen is overlaid**: what was there is neither refused nor reported,
and it is still there afterwards. -/
theorem install_overlays : ∃ report site',
    overlaying.install listing (overlaying.resolver (machine before)) (machine before)
        ⟨before, []⟩ = .ok report site' ∧
      Layout before [] (parent "missing/../env") (Text.encode "demo")
        overlaying.manifest.bundle kernels (location ["kernel"]) ∧
      report.replaced = false ∧
      before.node? (kernels ++ [Text.encode "demo"]) = some .directory ∧
      before.node? (location ["kernel", "stale.txt"]) = none ∧
      site'.tree.node? (kernels ++ location ["demo", "stale.txt"]) =
        some (.file newFileMode (Text.encode "stale")) := by
  obtain ⟨site', hok, htree⟩ := Course.install_eq_ok (s := ⟨before, []⟩) course_overlaying
  refine ⟨_, site', hok, layout_of_isLayout (by decide +kernel), rfl, by decide +kernel,
    by decide +kernel, ?_⟩
  rw [htree]
  decide +kernel

end Request
end KernelRegistry
