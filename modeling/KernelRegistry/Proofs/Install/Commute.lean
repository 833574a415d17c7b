import KernelRegistry.Proofs.Install.Beforehand
import KernelRegistry.Proofs.Install.Containment
import KernelRegistry.Proofs.Text.Utf8

/-!
# Installing two kernels in either order

Installations of two kernels into one directory of kernels commute: each of them ends in the same
way whether it comes first or second, and together they leave the same tree.  Neither may come
through the destination of the other one, and what is at the destinations has to be seen.

* `Neighbour.congr` — what is done at the other place leaves everything that is asked.
* `Neighbour.commute` — two installations commute where their directories are there.
* `Sibling.commute` — **they commute wherever they start from**, also where they fail.
* `Request.installOn` — an installation on a machine that has a given tree.
* `Request.install_commute` — **installations of different kernels commute**.
* `Request.install_order_matters` — two that do not, because a path does not show what is there.
-/

set_option autoImplicit false
namespace KernelRegistry
namespace Request

open FileTree Resolver
open Text (Bytes)

section Commute

variable {listing : Listing} {m : Machine} {t u : FileTree} {working above place : Location}
variable {parent bundle : Path} {name : Bytes}

/-- **What is done at the other place leaves everything that is asked.** -/
theorem Neighbour.congr (h : Neighbour t working parent name bundle above place)
    (hagree : AgreeOff place t u) (hproper : u.Proper) :
    Neighbour u working parent name bundle above place := by
  have hway := h.other.wayTo hagree.node
  have hnode := hagree.node _ h.beside.notBelow
  have hdirectory : u.node? above = some .directory := by
    rw [hagree.node above fun hunder => h.beside.notBelow (hunder.trans (List.prefix_append ..)),
      h.ready.directory]
  have hown := h.own.congr hway
  refine ⟨⟨hown, h.other.congr hway, h.sourceOwn.congr h.sourceOther h.ne_nil hagree.node,
    h.sourceOther.congr h.sourceOther h.ne_nil hagree.node, fun target => ?_,
    fun ⟨hexists, hthere⟩ => h.seen ⟨?_, hnode ▸ hthere⟩⟩,
    ⟨⟨hproper, h.ready.isName, hway ▸ h.ready.goal,
      fun x hx hunder => absurd hunder (hown.stops x hx),
      (h.other.freeStart hagree.node h.freeStart).start, fun hunder => absurd hunder hown.start⟩,
      hdirectory, fun x hx => ?_⟩,
    h.sourceOther.avoids.freeStart hagree.node h.source, h.beside⟩
  · rw [nodeAt, hnode]
    exact h.noLink target
  · rw [← hexists, hagree.existsAt h.ready.toClearDestination.freeStart h.join]
  · rw [hway] at hx
    rw [hagree.node x (h.other.stops x hx)]
    exact h.ready.present x hx

variable {r₁ r₂ : Request} {resolver₁ resolver₂ : Resolver} {name₁ name₂ : Bytes}
variable {o₁ o₂ : Except InstallError Report} {u₁ u₂ : FileTree}

/-- The second of two installations ends as if it were the first one, and neither of them changes
anything beside its own destination. -/
theorem Neighbour.second (hlisting : listing.Exact)
    (h₁ : Neighbour t m.working parent name₁ r₁.manifest.bundle above (above ++ [name₂]))
    (h₂ : Neighbour t m.working parent name₂ r₂.manifest.bundle above (above ++ [name₁]))
    (hd₁ : r₁.destination resolver₁ m = .ok (parent.join ⟨name₁⟩))
    (hd₂ : r₂.destination resolver₂ m = .ok (parent.join ⟨name₂⟩))
    (hc₁ : Course listing resolver₁ m r₁ t o₁ u₁) (hc₂ : Course listing resolver₂ m r₂ t o₂ u₂) :
    ∃ v, Course listing resolver₂ m r₂ u₁ o₂ v ∧ AgreeOff (above ++ [name₁]) u₂ v ∧
      AgreeOff (above ++ [name₂]) u₁ v := by
  obtain ⟨-, -, -, hkept⟩ := hc₁.alike hlisting hd₁ h₁ (.refl h₁.ready.directory name₂)
  obtain ⟨v, hcourse, hagree, -⟩ := hc₂.alike hlisting hd₂ h₂ hkept
  have h₂' := h₂.congr hkept (hc₁.proper hlisting hd₁ h₁.ready.toClearDestination h₁.source h₁.seen)
  obtain ⟨-, -, -, hkept'⟩ := hcourse.alike hlisting hd₂ h₂' (.refl h₂'.ready.directory name₁)
  exact ⟨v, hcourse, hagree, hkept'⟩

/-- **Two installations commute where their directories are there.** -/
theorem Neighbour.commute (hlisting : listing.Exact)
    (h₁ : Neighbour t m.working parent name₁ r₁.manifest.bundle above (above ++ [name₂]))
    (h₂ : Neighbour t m.working parent name₂ r₂.manifest.bundle above (above ++ [name₁]))
    (hd₁ : r₁.destination resolver₁ m = .ok (parent.join ⟨name₁⟩))
    (hd₂ : r₂.destination resolver₂ m = .ok (parent.join ⟨name₂⟩))
    (hc₁ : Course listing resolver₁ m r₁ t o₁ u₁) (hc₂ : Course listing resolver₂ m r₂ t o₂ u₂) :
    ∃ v w, Course listing resolver₂ m r₂ u₁ o₂ v ∧ Course listing resolver₁ m r₁ u₂ o₁ w ∧
      ∀ x, v.node? x = w.node? x := by
  obtain ⟨v, hv, hv₁, hv₂⟩ := h₁.second hlisting h₂ hd₁ hd₂ hc₁ hc₂
  obtain ⟨w, hw, hw₂, hw₁⟩ := h₂.second hlisting h₁ hd₂ hd₁ hc₂ hc₁
  refine ⟨v, w, hv, hw, fun x => ?_⟩
  by_cases hx : above ++ [name₁] <+: x
  · have hx' : ¬ above ++ [name₂] <+: x := fun hx' =>
      (List.prefix_or_prefix_of_prefix hx hx').elim h₁.beside.notAbove h₁.beside.notBelow
    rw [hv₂.node x hx', hw₂.node x hx']
  · rw [hv₁.node x hx, hw₁.node x hx]

/-- **Two installations commute wherever they start from**, also where they fail. -/
theorem Sibling.commute (hlisting : listing.Exact)
    (h₁ : Sibling t resolver₁ m r₁ parent name₁ name₂)
    (h₂ : Sibling t resolver₂ m r₂ parent name₂ name₁)
    (hc₁ : Course listing resolver₁ m r₁ t o₁ u₁) (hc₂ : Course listing resolver₂ m r₂ t o₂ u₂) :
    ∃ v w, Course listing resolver₂ m r₂ u₁ o₂ v ∧ Course listing resolver₁ m r₁ u₂ o₁ w ∧
      ∀ x, v.node? x = w.node? x := by
  by_cases hs₁ : (parent.join ⟨name₁⟩).Sound
  case neg =>
    obtain ⟨rfl, hsame⟩ := hc₁.of_not_sound h₁.destination (Path.endsIn_join parent h₁.isName) hs₁
    exact ⟨u₂, u₂, hc₂, hsame u₂, fun _ => rfl⟩
  by_cases hs₂ : (parent.join ⟨name₂⟩).Sound
  case neg =>
    obtain ⟨rfl, hsame⟩ := hc₂.of_not_sound h₂.destination (Path.endsIn_join parent h₂.isName) hs₂
    exact ⟨u₁, u₁, hsame u₁, hc₁, fun _ => rfl⟩
  have hb₁ := h₁.course_base hs₁ hc₁
  have hb₂ := h₂.course_base hs₂ hc₂
  by_cases hinto : ∃ above, LeadsInto (t.base m.working parent) m.working parent above
  · obtain ⟨above, hinto⟩ := hinto
    exact (h₁.neighbour hs₁ hinto).commute hlisting (h₂.neighbour hs₂ hinto) h₁.destination
      h₂.destination hb₁ hb₂
  · -- neither of them changes anything once the directories above it were made
    obtain rfl := h₁.unchanged hs₁ (fun above h => hinto ⟨above, h⟩) hb₁
    obtain rfl := h₂.unchanged hs₂ (fun above h => hinto ⟨above, h⟩) hb₂
    exact ⟨_, _, hb₂, hb₁, fun _ => rfl⟩

end Commute

/-! ## One machine after another -/

/-- An installation in a given tree.  The machine is otherwise the same, so two of these can be put
in a row in both orders. -/
def installOn (listing : Listing) (m : Machine) (r : Request) (t : FileTree) :
    Except InstallError Report × FileTree :=
  ending (r.install listing (r.resolver m) { m with tree := t } ⟨t, []⟩)

section Machine

variable {listing : Listing} {resolver : Resolver} {m : Machine} {r : Request}
variable {t u v : FileTree} {outcome : Except InstallError Report}

/-- An installation goes the same way on a machine with another tree, if the destination is the same
there. -/
theorem Course.on (hcourse : Course listing resolver m r t outcome v)
    (hsame : r.destination resolver { m with tree := u } = r.destination resolver m) :
    Course listing resolver { m with tree := u } r t outcome v := by
  cases hcourse with
  | unresolved h => exact .unresolved (hsame.trans h)
  | refused h hexists hreplace => exact .refused (hsame.trans h) hexists hreplace
  | notRemoved h hexists hreplace hremove =>
    exact .notRemoved (hsame.trans h) hexists hreplace hremove
  | notCopied h hclear hcopy => exact .notCopied (hsame.trans h) hclear hcopy
  | notRead h hclear hcopy hread => exact .notRead (hsame.trans h) hclear hcopy hread
  | notRendered h hclear hcopy hread hrender =>
    exact .notRendered (hsame.trans h) hclear hcopy hread hrender
  | notWritten h hclear hcopy hread hrender hwrite =>
    exact .notWritten (hsame.trans h) hclear hcopy hread hrender hwrite
  | done h hclear hcopy hread hrender hwrite =>
    exact .done (hsame.trans h) hclear hcopy hread hrender hwrite

theorem installOn_eq (hcourse : Course listing (r.resolver m) m r t outcome v)
    (hsame : r.destination (r.resolver m) { m with tree := t } = r.destination (r.resolver m) m) :
    installOn listing m r t = (outcome, v) := by
  have hinstall := install_course listing (r.resolver m) { m with tree := t } r ⟨t, []⟩
  obtain ⟨houtcome, htree⟩ := hinstall.unique (hcourse.on hsame)
  exact Prod.ext houtcome htree

end Machine

/-- A kernel that is asked for in the registry below a data directory, whichever of some trees the
machine has. -/
structure Into (m : Machine) (r : Request) (data : Path) (trees : List FileTree) : Prop where
  checked : r.manifest.check = .ok ()
  notDot : r.manifest.kernelName ≠ "."
  notDots : r.manifest.kernelName ≠ ".."
  data : ∀ t ∈ trees, (r.resolver m).dataDirectory { m with tree := t } r.registry = .ok data

namespace Into

variable {m : Machine} {r : Request} {data : Path} {trees : List FileTree} {t : FileTree}

theorem isName (h : Into m r data trees) : Path.IsName (fileName r.manifest.kernelName) :=
  (isName_fileName_iff (isKernelName_of_check h.checked)).2 ⟨h.notDot, h.notDots⟩

theorem destination (h : Into m r data trees) (ht : t ∈ trees) :
    r.destination (r.resolver m) { m with tree := t } =
      .ok ((kernelsBelow data).join ⟨fileName r.manifest.kernelName⟩) := by
  rw [Request.destination, kernelDirectory, h.data t ht]
  rfl

end Into

section Machine

variable {listing : Listing} {m : Machine} {r₁ r₂ : Request} {data : Path}

/-- **Installations of different kernels commute**: each ends in the same way whether it comes first
or second, and together they leave the same tree.  Nothing is at a destination that is not seen,
whatever is behind something missing on the way to the kernels is a directory, and neither the way
to the kernels nor a bundle comes through a destination. -/
theorem install_commute (hlisting : listing.Exact) (hproper : m.tree.Proper)
    (hworking : ∀ n, m.tree.node? m.working = some n → n = .directory)
    (h₁ : Into m r₁ data [m.tree, (installOn listing m r₂ m.tree).2])
    (h₂ : Into m r₂ data [m.tree, (installOn listing m r₁ m.tree).2])
    (hne : Text.lowercase r₁.manifest.kernelName ≠ Text.lowercase r₂.manifest.kernelName)
    (hpassable : Passable m.tree m.working (kernelsBelow data))
    (hseparate : ∀ above, (m.tree.wayTo m.working (kernelsBelow data)).goal = some above →
      Separate m.tree m.working (kernelsBelow data) (fileName r₁.manifest.kernelName)
          r₁.manifest.bundle above (above ++ [fileName r₂.manifest.kernelName]) ∧
        Separate m.tree m.working (kernelsBelow data) (fileName r₂.manifest.kernelName)
          r₂.manifest.bundle above (above ++ [fileName r₁.manifest.kernelName])) :
    let first := installOn listing m r₁ m.tree
    let first' := installOn listing m r₂ m.tree
    let second := installOn listing m r₂ first.2
    let second' := installOn listing m r₁ first'.2
    second'.1 = first.1 ∧ second.1 = first'.1 ∧ ∀ x, second.2.node? x = second'.2.node? x := by
  intro first first' second second'
  have hname : fileName r₁.manifest.kernelName ≠ fileName r₂.manifest.kernelName := fun h =>
    hne (Text.encode_injective h)
  have hlast : ∃ last, (kernelsBelow data).EndsIn last :=
    ⟨Text.encode "kernels", Path.endsIn_join data (by decide)⟩
  have hd₁ := h₁.destination List.mem_cons_self
  have hd₂ := h₂.destination List.mem_cons_self
  have ha₁ : Sibling m.tree (r₁.resolver m) m r₁ (kernelsBelow data)
      (fileName r₁.manifest.kernelName) (fileName r₂.manifest.kernelName) :=
    ⟨hproper, hworking, hpassable, hlast, h₁.isName, hname, hd₁, fun above hgoal =>
      (hseparate above hgoal).1⟩
  have ha₂ : Sibling m.tree (r₂.resolver m) m r₂ (kernelsBelow data)
      (fileName r₂.manifest.kernelName) (fileName r₁.manifest.kernelName) :=
    ⟨hproper, hworking, hpassable, hlast, h₂.isName, hname.symm, hd₂, fun above hgoal =>
      (hseparate above hgoal).2⟩
  obtain ⟨v, w, hv, hw, hsame⟩ := ha₁.commute hlisting ha₂
    (install_course listing (r₁.resolver m) m r₁ ⟨m.tree, []⟩)
    (install_course listing (r₂.resolver m) m r₂ ⟨m.tree, []⟩)
  have hsecond : second = (first'.1, v) := installOn_eq hv
    ((h₂.destination (List.mem_cons_of_mem _ List.mem_cons_self)).trans hd₂.symm)
  have hsecond' : second' = (first.1, w) := installOn_eq hw
    ((h₁.destination (List.mem_cons_of_mem _ List.mem_cons_self)).trans hd₁.symm)
  rw [hsecond, hsecond']
  exact ⟨rfl, rfl, hsame⟩

end Machine

end Request

/-! ## Two kernels -/

namespace Sample

open FileTree Request Resolver

/-- The installation of a kernel into an environment that is still missing. -/
def fresh (kernelName : String) : Request := request kernelName "fresh" false

/-- Its data directory. -/
def freshData : Path := .ofString "/fresh/share/jupyter"

/-- The directory of all its kernels. -/
def freshKernels : Location := location ["fresh", "share", "jupyter", "kernels"]

/-- An installation beside the stale kernel, through the same path that does not show it. -/
def opening : Request := request "other" "missing/../env" false

/-- The tree that it leaves. -/
def opened (kernelFile : String) : FileTree :=
  (tree "{}" [stale, ("other", directory (copied kernelFile))]).update
    (some (.directory [])) (location ["missing"])

theorem course_opening :
    Course listing (opening.resolver (machine before)) (machine before) opening before
      (.ok ⟨"other", (parent "missing/../env").join ⟨Text.encode "other"⟩, .empty, false⟩)
      (opened rendered) := by
  have hcopy : copyTree listing [] opening.manifest.bundle
      ((parent "missing/../env").join ⟨Text.encode "other"⟩) before =
      .ok 2 (opened "{}") := by decide +kernel
  have hread : readText [] opening.manifest.template (opened "{}") = .ok "{}" (opened "{}") := by
    decide +kernel
  exact .done (by decide +kernel) (.nothing (by decide +kernel)) hcopy hread (render_empty _)
    (by decide +kernel)

end Sample

namespace Request

open FileTree Resolver Sample

/-- Both kernels go into an environment that the first of them makes. -/
theorem install_commute_fresh :
    let first := installOn listing (machine before) (fresh "Demo") before
    let first' := installOn listing (machine before) (fresh "other") before
    let second := installOn listing (machine before) (fresh "other") first.2
    let second' := installOn listing (machine before) (fresh "Demo") first'.2
    before.node? (location ["fresh"]) = none ∧
      second'.1 = first.1 ∧ second.1 = first'.1 ∧ ∀ x, second.2.node? x = second'.2.node? x := by
  have hgoal : (before.wayTo [] (kernelsBelow freshData)).goal = some freshKernels := by
    decide +kernel
  have hclear : ((before.wayTo [] (kernelsBelow freshData)).stops.all fun x =>
      before.nodeAt x = .directory) = true := by decide +kernel
  have hpassable : Passable before [] (kernelsBelow freshData) :=
    .of_directories fun x hx => of_decide_eq_true (List.all_eq_true.1 hclear x hx)
  have hdemo : Text.lowercase "Demo" = "demo" := by decide +kernel
  have hother : Text.lowercase "other" = "other" := by decide +kernel
  have h₁ : Into (machine before) (fresh "Demo") freshData
      [before, (installOn listing (machine before) (fresh "other") before).2] :=
    ⟨by decide +kernel, by decide, by decide, fun t ht => rfl⟩
  have h₂ : Into (machine before) (fresh "other") freshData
      [before, (installOn listing (machine before) (fresh "Demo") before).2] :=
    ⟨by decide +kernel, by decide, by decide, fun t ht => rfl⟩
  refine ⟨by decide +kernel, install_commute listing_exact (proper_of_isProper (by decide +kernel))
    ((isFree_iff before []).1 (by decide +kernel)) h₁ h₂ (fun h => ?_) hpassable
    fun above habove => ?_⟩
  · exact absurd (hdemo.symm.trans (h.trans hother)) (by decide)
  · obtain rfl := Option.some.inj (hgoal.symm.trans habove)
    exact ⟨separate_of_isSeparate (by decide +kernel), separate_of_isSeparate (by decide +kernel)⟩

/-- **If a kernel is there that its path does not show, the order of two installations matters**:
the one that comes first is done over that kernel, and after the other one it is refused. -/
theorem install_order_matters :
    let m := machine before
    (installOn listing m overlaying before).1 =
        .ok ⟨"demo", target "missing/../env", .empty, false⟩ ∧
      (installOn listing m overlaying (installOn listing m opening before).2).1 =
        .error (.alreadyInstalled (target "missing/../env")) ∧
      before.node? (kernels ++ [Text.encode "demo"]) = some .directory ∧
      before.node? (kernels ++ [Text.encode "other"]) = none ∧
      Elsewhere before [] overlaying.manifest.bundle (kernels ++ [Text.encode "demo"]) ∧
      Elsewhere before [] opening.manifest.bundle (kernels ++ [Text.encode "demo"]) ∧
      Elsewhere before [] overlaying.manifest.bundle (kernels ++ [Text.encode "other"]) ∧
      Elsewhere before [] opening.manifest.bundle (kernels ++ [Text.encode "other"]) := by
  have hrefused : Course listing (overlaying.resolver (machine before)) (machine before) overlaying
      (opened rendered) (.error (.alreadyInstalled (target "missing/../env"))) (opened rendered) :=
    .refused (by decide +kernel) (by decide +kernel) rfl
  have hopening : installOn listing (machine before) opening before = _ :=
    installOn_eq course_opening rfl
  have hoverlaying : installOn listing (machine before) overlaying before = _ :=
    installOn_eq course_overlaying rfl
  have hsecond : installOn listing (machine before) overlaying (opened rendered) = _ :=
    installOn_eq hrefused (by decide +kernel)
  refine ⟨by rw [hoverlaying], by rw [hopening, hsecond], by decide +kernel, by decide +kernel,
    ?_, ?_, ?_, ?_⟩ <;>
    exact elsewhere_of_isElsewhere (by decide +kernel)

end Request

end KernelRegistry
