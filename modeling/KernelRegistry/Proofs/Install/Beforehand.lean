import KernelRegistry.Proofs.FileTree.Beforehand
import KernelRegistry.Proofs.Install.Alike

/-!
# Installing after the parent was made

Whether the directory of all kernels is there makes no difference to an installation, as long as the
installation would make it: the first of two installations makes it, and the second one finds it.

* `FileTree.base` — the tree in which the directories above a destination were made, or as many of
  them as can be.
* `Request.Sibling` — an installation into a directory of kernels beside another one.
* `Sibling.course_base` — **an installation goes from there as it goes from the tree itself**.
* `Sibling.neighbour`, `Sibling.unchanged` — everything on the way to the destination is there by
  then, or the installation changes nothing.
-/

set_option autoImplicit false
namespace KernelRegistry

open Text (Bytes)

namespace FileTree

/-! ## The way to the parent -/

/-- The tree after the directories of a path were made, or as many of them as can be.  The first of
two installations may leave them behind even if it fails. -/
def base (t : FileTree) (working : Location) (p : Path) : FileTree :=
  (makeDirectories working p).after t

section LeadsInto

variable {t u v : FileTree} {working above : Location} {p source : Path} {name last : Bytes}
variable {place : Location} {stops : List Location} {e : FileError}

variable (h : FreeStart t working p) (hname : Path.IsName name)
variable (hparent : (p.join ⟨name⟩).parent? = some p)
include h hname hparent

/-- Where something is found, everything on the way to it is there. -/
theorem leadsInto_of_existsAt (hexists : existsAt t working (p.join ⟨name⟩) = true) :
    ∃ above, LeadsInto t working p above ∧ t.node? (above ++ [name]) ≠ none := by
  cases hfind : find t working true (p.join ⟨name⟩) with
  | error e =>
    rw [existsAt, hfind] at hexists
    cases hexists
  | ok found =>
    obtain ⟨location, found⟩ := found
    have hfound := of_find (h.follows ((Path.Follows.refl p).join hname)) hfind
    obtain ⟨x, node, hlink⟩ := exists_find_of_follow hfind
    obtain ⟨above, hgoal, rfl, hget⟩ := of_find_join h hname hlink
    have hthere : t.node? (above ++ [name]) ≠ none := by rw [node?_eq_some hget]; simp
    exact ⟨above, ⟨hgoal, node?_of_node?_append (List.cons_ne_nil name []) hthere,
      fun y hy => hfound.stops y (stops_subset_of_parent? t working hparent hy)⟩, hthere⟩

/-- Where a directory can be made, everything on the way to it is there. -/
theorem leadsInto_of_ensureDirectory
    (hown : ∀ above, (t.wayTo working p).goal = some above → Avoids t working p (above ++ [name]))
    (hensure : ensureDirectory working (p.join ⟨name⟩) t = .ok () u) :
    ∃ above, LeadsInto t working p above := by
  rcases makeDirectory_cases (h.follows ((Path.Follows.refl p).join hname)) with
    ⟨e, hmake⟩ | ⟨above, last, slash, hmissing, hlocate, -⟩
  · rw [ensureDirectory, hmake] at hensure
    dsimp only at hensure
    split at hensure
    · next hdirectory =>
      obtain ⟨above, hinto, -⟩ :=
        leadsInto_of_existsAt h hname hparent (existsAt_of_isDirectoryAt hdirectory)
      exact ⟨above, hinto⟩
    · cases hensure
  · rw [Path.dropSlashes_join p hname] at hlocate
    obtain ⟨parent, hgoal, hlocation⟩ := of_locate_join h hname hlocate
    obtain ⟨rfl, heq⟩ := List.append_inj' hlocation rfl
    obtain rfl := (List.cons.inj heq).1
    refine ⟨above, hgoal, hmissing.directory, fun x hx => ?_⟩
    refine (hmissing.stops x (stops_subset_of_parent? t working hparent hx)).resolve_right ?_
    rintro rfl
    exact (hown above hgoal).stops _ hx (List.prefix_refl _)

end LeadsInto

section Made

variable {t u : FileTree} {working place : Location} {source : Path} {stops : List Location}

theorem Made.node?_of_link (h : Made stops t u) {x : Location} {target : Bytes}
    (hlink : u.node? x = some (.link target)) : t.node? x = some (.link target) := by
  cases hnode : t.node? x with
  | some n => rw [← hlink, h.same x n hnode]
  | none =>
    rw [(h.new x hnode (by rw [hlink]; simp)).2.1] at hlink
    cases hlink

/-- Making directories brings no source to a place. -/
theorem Elsewhere.made (h : Elsewhere t working source place) (hmade : Made stops t u) :
    Elsewhere u working source place := by
  refine ⟨h.avoids.made hmade, fun x hx => h.notAbove x (hmade.wayTo working source ▸ hx),
    fun x below target hx hlink => ?_⟩
  rw [hmade.wayTo] at hx
  exact (h.links x below target hx (hmade.node?_of_link hlink)).made hmade

end Made

end FileTree

/-! ## Installing -/

namespace Request

open FileTree

section Course

variable {listing : Listing} {resolver : Resolver} {m : Machine} {r : Request} {p : Path}
variable {t u v : FileTree} {outcome : Except InstallError Report} {e : FileError}

/-- An installation goes from another tree as it goes from this one, if nothing exists at the
destination in either and its directories are made in the same way. -/
theorem Course.of_makeDirectories (hcourse : Course listing resolver m r t outcome v)
    (hdestination : r.destination resolver m = .ok p) (ht : t.existsAt m.working p = false)
    (hu : u.existsAt m.working p = false)
    (hmake : makeDirectories m.working p u = makeDirectories m.working p t) :
    Course listing resolver m r u outcome v := by
  have hcopied : copyTree listing m.working r.manifest.bundle p u =
      copyTree listing m.working r.manifest.bundle p t := by
    rw [copyTree_eq]
    simp only [bind, EStateM.bind, hmake]
  have hclearing : ∀ {q replaced c}, r.destination resolver m = .ok q →
      Clearing m.working r q t replaced c → q = p ∧ replaced = false ∧ c = t := by
    intro q replaced c hresolve hclear
    obtain rfl := Except.ok.inj (hdestination.symm.trans hresolve)
    cases hclear with
    | nothing => exact ⟨rfl, rfl, rfl⟩
    | removed hexists => rw [ht] at hexists; cases hexists
  have hnothing : ∀ {q}, r.destination resolver m = .ok q → t.existsAt m.working q = false := by
    intro q hresolve
    obtain rfl := Except.ok.inj (hdestination.symm.trans hresolve)
    exact ht
  cases hcourse with
  | unresolved hresolve => rw [hdestination] at hresolve; cases hresolve
  | refused hresolve hexists => rw [hnothing hresolve] at hexists; cases hexists
  | notRemoved hresolve hexists => rw [hnothing hresolve] at hexists; cases hexists
  | notCopied hresolve hclear hcopy =>
    obtain ⟨rfl, rfl, rfl⟩ := hclearing hresolve hclear
    exact .notCopied hresolve (.nothing hu) (hcopied.trans hcopy)
  | notRead hresolve hclear hcopy hread =>
    obtain ⟨rfl, rfl, rfl⟩ := hclearing hresolve hclear
    exact .notRead hresolve (.nothing hu) (hcopied.trans hcopy) hread
  | notRendered hresolve hclear hcopy hread hrender =>
    obtain ⟨rfl, rfl, rfl⟩ := hclearing hresolve hclear
    exact .notRendered hresolve (.nothing hu) (hcopied.trans hcopy) hread hrender
  | notWritten hresolve hclear hcopy hread hrender hwrite =>
    obtain ⟨rfl, rfl, rfl⟩ := hclearing hresolve hclear
    exact .notWritten hresolve (.nothing hu) (hcopied.trans hcopy) hread hrender hwrite
  | done hresolve hclear hcopy hread hrender hwrite =>
    obtain ⟨rfl, rfl, rfl⟩ := hclearing hresolve hclear
    exact .done hresolve (.nothing hu) (hcopied.trans hcopy) hread hrender hwrite

/-- Where nothing exists at the destination and its directories cannot be made, an installation
changes nothing. -/
theorem course_of_blocked (hdestination : r.destination resolver m = .ok p)
    (hexists : t.existsAt m.working p = false)
    (hfail : makeDirectories m.working p t = .error e t) :
    Course listing resolver m r t
      (.error (.fileSystem "copy kernelspec" r.manifest.bundle (.file e))) t := by
  refine .notCopied hdestination (.nothing hexists) ?_
  rw [copyTree_eq, bind_of_error hfail]

/-- An installation to a path that is not followed at all goes in one way, and changes nothing. -/
theorem Course.of_not_sound (hcourse : Course listing resolver m r t outcome v)
    (hdestination : r.destination resolver m = .ok p) {last : Bytes} (hlast : p.EndsIn last)
    (hsound : ¬ p.Sound) : v = t ∧ ∀ u, Course listing resolver m r u outcome u := by
  have hempty := hlast.isEmpty_eq_false
  obtain ⟨e, hnot, hlocate⟩ := locate_of_not_sound hempty hsound
  have hblocked : ∀ u, Course listing resolver m r u
      (.error (.fileSystem "copy kernelspec" r.manifest.bundle (.file e))) u := by
    intro u
    refine course_of_blocked hdestination ?_ (makeDirectories_of_error hempty
      (ensureDirectory_of_locate hlast (hlocate u m.working false)) hnot)
    rw [existsAt, find, hlocate]
    rfl
  obtain ⟨rfl, rfl⟩ := hcourse.unique (hblocked t)
  exact ⟨rfl, hblocked⟩

end Course

/-- An installation into the directory of all kernels beside another one. -/
structure Sibling (t : FileTree) (resolver : Resolver) (m : Machine) (r : Request) (parent : Path)
    (name other : Bytes) : Prop where
  proper : t.Proper
  workplace : ∀ n, t.node? m.working = some n → n = .directory
  passable : Passable t m.working parent
  endsIn : ∃ last, parent.EndsIn last
  isName : Path.IsName name
  ne : name ≠ other
  destination : r.destination resolver m = .ok (parent.join ⟨name⟩)
  separate : ∀ above, (t.wayTo m.working parent).goal = some above →
    Separate t m.working parent name r.manifest.bundle above (above ++ [other])

namespace Sibling

variable {listing : Listing} {resolver : Resolver} {m : Machine} {r : Request} {parent : Path}
variable {t v : FileTree} {name other : Bytes} {above : Location}
variable {outcome : Except InstallError Report}

variable (h : Sibling t resolver m r parent name other)
include h

theorem freeStart (p : Path) : FreeStart t m.working p := .of_working h.proper.root h.workplace p

theorem parent?_eq : (parent.join ⟨name⟩).parent? = some parent := by
  obtain ⟨last, hlast⟩ := h.endsIn
  exact hlast.parent?_join h.isName

theorem made : Made (t.wayTo m.working parent).stops t (t.base m.working parent) :=
  makeDirectories_made (h.freeStart parent)

section Changed

variable (hsound : (parent.join ⟨name⟩).Sound) (hchanged : t.base m.working parent ≠ t)
include hsound hchanged

/-- Before the directories above it were made, nothing was found at the destination. -/
theorem stopped : (∀ follow, locate t m.working follow (parent.join ⟨name⟩) = .error .notFound) ∧
    makeDirectories m.working (parent.join ⟨name⟩) (t.base m.working parent) =
      makeDirectories m.working (parent.join ⟨name⟩) t := by
  obtain ⟨last, hlast⟩ := h.endsIn
  exact makeDirectories_beforehand (h.freeStart (parent.join ⟨name⟩)) hsound
    (Path.endsIn_join parent h.isName) h.parent?_eq hlast h.passable hchanged

theorem existsAt_eq_false : t.existsAt m.working (parent.join ⟨name⟩) = false := by
  rw [existsAt, find, (h.stopped hsound hchanged).1]
  rfl

/-- The directories above the destination are not the destination. -/
theorem node?_base (hgoal : (t.wayTo m.working parent).goal = some above) :
    (t.base m.working parent).node? (above ++ [name]) = none := by
  have hseparate := h.separate above hgoal
  by_cases hgone : t.node? (above ++ [name]) = none
  · by_cases hnone : (t.base m.working parent).node? (above ++ [name]) = none
    · exact hnone
    · exact absurd (List.prefix_refl _) (hseparate.own.stops _ (h.made.new _ hgone hnone).1)
  · exact absurd ⟨h.existsAt_eq_false hsound hchanged, hgone⟩ hseparate.seen

/-- **Where the directories above it had to be made, nothing exists at the destination.** -/
theorem existsAt_base :
    (t.base m.working parent).existsAt m.working (parent.join ⟨name⟩) = false := by
  refine Bool.eq_false_iff.2 fun hexists => ?_
  obtain ⟨above, hinto, hthere⟩ :=
    leadsInto_of_existsAt (h.made.freeStart (h.freeStart parent)) h.isName h.parent?_eq hexists
  exact hthere (h.node?_base hsound hchanged (h.made.wayTo m.working parent ▸ hinto.goal))

end Changed

/-- **An installation goes in the same way after the directories above its destination were
made.** -/
theorem course_base (hsound : (parent.join ⟨name⟩).Sound)
    (hcourse : Course listing resolver m r t outcome v) :
    Course listing resolver m r (t.base m.working parent) outcome v := by
  by_cases hchanged : t.base m.working parent = t
  · rwa [hchanged]
  exact hcourse.of_makeDirectories h.destination (h.existsAt_eq_false hsound hchanged)
    (h.existsAt_base hsound hchanged) (h.stopped hsound hchanged).2

/-- **If everything is there by then**, the destination is separate from the other one still. -/
theorem neighbour (hsound : (parent.join ⟨name⟩).Sound)
    (hinto : LeadsInto (t.base m.working parent) m.working parent above) :
    Neighbour (t.base m.working parent) m.working parent name r.manifest.bundle above
      (above ++ [other]) := by
  have hmade := h.made
  have hgoal := hmade.wayTo m.working parent ▸ hinto.goal
  have hseparate := h.separate above hgoal
  have hown := hseparate.own.made hmade
  refine ⟨⟨hown, hseparate.other.made hmade, hseparate.sourceOwn.made hmade,
    hseparate.sourceOther.made hmade, fun target => ?_, ?_⟩, ⟨⟨hmade.proper h.proper, h.isName,
    hinto.goal, fun x hx hunder => absurd hunder (hown.stops x hx),
    (hmade.freeStart (h.freeStart parent)).start, fun hunder => absurd hunder hown.start⟩,
    hinto.directory, hinto.present⟩, hmade.freeStart (h.freeStart r.manifest.bundle),
    (Beside.of_ne h.ne).symm⟩
  · rw [hmade.nodeAt]
    exact hseparate.noLink target
  · by_cases hchanged : t.base m.working parent = t
    · rw [hchanged]
      exact hseparate.seen
    · exact fun hoverlaid => hoverlaid.2 (h.node?_base hsound hchanged hgoal)

/-- **If something cannot be made, the installation changes nothing.** -/
theorem unchanged (hsound : (parent.join ⟨name⟩).Sound)
    (hinto : ∀ above, ¬ LeadsInto (t.base m.working parent) m.working parent above)
    (hcourse : Course listing resolver m r (t.base m.working parent) outcome v) :
    v = t.base m.working parent := by
  obtain ⟨last, hlast⟩ := h.endsIn
  have hmade := h.made
  have hfreeStart := hmade.freeStart (h.freeStart parent)
  have hexists : (t.base m.working parent).existsAt m.working (parent.join ⟨name⟩) = false := by
    refine Bool.eq_false_iff.2 fun hexists => ?_
    obtain ⟨above, hinto', -⟩ := leadsInto_of_existsAt hfreeStart h.isName h.parent?_eq hexists
    exact hinto above hinto'
  cases hmake : makeDirectories m.working parent t with
  | ok _ u =>
    have hbase : t.base m.working parent = u := Action.after_of_ok hmake
    obtain ⟨above, hinto'⟩ :=
      (makeDirectories_reached (h.freeStart parent) hlast.isEmpty_eq_false hmake).leadsInto
    exact absurd (hbase ▸ hinto') (hinto above)
  | error e u =>
    have hbase : t.base m.working parent = u := Action.after_of_error hmake
    have hjoin := makeDirectories_of_failed (h.freeStart (parent.join ⟨name⟩)) hsound
      (Path.endsIn_join parent h.isName) h.parent?_eq hlast h.passable hmake
    rw [← hbase] at hjoin
    rcases hjoin with ⟨e', hfail⟩ | ⟨w, hensure⟩
    · exact (hcourse.unique (course_of_blocked h.destination hexists hfail)).2
    · obtain ⟨above, hinto'⟩ := leadsInto_of_ensureDirectory hfreeStart h.isName h.parent?_eq
        (fun above hgoal =>
          (h.separate above (hmade.wayTo m.working parent ▸ hgoal)).own.made hmade) hensure
      exact absurd hinto' (hinto above)

end Sibling

end Request

end KernelRegistry
