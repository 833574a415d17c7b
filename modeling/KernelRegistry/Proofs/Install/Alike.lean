import KernelRegistry.Proofs.FileTree.Alike
import KernelRegistry.Proofs.Install.Frame

/-!
# Installing beside another place

An installation does not notice what is at a place that none of its paths comes to: it ends in the
same way, and what it leaves differs at that place only.

* `FileTree.Elsewhere` — neither the path of a source nor a link in it comes to a place.
* `Elsewhere.feedsOff` — what is read from such a source avoids the place.
* `Request.Separate`, `Request.Neighbour` — what is asked of the places that an installation works
  with.
* `Request.Course.alike` — **an installation goes the same way in trees that agree but for a
  place**, and changes nothing beside its destination.
-/

set_option autoImplicit false
namespace KernelRegistry

open Text (Bytes)

namespace FileTree

/-! ## The source -/

/-- Neither the path of a source nor a link in the source comes to a place, and the source is not
above the place. -/
structure Elsewhere (t : FileTree) (working : Location) (source : Path) (place : Location) :
    Prop where
  avoids : Avoids t working source place
  notAbove : ∀ x, (t.wayTo working source).goal = some x → ¬ x <+: place
  links : ∀ x below target, (t.wayTo working source).goal = some x →
    t.node? (x ++ below) = some (.link target) → Avoids t working (source.within below) place

namespace Elsewhere

open Apart (IsDirectorySource IsFileSource)

variable {b t u : FileTree} {working destination place x : Location} {source s : Path}
variable {below : Location} {allowed : Location → Node → Prop}

theorem beside (h : Elsewhere t working source place) (hplace : place ≠ [])
    (hgoal : (t.wayTo working source).goal = some x) : Beside place x :=
  ⟨h.avoids.goal hplace hgoal, h.notAbove x hgoal⟩

/-- A change at a place that is avoided as well makes no difference. -/
theorem congr (h : Elsewhere t working source place) (hd : Elsewhere t working source destination)
    (hne : destination ≠ [])
    (helsewhere : ∀ y, ¬ destination <+: y → u.node? y = t.node? y) :
    Elsewhere u working source place := by
  have hway := hd.avoids.wayTo helsewhere
  refine ⟨h.avoids.congr hway, fun x hx => h.notAbove x (hway ▸ hx),
    fun x below target hx hlink => ?_⟩
  rw [hway] at hx
  rw [helsewhere _ ((hd.beside hne hx).append below).notBelow] at hlink
  exact (h.links x below target hx hlink).congr
    ((hd.links x below target hx hlink).wayTo helsewhere)

/-- The path to something in the source avoids the place. -/
theorem avoids_within (h : Elsewhere t working source place) (hplace : place ≠ [])
    (hgoal : (t.wayTo working source).goal = some x) (hbelow : ∀ n ∈ below, Path.IsName n)
    (hparts : ∀ part, part <+: below → part ≠ below → t.node? (x ++ part) = some .directory) :
    Avoids t working (source.within below) place := by
  by_cases hnil : below = []
  · subst hnil
    exact h.avoids
  by_cases hlink : ∃ target, t.node? (x ++ below) = some (.link target)
  · obtain ⟨target, hlink⟩ := hlink
    exact h.links x below target hgoal hlink
  have hdirectory := hparts [] List.nil_prefix (Ne.symm hnil)
  rw [List.append_nil] at hdirectory
  have hfollows := Path.Follows.within source hbelow
  obtain ⟨left, hway⟩ := wayTo_of_follows hfollows hgoal (nodeAt_of_node? hdirectory)
  have hview : ∀ part target, part <+: below → t.nodeAt (x ++ part) ≠ .link target := by
    intro part target hpart
    by_cases heq : part = below
    · cases hnode : t.node? (x ++ part) with
      | none => rw [nodeAt_of_none hnode]; simp
      | some n =>
        rw [nodeAt_of_node? hnode]
        rintro rfl
        exact hlink ⟨target, heq ▸ hnode⟩
    · rw [nodeAt_of_node? (hparts part hpart heq)]
      simp
  refine ⟨start_of_follows hfollows ▸ h.avoids.start, fun y hy => ?_⟩
  rw [hway] at hy
  rcases List.mem_append.1 hy with hy | hy
  · exact h.avoids.stops y hy
  · obtain ⟨part, -, rfl⟩ := (way_of_no_link left (fun n hn => (hbelow n hn).notDots) hview).2 y hy
    exact ((h.beside hplace hgoal).append part).notBelow

/-- A source that is elsewhere is apart from the place. -/
theorem apart (h : Elsewhere t working source place) (hplace : place ≠ [])
    (hgoal : (t.wayTo working source).goal = some x)
    (horigin : ∀ n, t.node? (start working source) = some n → n = .directory) :
    Apart t working source place x := by
  have hbeside := h.beside hplace hgoal
  refine ⟨hgoal, hbeside.notAbove, hbeside.notBelow,
    fun y hy hunder => absurd hunder (h.avoids.stops y hy), fun below target hlink => ?_, horigin,
    fun hunder => absurd hunder h.avoids.start⟩
  have havoids := h.links x below target hgoal hlink
  exact ⟨fun y hy hunder => absurd hunder (havoids.stops y hy), fun z => havoids.goal hplace⟩

theorem freeStart_of_directory (hs : IsDirectorySource b source x s below)
    (hb : FreeStart b working source) : FreeStart b working s := by
  rw [hs.path]
  exact hb.follows (Path.Follows.within source hs.names)

section Feeds

variable (h : Elsewhere b working source destination) (hne : destination ≠ [])
variable (hgoal : (b.wayTo working source).goal = some x)
include h hne hgoal

theorem avoids_directory (hs : IsDirectorySource b source x s below) :
    Avoids b working s destination := by
  rw [hs.path]
  refine h.avoids_within hne hgoal hs.names fun part hpart hpartial => ?_
  have hbelow : below ≠ [] := fun hnil => hpartial (by rw [hnil] at hpart ⊢; simpa using hpart)
  have hdirectory := hs.node.resolve_left hbelow
  exact (node?_of_part (by rw [hdirectory]; simp) hpart).resolve_left hpartial

theorem avoids_file (hs : IsFileSource b source x s below) :
    Avoids b working s destination := by
  rw [hs.path]
  refine h.avoids_within hne hgoal hs.names fun part hpart hpartial => ?_
  obtain ⟨n, hn, -⟩ := hs.node
  exact (node?_of_part (by rw [hn]; simp) hpart).resolve_left hpartial

variable (hb : FreeStart b working source)
include hb

/-- A source that is elsewhere is not read from the destination, and no link is copied from it. -/
theorem feeds : Feeds b working destination Ordinary (IsDirectorySource b source x)
    (IsFileSource b source x) := by
  have hapart := h.apart hne hgoal hb.start
  refine ⟨fun _ _ _ _ _ => ⟨by simp, fun _ => rfl⟩,
    fun s below t location entries hs ht hfind => ?_,
    fun s below t here mode content left hs _ _ _ =>
      ⟨by simp, fun hnil => absurd hnil hs.nonempty⟩⟩
  have hfreeStart :=
    (h.avoids_directory hne hgoal hs).freeStart ht.elsewhere (freeStart_of_directory hs hb)
  exact (hapart.inner_of_directory Ordinary.plain ht hfreeStart hs hfind).2.2

/-- **What is read from a source that is elsewhere avoids the place.** -/
theorem feedsOff (hplace : Elsewhere b working source place) (hplaceNe : place ≠ []) :
    FeedsOff b working destination Ordinary place (IsDirectorySource b source x)
      (IsFileSource b source x) := by
  have hapart := h.apart hne hgoal hb.start
  refine ⟨fun s below t hs ht => ⟨?_, fun location entries hfind => ?_⟩, fun s below t hs ht => ?_⟩
  · exact (hplace.avoids_directory hplaceNe hgoal hs).congr
      ((h.avoids_directory hne hgoal hs).wayTo ht.elsewhere)
  · have hfreeStart :=
      (h.avoids_directory hne hgoal hs).freeStart ht.elsewhere (freeStart_of_directory hs hb)
    obtain rfl := hapart.goal_of_directory Ordinary.plain ht hs (of_find hfreeStart hfind).goal
    exact (hplace.beside hplaceNe hgoal).append below
  · exact (hplace.avoids_file hplaceNe hgoal hs).congr
      ((h.avoids_file hne hgoal hs).wayTo ht.elsewhere)

end Feeds

end Elsewhere

/-! ### Checks -/

section Checks

variable (t : FileTree) (working : Location) (p : Path) (place : Location)

/-- A check that a path comes neither to a place nor below it. -/
def isAvoided : Bool :=
  !place.isPrefixOf (FileTree.start working p) &&
    (t.wayTo working p).stops.all fun x => !place.isPrefixOf x

/-- A check for `Elsewhere`: the path of a source and the links in it avoid a place that is not in
the source. -/
def isElsewhere : Bool :=
  isAvoided t working p place &&
    match (t.wayTo working p).goal with
    | some x => !x.isPrefixOf place && t.locations.all fun y =>
        match t.node? y with
        | some (.link _) =>
          !x.isPrefixOf y || isAvoided t working (p.within (y.drop x.length)) place
        | _ => true
    | none => true

variable {t working p place}

theorem avoids_of_isAvoided (h : isAvoided t working p place = true) :
    Avoids t working p place := by
  simp only [isAvoided, Bool.and_eq_true, List.all_eq_true, Bool.not_eq_true', ← Bool.not_eq_true,
    List.isPrefixOf_iff_prefix] at h
  exact ⟨h.1, h.2⟩

theorem elsewhere_of_isElsewhere (h : isElsewhere t working p place = true) :
    Elsewhere t working p place := by
  rw [isElsewhere, Bool.and_eq_true] at h
  obtain ⟨havoids, hgoal⟩ := h
  refine ⟨avoids_of_isAvoided havoids, fun x hx => ?_, fun x below target hx hlink => ?_⟩ <;>
    rw [hx, Bool.and_eq_true, List.all_eq_true] at hgoal
  · simpa only [Bool.not_eq_true', ← Bool.not_eq_true, List.isPrefixOf_iff_prefix] using hgoal.1
  · have hthere := hgoal.2 (x ++ below) (mem_locations (by rw [hlink]; simp))
    rw [hlink, List.isPrefixOf_iff_prefix.2 (List.prefix_append x below), List.drop_left] at hthere
    exact avoids_of_isAvoided (by simpa using hthere)

end Checks

end FileTree

/-! ## The installation -/

namespace Request

open FileTree

/-- The destination of an installation and another place have nothing to do with each other: neither
the way to the destination nor the bundle comes to one of them.  The destination is no link, and is
seen. -/
structure Separate (t : FileTree) (working : Location) (parent : Path) (name : Bytes)
    (bundle : Path) (above place : Location) : Prop where
  own : Avoids t working parent (above ++ [name])
  other : Avoids t working parent place
  sourceOwn : Elsewhere t working bundle (above ++ [name])
  sourceOther : Elsewhere t working bundle place
  noLink : ∀ target, t.nodeAt (above ++ [name]) ≠ .link target
  seen : ¬ Overlaid t working (parent.join ⟨name⟩) (above ++ [name])

/-- A check for `Separate`: the destination of an installation and another place have nothing to do
with each other. -/
def isSeparate (t : FileTree) (working : Location) (parent : Path) (name : Bytes) (bundle : Path)
    (above place : Location) : Bool :=
  isAvoided t working parent (above ++ [name]) && isAvoided t working parent place &&
    isElsewhere t working bundle (above ++ [name]) && isElsewhere t working bundle place &&
    t.isFree (above ++ [name]) && t.existsAt working (parent.join ⟨name⟩) =
      (t.node? (above ++ [name])).isSome

theorem separate_of_isSeparate {t : FileTree} {working above place : Location}
    {parent bundle : Path} {name : Bytes}
    (h : isSeparate t working parent name bundle above place = true) :
    Separate t working parent name bundle above place := by
  simp only [isSeparate, Bool.and_eq_true, isFree_iff, decide_eq_true_eq] at h
  obtain ⟨⟨⟨⟨⟨hown, hother⟩, hsourceOwn⟩, hsourceOther⟩, hfree⟩, hseen⟩ := h
  refine ⟨avoids_of_isAvoided hown, avoids_of_isAvoided hother, elsewhere_of_isElsewhere hsourceOwn,
    elsewhere_of_isElsewhere hsourceOther, fun target => ?_, fun ⟨hexists, hthere⟩ => ?_⟩
  · cases hnode : t.node? (above ++ [name]) with
    | none => rw [nodeAt_of_none hnode]; simp
    | some n => rw [nodeAt_of_node? hnode, hfree n hnode]; simp
  · rw [hexists] at hseen
    exact hthere (Option.not_isSome_iff_eq_none.1 (by simp [← hseen]))

/-- The destination of an installation is separate from another place, beside it, and everything on
the way to it is there. -/
structure Neighbour (t : FileTree) (working : Location) (parent : Path) (name : Bytes)
    (bundle : Path) (above place : Location) : Prop
    extends Separate t working parent name bundle above place where
  ready : Ready t working parent above name
  source : FreeStart t working bundle
  beside : Beside place (above ++ [name])

section Neighbour

variable {listing : Listing} {resolver : Resolver} {m : Machine} {r : Request}
variable {t u c c' w w' : FileTree} {working above place : Location} {parent bundle : Path}
variable {name : Bytes} {replaced : Bool}

namespace Neighbour

variable (h : Neighbour t working parent name bundle above place)
include h

theorem freeStart : FreeStart t working parent := ⟨h.ready.proper.root, h.ready.origin⟩

theorem ne_nil : place ≠ [] := by
  rintro rfl
  exact h.beside.notBelow List.nil_prefix

theorem refl : AgreeOff (above ++ [name]) t t := .refl h.ready.directory name

theorem join : Avoids t working (parent.join ⟨name⟩) place :=
  h.other.join h.ready.isName h.ready.goal (nodeAt_of_node? h.ready.directory) h.noLink h.beside

/-- **Clearing the destination is alike.** -/
theorem clearing (hagree : AgreeOff place t u)
    (hclear : Clearing working r (parent.join ⟨name⟩) t replaced c) :
    ∃ c', Clearing working r (parent.join ⟨name⟩) u replaced c' ∧ AgreeOff place c c' ∧
      AgreeOff (above ++ [name]) t c := by
  have hsame := hagree.existsAt h.ready.toClearDestination.freeStart h.join
  cases hclear with
  | nothing hexists => exact ⟨u, .nothing (hsame.trans hexists), hagree, h.refl⟩
  | removed hexists hreplace hremove =>
    have hremoved := hagree.removeAll h.freeStart h.ready.isName h.ready.goal
      h.ready.directory h.noLink h.beside h.other h.own
    have hput := h.refl.removeAll_put h.freeStart h.ready.isName h.ready.goal
    obtain ⟨c', hremove', hagree'⟩ := hremoved.of_ok hremove
    rw [Action.after_of_ok hremove] at hput
    exact ⟨c', .removed (hsame.trans hexists) hreplace hremove', hagree', hput⟩

end Neighbour

/-- The directories of a destination were made: it is empty, everything on the way to it is there,
and nothing was changed beside it. -/
structure Bare (t b : FileTree) (working : Location) (parent : Path) (name : Bytes)
    (bundle : Path) (above : Location) : Prop where
  ready : Ready b working parent above name
  source : FreeStart b working bundle
  empty : Worked b (above ++ [name]) Ordinary b
  agree : AgreeOff (above ++ [name]) t b

namespace Neighbour

variable (h : Neighbour t working parent name bundle above place)
include h

/-- **Copying the entries of the bundle is alike.** -/
theorem copyEntries {b b' : FileTree} (hb : Bare t b working parent name bundle above)
    (hagree : AgreeOff place b b') (hlisting : listing.Exact) (depth : Nat) :
    Alike place (FileTree.copyEntries listing working depth bundle (parent.join ⟨name⟩) b)
        (FileTree.copyEntries listing working depth bundle (parent.join ⟨name⟩) b') ∧
      Worked b (above ++ [name]) Ordinary
        ((FileTree.copyEntries listing working depth bundle (parent.join ⟨name⟩)).after b) := by
  have hne : above ++ [name] ≠ [] := by simp
  have hown := h.sourceOwn.congr h.sourceOwn hne hb.agree.node
  have hother := h.sourceOther.congr h.sourceOwn hne hb.agree.node
  by_cases hgoal : ∃ x, (b.wayTo working bundle).goal = some x
  · obtain ⟨x, hgoal⟩ := hgoal
    have hfeeds := hown.feeds hne hgoal hb.source
    have hoff := hown.feedsOff hne hgoal hb.source hother h.ne_nil
    have havoids := h.other.congr (h.own.wayTo hb.agree.node)
    exact hb.empty.copyEntries_alike hb.ready Ordinary.plain havoids h.beside hfeeds hoff hlisting
      (fun ht hagree hbelow => ht.copyNested_alike hb.ready Ordinary.plain havoids h.beside hfeeds
        hoff hlisting depth hagree hbelow) hagree (by simp)
      ((Path.Follows.refl parent).join h.ready.isName) (.root b bundle x) fun v hv =>
        hown.avoids.freeStart hv.elsewhere hb.source
  · -- a bundle that is not found is not copied
    have hnone :
      ∀ location entries, find b working true bundle ≠ .ok (location, .directory entries) :=
      fun _ _ hfind => hgoal ⟨_, (of_find hb.source hfind).goal⟩
    refine Alike.bind_keeps ⟨hagree.readDirectory hb.source hother.avoids
      fun location entries hfind => absurd hfind (hnone location entries), ?_⟩
      fun listed v v' hread _ _ => ?_
    · rw [after_readDirectory]
      exact hb.empty
    · obtain ⟨-, location, entries, hfind, -⟩ := readDirectory_eq_ok hread
      exact absurd hfind (hnone location entries)

section Cleared

variable (hcleared : Cleared t c (above ++ [name]))
include hcleared

theorem freeStart_cleared : FreeStart c working (parent.join ⟨name⟩) :=
  (h.ready.toClearDestination.cleared hcleared).freeStart

/-- The way to a destination that was cleared comes to it and to what is there. -/
theorem way_cleared : c.wayTo working (parent.join ⟨name⟩) =
    ⟨(t.wayTo working parent).stops ++ [above ++ [name]], some (above ++ [name])⟩ := by
  rw [(h.ready.toClearDestination.cleared hcleared).way (nodeAt_of_node? ?_) hcleared.nodeAt,
    h.own.wayTo hcleared.elsewhere]
  exact (hcleared.elsewhere above (not_concat_below above name)).trans h.ready.directory

theorem avoids_cleared : Avoids c working (parent.join ⟨name⟩) place := by
  refine ⟨h.join.start, fun x hx => ?_⟩
  rw [h.way_cleared hcleared] at hx
  rcases List.mem_append.1 hx with hx | hx
  · exact h.other.stops x hx
  · exact List.mem_singleton.1 hx ▸ h.beside.notBelow

variable (hput : AgreeOff (above ++ [name]) t c)
include hput

theorem makes_cleared :
    AgreeOff (above ++ [name]) t ((makeDirectories working (parent.join ⟨name⟩)).after c) := by
  refine hput.makeDirectories_put (h.freeStart_cleared hcleared) fun x hx hgone => ?_
  rw [h.way_cleared hcleared] at hx
  rcases List.mem_append.1 hx with hx | hx
  · rw [hcleared.elsewhere x (h.own.stops x hx)] at hgone
    exact absurd hgone (h.ready.present x hx)
  · exact List.mem_singleton.1 hx ▸ List.prefix_refl _

theorem bare {b : FileTree} (hmake : makeDirectories working (parent.join ⟨name⟩) c = .ok () b) :
    Bare t b working parent name bundle above := by
  obtain ⟨hready, hdestination, hempty⟩ :=
    (h.ready.toClearDestination.cleared hcleared).ready hcleared
    h.ready.toClearDestination.follows hmake
  have hfreeStart := h.freeStart_cleared hcleared
  have hmade := makeDirectories_made hfreeStart
  have hagree := h.makes_cleared hcleared hput
  rw [Action.after_of_ok hmake] at hmade hagree
  exact ⟨hready, hmade.freeStart ⟨hfreeStart.root, hcleared.origin h.source.start⟩,
    ⟨.of_empty ⟨by simp, fun _ => rfl⟩ hdestination hempty, .refl hready.directory name⟩, hagree⟩

variable (hagree : AgreeOff place c c') (hlisting : listing.Exact)
include hagree hlisting

/-- **Copying the bundle is alike**, and changes nothing beside the destination. -/
theorem copyTree :
    Alike place (FileTree.copyTree listing working bundle (parent.join ⟨name⟩) c)
        (FileTree.copyTree listing working bundle (parent.join ⟨name⟩) c') ∧
      AgreeOff (above ++ [name]) t
        ((FileTree.copyTree listing working bundle (parent.join ⟨name⟩)).after c) := by
  rw [copyTree_eq]
  refine Alike.bind_keeps ⟨hagree.makeDirectories (h.freeStart_cleared hcleared)
    (h.avoids_cleared hcleared), h.makes_cleared hcleared hput⟩ fun _ b b' hmake hagree' _ => ?_
  have hb := h.bare hcleared hput hmake
  obtain ⟨halike, hworked⟩ := h.copyEntries hb hagree' hlisting (pathLimit - 1)
  exact ⟨halike, hb.agree.trans hworked.agree⟩

/-- A bundle that was copied is a directory, and only the destination was worked at. -/
theorem copied {count : Nat}
    (hcopy : FileTree.copyTree listing working bundle (parent.join ⟨name⟩) c = .ok count w) :
    ∃ b x, Bare t b working parent name bundle above ∧ Worked b (above ++ [name]) Ordinary w ∧
      (w.wayTo working bundle).goal = some x ∧ w.node? x = some .directory := by
  rw [copyTree_eq] at hcopy
  obtain ⟨_, b, hmake, hcopy⟩ := bind_eq_ok hcopy
  have hb := h.bare hcleared hput hmake
  obtain ⟨b', -, hagree'⟩ := (hagree.makeDirectories (h.freeStart_cleared hcleared)
    (h.avoids_cleared hcleared)).of_ok hmake
  have hworked := (h.copyEntries hb hagree' hlisting (pathLimit - 1)).2
  rw [Action.after_of_ok hcopy] at hworked
  obtain ⟨listed, v, hread, -⟩ := bind_eq_ok hcopy
  obtain ⟨-, x, entries, hfind, -⟩ := readDirectory_eq_ok hread
  have hne : above ++ [name] ≠ [] := by simp
  have hown := h.sourceOwn.congr h.sourceOwn hne hb.agree.node
  have hfound := of_find hb.source hfind
  refine ⟨b, x, hb, hworked, (hown.avoids.wayTo hworked.elsewhere) ▸ hfound.goal, ?_⟩
  rw [hworked.elsewhere x (hown.beside hne hfound.goal).notBelow, node?_eq_some hfound.get]
  rfl

end Cleared

section Written

variable {b : FileTree} {x : Location} (hb : Bare t b working parent name bundle above)
variable (hworked : Worked b (above ++ [name]) Ordinary w) (hagree : AgreeOff place w w')
include hb hworked hagree

/-- **The template is the same**, as it is read after the bundle was copied. -/
theorem textAt (hgoal : (w.wayTo working bundle).goal = some x)
    (hx : w.node? x = some .directory) :
    w'.textAt working (bundle.join ⟨kernelFileBytes⟩) =
      w.textAt working (bundle.join ⟨kernelFileBytes⟩) := by
  have hne : above ++ [name] ≠ [] := by simp
  have hnames : ∀ n ∈ [kernelFileBytes], Path.IsName n := by simpa using isName_kernelFileBytes
  have hdone := hb.agree.trans hworked.agree
  have hparts : ∀ part, part <+: [kernelFileBytes] → part ≠ [kernelFileBytes] →
      w.node? (x ++ part) = some .directory := by
    intro part hpart hpartial
    rcases List.prefix_cons_iff.1 hpart with rfl | ⟨more, rfl, hmore⟩
    · rw [List.append_nil, hx]
    · exact absurd (by rw [List.prefix_nil.1 hmore]) hpartial
  have hfreeStart := h.sourceOwn.avoids.freeStart hdone.node h.source
  exact hagree.textAt (hfreeStart.follows ((Path.Follows.refl bundle).join isName_kernelFileBytes))
    ((h.sourceOther.congr h.sourceOwn hne hdone.node).avoids_within h.ne_nil hgoal hnames hparts)

/-- **Writing the kernel file is alike**, and changes nothing beside the destination. -/
theorem writeFile (content : Bytes) :
    Alike place
        (FileTree.writeFile working ((parent.join ⟨name⟩).joinText kernelFileName) content w)
        (FileTree.writeFile working ((parent.join ⟨name⟩).joinText kernelFileName) content w') ∧
      AgreeOff (above ++ [name]) t
        ((FileTree.writeFile working ((parent.join ⟨name⟩).joinText kernelFileName)
          content).after w) := by
  have hfollows : Path.Follows parent (name :: [kernelFileBytes])
      ((parent.join ⟨name⟩).joinText kernelFileName) :=
    ((Path.Follows.refl parent).join h.ready.isName).join isName_kernelFileBytes
  have hnames : ∀ n ∈ [kernelFileBytes], Path.IsName n := by simpa using isName_kernelFileBytes
  have hfreeStart := hworked.freeStart_of_follows hb.ready Ordinary.plain hfollows
  have havoids := hworked.avoids_of_follows hb.ready Ordinary.plain
    (h.other.congr (h.own.wayTo hb.agree.node)) h.beside hnames hfollows
  have hreaches := hworked.reaches hb.ready Ordinary.plain hnames hfollows
  exact ⟨hagree.writeFile hfreeStart havoids content,
    hb.agree.trans (hworked.agree.writeFile_put hfreeStart hreaches content)⟩

end Written

/-- The steps after the copy are alike in both trees, since they work at the destination only. -/
theorem finish (hlisting : listing.Exact) (hagree : AgreeOff place t u) {r : Request}
    (hbundle : r.manifest.bundle = bundle) {count : Nat}
    (hclear : Clearing working r (parent.join ⟨name⟩) t replaced c)
    (hcopy : FileTree.copyTree listing working bundle (parent.join ⟨name⟩) c = .ok count w) :
    ∃ c' w', Clearing working r (parent.join ⟨name⟩) u replaced c' ∧
      FileTree.copyTree listing working bundle (parent.join ⟨name⟩) c' = .ok count w' ∧
      AgreeOff place w w' ∧ AgreeOff (above ++ [name]) t w ∧
      w'.textAt working r.manifest.template = w.textAt working r.manifest.template ∧
      ∀ content, Alike place
          (FileTree.writeFile working ((parent.join ⟨name⟩).joinText kernelFileName) content w)
          (FileTree.writeFile working ((parent.join ⟨name⟩).joinText kernelFileName) content w') ∧
        AgreeOff (above ++ [name]) t
          ((FileTree.writeFile working ((parent.join ⟨name⟩).joinText kernelFileName)
            content).after w) := by
  obtain ⟨c', hclear', hagree', hput⟩ := h.clearing hagree hclear
  have hcleared := (hclear.cleared h.ready.toClearDestination h.seen).1
  obtain ⟨hcopied, hdone⟩ := h.copyTree hcleared hput hagree' hlisting
  obtain ⟨w', hcopy', hagree''⟩ := hcopied.of_ok hcopy
  obtain ⟨b, x, hb, hworked, hgoal, hx⟩ := h.copied hcleared hput hagree' hlisting hcopy
  rw [Action.after_of_ok hcopy] at hdone
  refine ⟨c', w', hclear', hcopy', hagree'', hdone, ?_, h.writeFile hb hworked hagree''⟩
  rw [Manifest.template, hbundle]
  exact h.textAt hb hworked hagree'' hgoal hx

end Neighbour

/-- **An installation goes the same way in trees that agree but for a place** that none of its paths
comes to, and it changes nothing beside its destination. -/
theorem Course.alike {outcome : Except InstallError Report} {v : FileTree}
    (hcourse : Course listing resolver m r t outcome v) (hlisting : listing.Exact)
    (hdestination : r.destination resolver m = .ok (parent.join ⟨name⟩))
    (h : Neighbour t m.working parent name r.manifest.bundle above place)
    (hagree : AgreeOff place t u) :
    ∃ v', Course listing resolver m r u outcome v' ∧ AgreeOff place v v' ∧
      AgreeOff (above ++ [name]) t v := by
  have hsame := hagree.existsAt h.ready.toClearDestination.freeStart h.join
  cases hcourse with
  | unresolved hresolve => exact ⟨u, .unresolved hresolve, hagree, h.refl⟩
  | refused hresolve hexists hreplace =>
    obtain rfl := Except.ok.inj (hdestination.symm.trans hresolve)
    exact ⟨u, .refused hresolve (hsame.trans hexists) hreplace, hagree, h.refl⟩
  | notRemoved hresolve hexists hreplace hremove =>
    obtain rfl := Except.ok.inj (hdestination.symm.trans hresolve)
    obtain ⟨_, -, hfails⟩ := removeAll_error h.freeStart h.ready.isName hexists hremove
    obtain rfl := (removalFails_sound hfails).2
    obtain ⟨v', hremove', hagree'⟩ := (hagree.removeAll h.freeStart h.ready.isName
      h.ready.goal h.ready.directory h.noLink h.beside h.other h.own).of_error hremove
    exact ⟨v', .notRemoved hresolve (hsame.trans hexists) hreplace hremove', hagree', h.refl⟩
  | @notCopied _ replaced c _ e hresolve hclear hcopy =>
    obtain rfl := Except.ok.inj (hdestination.symm.trans hresolve)
    obtain ⟨c', hclear', hagree', hput⟩ := h.clearing hagree hclear
    have hcleared := (hclear.cleared h.ready.toClearDestination h.seen).1
    obtain ⟨hcopied, hdone⟩ := h.copyTree hcleared hput hagree' hlisting
    obtain ⟨v', hcopy', hagree''⟩ := hcopied.of_error hcopy
    rw [Action.after_of_error hcopy] at hdone
    exact ⟨v', .notCopied hresolve hclear' hcopy', hagree'', hdone⟩
  | notRead hresolve hclear hcopy hread =>
    obtain rfl := Except.ok.inj (hdestination.symm.trans hresolve)
    obtain ⟨c', w', hclear', hcopy', hagree', hdone, htext, -⟩ :=
      h.finish hlisting hagree rfl hclear hcopy
    exact ⟨w', .notRead hresolve hclear' hcopy' ((readText_congr htext).2 _ hread), hagree', hdone⟩
  | notRendered hresolve hclear hcopy hread hrender =>
    obtain rfl := Except.ok.inj (hdestination.symm.trans hresolve)
    obtain ⟨c', w', hclear', hcopy', hagree', hdone, htext, -⟩ :=
      h.finish hlisting hagree rfl hclear hcopy
    exact ⟨w', .notRendered hresolve hclear' hcopy' ((readText_congr htext).1 _ hread) hrender,
      hagree', hdone⟩
  | @notWritten _ _ _ _ _ _ _ _ rendered hresolve hclear hcopy hread hrender hwrite =>
    obtain rfl := Except.ok.inj (hdestination.symm.trans hresolve)
    obtain ⟨c', w', hclear', hcopy', -, -, htext, hwritten⟩ :=
      h.finish hlisting hagree rfl hclear hcopy
    obtain ⟨halike, hdone⟩ := hwritten (Text.encode rendered)
    obtain ⟨v', hwrite', hagree'⟩ := halike.of_error hwrite
    rw [Action.after_of_error hwrite] at hdone
    exact ⟨v', .notWritten hresolve hclear' hcopy' ((readText_congr htext).1 _ hread) hrender
      hwrite', hagree', hdone⟩
  | @done _ _ _ _ _ _ _ rendered hresolve hclear hcopy hread hrender hwrite =>
    obtain rfl := Except.ok.inj (hdestination.symm.trans hresolve)
    obtain ⟨c', w', hclear', hcopy', -, -, htext, hwritten⟩ :=
      h.finish hlisting hagree rfl hclear hcopy
    obtain ⟨halike, hdone⟩ := hwritten (Text.encode rendered)
    obtain ⟨v', hwrite', hagree'⟩ := halike.of_ok hwrite
    rw [Action.after_of_ok hwrite] at hdone
    exact ⟨v', .done hresolve hclear' hcopy' ((readText_congr htext).1 _ hread) hrender hwrite',
      hagree', hdone⟩

end Neighbour

end Request

end KernelRegistry
