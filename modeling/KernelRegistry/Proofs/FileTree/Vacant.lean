import KernelRegistry.Proofs.FileTree.Computed
import KernelRegistry.Proofs.FileTree.Exact

/-!
# Copying to where nothing is

The target of the copy may be missing directories above it, which are made first.  They belong to
what has come to be, so the result is described for every place of the tree and not for the target
alone.

* `FileTree.Vacant` — nothing is at the target, which has nothing to do with the source.
* `FileTree.CopyOf` — a copy of the source has come to be, and nothing else has.
* `Vacant.copyTree_exact` — **a directory is copied if and only if everything in it can be, and then
  exactly that has come to be**, in whatever order directories are listed.
* `copyTree_not_exact` — what else happens without the assumptions.
-/

set_option autoImplicit false
namespace KernelRegistry
namespace FileTree

open Text (Bytes)

/-- Nothing is at the target, a name in the directory that a path leads to.  The source is a
directory beside it.  Neither the path to the target nor a link in the source comes through places
below the target, and no such link leads to the target or to something below it. -/
structure Vacant (t : FileTree) (working : Location) (p source target : Path) (above : Location)
    (name : Bytes) (x : Location) : Prop where
  hasWorkplace : HasWorkplace t working
  distinct : t.isDistinct = true
  fits : t.NamesFit
  found : ∃ entries, find t working true source = .ok (x, .directory entries)
  isName : Path.IsName name
  follows : Path.Follows p [name] target
  goal : (t.wayTo working p).goal = some above
  gone : t.node? (above ++ [name]) = none
  way : ∀ y ∈ (t.wayTo working p).stops, NotBelow (above ++ [name]) y
  beside : Beside (above ++ [name]) x
  links : ∀ below goal, t.node? (x ++ below) = some (.link goal) →
    (∀ y ∈ (t.wayTo working (source.within below)).stops, NotBelow (above ++ [name]) y) ∧
      ∀ z, (t.wayTo working (source.within below)).goal = some z → ¬ above ++ [name] <+: z

/-- A place is as it was before, or it is a directory that was made for a path.  A copy makes the
directories that its target is missing, and these are not below the target. -/
def SameOrMade (t u : FileTree) (working : Location) (target : Path) (y : Location) : Prop :=
  u.node? y = t.node? y ∨
    t.node? y = none ∧ u.node? y = some .directory ∧ MadeFor t working target y

/-- The tree `u` has at the destination what `b` has at `x`: directories for directories, and for
anything else the file that is found there.  Elsewhere it has what `t` has, and directories that
were made for the target. -/
structure CopyOf (t b u : FileTree) (working : Location) (source target : Path)
    (destination x : Location) (count : Nat) : Prop where
  directory : ∀ below, b.node? (x ++ below) = some .directory →
    u.node? (destination ++ below) = some .directory
  file : ∀ below n, b.node? (x ++ below) = some n → n ≠ .directory → ∃ here mode content,
    find b working true (source.within below) = .ok (here, .file mode content) ∧
      u.node? (destination ++ below) = some (.file mode content)
  nothing : ∀ below, b.node? (x ++ below) = none → u.node? (destination ++ below) = none
  files : ∃ files : List Location, count = files.length ∧ files.Nodup ∧
    ∀ below, below ∈ files ↔ ∃ n, b.node? (x ++ below) = some n ∧ n ≠ .directory
  elsewhere : ∀ y, ¬ destination <+: y → SameOrMade t u working target y

section Vacant

variable {t b u : FileTree} {working above x : Location} {p source target : Path} {name : Bytes}
variable {listing : Listing} {count : Nat}

theorem makeDirectories_sameOrMade (h : FreeStart t working target)
    (hok : makeDirectories working target t = .ok () b) (y : Location) :
    SameOrMade t b working target y := by
  have hmade := makeDirectories_made h
  rw [Action.after_of_ok hok] at hmade
  cases ht : t.node? y with
  | some n => exact .inl ((hmade.same y n ht).trans ht.symm)
  | none =>
    by_cases hb : b.node? y = none
    · exact .inl (hb.trans ht.symm)
    · have hnew := makeDirectories_new h ht
      rw [Action.after_of_ok hok] at hnew
      exact .inr ⟨ht, (hmade.new y ht hb).2.1, hnew.resolve_left hb⟩

namespace Vacant

variable (h : Vacant t working p source target above name x)
include h

theorem freeStart : FreeStart t working target := h.hasWorkplace.freeStart target

/-- Nothing is below the target either. -/
theorem not_below {y : Location} (hy : t.node? y ≠ none) : ¬ above ++ [name] <+: y := by
  intro hunder
  by_cases heq : above ++ [name] = y
  · exact hy (heq ▸ h.gone)
  · have := node?_of_above hunder heq hy
    rw [h.gone] at this
    cases this

theorem clearDestination : ClearDestination t working p above name := by
  refine ⟨h.hasWorkplace.proper, h.isName, h.goal, fun y hy hunder => ?_, fun n hn => ?_,
    fun hunder => ?_⟩
  · exact ⟨h.way y hy hunder, nodeAt_of_none h.gone⟩
  · rw [h.hasWorkplace.node?_start] at hn
    exact (Option.some.inj hn).symm
  · exact absurd hunder (h.not_below (by rw [h.hasWorkplace.node?_start]; simp))

/-- The way to the source is there. -/
theorem leadsInto : LeadsInto t working source x := by
  obtain ⟨entries, hfind⟩ := h.found
  have hfound := of_find (h.hasWorkplace.freeStart source) hfind
  exact ⟨hfound.goal, node?_eq_some hfound.get, hfound.stops⟩

section Made

variable (hmake : makeDirectories working target t = .ok () b)
include hmake

theorem made : Made (t.wayTo working target).stops t b := by
  have hmade := makeDirectories_made h.freeStart
  rwa [Action.after_of_ok hmake] at hmade

theorem ready : Ready b working p above name ∧ b.node? (above ++ [name]) = some .directory ∧
    ∀ below, below ≠ [] → b.node? (above ++ [name] ++ below) = none :=
  h.clearDestination.ready (.of_none h.gone) h.follows hmake

/-- Source and target have nothing to do with each other. -/
theorem apart : Apart b working source (above ++ [name]) x := by
  have hmade := h.made hmake
  have hinto := h.leadsInto
  have hdestination := nodeAt_of_node? (h.ready hmake).2.1
  have hstart : t.node? (start working source) = some .directory :=
    h.hasWorkplace.node?_start source
  refine ⟨?_, h.beside.notAbove, h.beside.notBelow, fun y hy hunder => ?_,
    fun below goal hlink => ?_,
    fun n hn => ?_, fun hunder => ?_⟩
  · rw [hmade.wayTo, hinto.goal]
  · -- what is on the way to the source was there before the target
    rw [hmade.wayTo] at hy
    exact absurd hunder (h.not_below (hinto.present y hy))
  · -- only directories were made, so that the links are those that were there
    obtain ⟨hstops, hgoal⟩ := h.links below goal (hmade.filled.noLink _ goal hlink)
    rw [hmade.wayTo]
    exact ⟨fun y hy hunder => ⟨hstops y hy hunder, hdestination⟩, hgoal⟩
  · rw [hmade.same _ _ hstart] at hn
    exact (Option.some.inj hn).symm
  · exact absurd hunder (h.not_below (by rw [hstart]; simp))

/-- **Once its directories were made, the target is a directory beside the source.** -/
theorem targetBeside : TargetBeside b working p source target above name x := by
  have hmade := h.made hmake
  have hinto := h.leadsInto
  obtain ⟨hready, hdestination, -⟩ := h.ready hmake
  have hfits := h.fits.makeDirectories h.freeStart
  rw [Action.after_of_ok hmake] at hfits
  refine ⟨hready, h.apart hmake, hmade.same _ _ h.hasWorkplace.working,
    h.not_below (by rw [h.hasWorkplace.working]; simp), hfits,
    ⟨?_, hmade.same _ _ hinto.directory, ?_⟩,
    h.follows, hdestination⟩
  · rw [hmade.wayTo, hinto.goal]
  · rw [hmade.wayTo]
    exact fun y hy => hmade.ne_none (hinto.present y hy)

theorem onlyCopies : OnlyCopies b working source (above ++ [name]) x b := by
  obtain ⟨-, hdestination, hempty⟩ := h.ready hmake
  have hdistinct := makeDirectories_isDistinct h.distinct working target
  rw [Action.after_of_ok hmake] at hdistinct
  exact ⟨.of_empty (.inl ⟨rfl, rfl⟩) hdestination hempty, by rw [hdestination]; simp, hdistinct⟩

/-- **If a directory was copied, its copy has come to be, and nothing else has.** -/
theorem copyOf (hlisting : listing.Exact)
    (hok : copyTree listing working source target t = .ok count u) :
    CopyOf t b u working source target (above ++ [name]) x count := by
  have hb := h.targetBeside hmake
  have honly := h.onlyCopies hmake
  have hsound := sound_of_makeDirectories h.freeStart h.follows.isEmpty_eq_false hmake
  rw [copyTree_eq, bind_of_ok hmake] at hok
  have hadvance := Apart.copyEntries hb.toReady hb.apart hlisting honly.inside h.follows
    (.root b source x) (pathLimit - 1)
  rw [Action.after_of_ok hok] at hadvance
  obtain ⟨-, himage⟩ := Apart.copyEntries_image hb.toReady hb.apart hlisting honly.inside
    honly.there h.follows _ hok
  obtain ⟨hcopyable, files, hcount, hnodup, hmem⟩ :=
    hb.copyEntries_source_allCopyable hlisting hsound honly hok
  refine ⟨fun below hx => ?_, fun below n hx hn => ?_, fun below hx => ?_,
    ⟨files, hcount, hnodup, fun below => by simp [hmem]⟩, fun y hy => ?_⟩
  · rw [(himage below).1, image_of_not_link hx (by simp)]
  · have hs := hb.isFileSource hx hn
    obtain ⟨here, mode, content, hfind⟩ := hb.exists_find honly hx hn
      (hcopyable below List.nil_prefix (by rw [hx]; simp))
    refine ⟨here, mode, content, hfind, (himage below).1.trans ?_⟩
    exact (hb.apart.content_of_file (Copied.plain b working source x) honly.inside
      (Apart.freeStart hb.toReady hb.apart honly.inside hs.names) hs hfind).1
  · rw [(himage below).1, image, hx]
  · rw [SameOrMade, hadvance.inside.elsewhere y hy]
    exact makeDirectories_sameOrMade h.freeStart hmake y

end Made

/-- **Copying a directory to where nothing is.**  Once the directories of the target were made,
which makes nothing else, the directory is copied if and only if everything in it can be, and then
exactly this has come to be.  How deep the copy is nested and in which order directories are listed
does not matter. -/
theorem copyTree_exact (hlisting : listing.Exact)
    (hmake : makeDirectories working target t = .ok () b) :
    (∀ y, SameOrMade t b working target y) ∧
      (∀ depth, pathLimit ≤ depth → copyNested listing working depth source target t =
        copyTree listing working source target t) ∧
      ((∃ count u, copyTree listing working source target t = .ok count u) ↔
        ∀ below, b.node? (x ++ below) ≠ none → Copyable b working source target x below) ∧
      ∀ count u, copyTree listing working source target t = .ok count u →
        CopyOf t b u working source target (above ++ [name]) x count := by
  refine ⟨makeDirectories_sameOrMade h.freeStart hmake, fun depth hdepth => ?_, ?_,
    fun count u hok => h.copyOf hmake hlisting hok⟩
  · exact copyNested_eq_copyTree hlisting h.hasWorkplace hdepth
  · rw [copyTree_eq, bind_of_ok hmake]
    exact (h.targetBeside hmake).copyEntries_source_iff hlisting
      (sound_of_makeDirectories h.freeStart h.follows.isEmpty_eq_false hmake) (h.onlyCopies hmake)
      (Nat.le_refl _)

/-- How the path to the source is written does not matter. -/
theorem of_follows {q : Path} (hq : Path.Follows source [] q) (hsound : q.Sound) :
    Vacant t working p q target above name x := by
  refine { h with
    found := (h.leadsInto.of_follows_nil hq).find h.hasWorkplace h.fits hsound
    links := fun below goal hlink => ?_ }
  have hnames := h.hasWorkplace.proper.isName_of_mem (by rw [hlink]; simp)
  rw [wayTo_of_follows_nil t working (hq.within_nil hnames)]
  exact h.links below goal hlink

/-- A path that leaves no room for a name is not the path of a source that is copied, unless that is
empty. -/
theorem ne_ok_of_long {last : Bytes} (hlisting : listing.Exact)
    (hthere : t.node? (x ++ [last]) ≠ none) (hlong : pathLimit ≤ source.bytes.length + 1) :
    copyTree listing working source target t ≠ .ok count u := by
  intro hok
  rw [copyTree_eq] at hok
  obtain ⟨_, b, hmake, hentries⟩ := bind_eq_ok hok
  have hsound := sound_of_makeDirectories h.freeStart h.follows.isEmpty_eq_false hmake
  have hall := (h.targetBeside hmake).copyEntries_source_allCopyable hlisting hsound
    (h.onlyCopies hmake) hentries
  have hlast := hall.copyable [last] List.nil_prefix ((h.made hmake).ne_none hthere)
  have hfits := hlast.sourceSound.fits
  have hlonger := length_lt_join source (h.hasWorkplace.proper.names x last hthere)
  rw [Path.within_cons, Path.within_nil] at hfits
  omega

end Vacant

end Vacant

/-! ## A copy -/

/-- A check that no name in the tree is too long. -/
def hasShortNames (t : FileTree) : Bool :=
  t.locations.all fun y => (y.getLast?.map List.length).getD 0 ≤ nameLimit

theorem namesFit_of_hasShortNames {t : FileTree} (h : t.hasShortNames = true) : t.NamesFit := by
  intro above name hthere
  have := List.all_eq_true.1 h _ (mem_locations hthere)
  simpa using this

/-- A target is vacant if source and target have nothing to do with each other and nothing is at the
target. -/
theorem vacant_of_apart {t : FileTree} {working above x : Location} {p source target : Path}
    {name : Bytes} (happroach : ClearDestination t working p above name)
    (hapart : Apart t working source (above ++ [name]) x) (hbase : HasWorkplace t working)
    (hdistinct : t.isDistinct = true) (hfits : t.NamesFit)
    (hfound : ∃ entries, find t working true source = .ok (x, .directory entries))
    (hfollows : Path.Follows p [name] target) (hgone : t.node? (above ++ [name]) = none) :
    Vacant t working p source target above name x :=
  ⟨hbase, hdistinct, hfits, hfound, happroach.isName, hfollows, happroach.goal, hgone,
    fun y hy hunder => (happroach.clear y hy hunder).1, ⟨hapart.notBelow, hapart.notAbove⟩,
    fun below goal hlink => ⟨fun y hy hunder => ((hapart.links below goal hlink).1 y hy hunder).1,
      (hapart.links below goal hlink).2⟩⟩

/-- A file, a link to it and an empty directory. -/
def assortedEntries : List (Bytes × FileTree) :=
  [(Text.encode "file", .file 0o600 [1]), (Text.encode "link", .link (Text.encode "file")),
    (Text.encode "empty", directory [])]

/-- A directory with these entries. -/
def assorted : FileTree := directory [(Text.encode "src", directory assortedEntries)]

theorem copyTree_assorted :
    ∃ b u, makeDirectories [] (.ofString "new/dst") assorted = .ok () b ∧
      copyTree id [] (.ofString "src") (.ofString "new/dst") assorted = .ok 2 u ∧
      CopyOf assorted b u [] (.ofString "src") (.ofString "new/dst")
        [Text.encode "new", Text.encode "dst"] [Text.encode "src"] 2 := by
  have hvacant : Vacant assorted [] (.ofString "new") (.ofString "src") (.ofString "new/dst")
      [Text.encode "new"] (Text.encode "dst") [Text.encode "src"] :=
    vacant_of_apart (clearDestination_of_isClearDestination (by decide +kernel))
      (apart_of_isApart (by decide +kernel))
      ⟨proper_of_isProper (by decide +kernel), by decide +kernel⟩ (by decide +kernel)
      (namesFit_of_hasShortNames (by decide +kernel)) ⟨assortedEntries, by decide +kernel⟩
      ⟨by decide +kernel, by decide +kernel⟩ (by decide +kernel)
  obtain ⟨b, hmake⟩ : ∃ b, makeDirectories [] (.ofString "new/dst") assorted = .ok () b :=
    exists_ok_of_run' (by decide +kernel)
  obtain ⟨u, hok⟩ :
    ∃ u, copyTree id [] (.ofString "src") (.ofString "new/dst") assorted = .ok 2 u :=
    exists_ok_of_run' (by decide +kernel)
  obtain ⟨-, -, -, hcopy⟩ :=
    hvacant.copyTree_exact (fun _ => List.Perm.refl _ : Listing.Exact id) hmake
  exact ⟨b, u, hmake, hok, hcopy 2 u hok⟩

/-! ## What else can happen -/

/-- A directory with a file, and another one that is not empty. -/
def occupied : FileTree :=
  directory [(Text.encode "src", directory [(Text.encode "file", .file newFileMode [1])]),
    (Text.encode "old", directory [(Text.encode "old", .file newFileMode [2])])]

/-- A file, and a directory with a link and an empty directory. -/
def linked (target : String) : FileTree :=
  directory [(Text.encode "file", .file newFileMode [1]),
    (Text.encode "src", directory [(Text.encode "link", .link (Text.encode target)),
      (Text.encode "sub", directory [])])]

/-- A path to a directory with slashes at its end. -/
def spread (slashes : Nat) : Path := ⟨Text.encode "src" ++ List.replicate slashes Path.slash⟩

theorem length_spread (slashes : Nat) : (spread slashes).bytes.length = 3 + slashes := by
  rw [spread, List.length_append, List.length_replicate]
  rfl

theorem vacant_spread {slashes : Nat} (hslashes : 3 + slashes < pathLimit) :
    Vacant occupied [] (.ofString "") (spread slashes) (.ofString "dst") [] (Text.encode "dst")
      [Text.encode "src"] := by
  have hvacant : Vacant occupied [] (.ofString "") (.ofString "src") (.ofString "dst") []
      (Text.encode "dst") [Text.encode "src"] :=
    vacant_of_apart (clearDestination_of_isClearDestination (by decide +kernel))
      (apart_of_isApart (by decide +kernel))
      ⟨proper_of_isProper (by decide +kernel), by decide +kernel⟩ (by decide +kernel)
      (namesFit_of_hasShortNames (by decide +kernel))
      ⟨[(Text.encode "file", .file newFileMode [1])], by decide +kernel⟩
      ⟨by decide +kernel, by decide +kernel⟩ (by decide +kernel)
  have hall : ∀ b ∈ List.replicate slashes Path.slash, b = Path.slash :=
    fun _ => List.eq_of_mem_replicate
  refine hvacant.of_follows ⟨?_, rfl⟩ ⟨?_, rfl, by rwa [length_spread]⟩
  · rw [List.append_nil]
    exact Path.names_append_of_all_slash _ hall
  · have hsrc : (Text.encode "src").contains 0 = false := by decide
    have hnot : ¬ 0 ∈ List.replicate slashes Path.slash := fun h => absurd (hall 0 h) (by decide)
    rw [spread, List.contains_append, hsrc, Bool.false_or]
    simpa using hnot

/-- **Without these assumptions, other things happen.**  A link that leads nowhere is copied if it
leads somewhere once the target has been made; if it comes through the target, it depends on the
order of the entries whether it does.  Directories that are made on the way to the target may come
to be in the target or in the source, and a target that is only missing because its path is may have
something in it.  A file whose path is too long is not copied. -/
theorem copyTree_not_exact :
    (isFileAt (linked "../new/../file") [] (.ofString "src/link") = false ∧
      (copyTree id [] (.ofString "src") (.ofString "new/dst")).run' (linked "../new/../file") =
        some 1) ∧
    (isFileAt (linked "../dst/sub/../../file") [] (.ofString "src/link") = false ∧
      (copyTree id [] (.ofString "src") (.ofString "dst")).run' (linked "../dst/sub/../../file") =
        none ∧
      (copyTree List.reverse [] (.ofString "src") (.ofString "dst")).run'
        (linked "../dst/sub/../../file") = some 1) ∧
    (occupied.node? [Text.encode "src", Text.encode "a"] = none ∧
      ((copyTree id [] (.ofString "src") (.ofString "dst/a/../../dst")).after occupied).node?
        [Text.encode "dst", Text.encode "a"] = some .directory ∧
      ((copyTree id [] (.ofString "src") (.ofString "src/a/../../dst")).after occupied).node?
        [Text.encode "dst", Text.encode "a"] = some .directory) ∧
    (existsAt occupied [] (.ofString "new/../old") = false ∧
      ((copyTree id [] (.ofString "src") (.ofString "new/../old")).after occupied).node?
        [Text.encode "old", Text.encode "old"] = some (.file newFileMode [2])) ∧
    (isDirectoryAt occupied [] (spread 4092) = true ∧
      ∀ count u, copyTree id [] (spread 4092) (.ofString "dst") occupied ≠ .ok count u) := by
  have hvacant := vacant_spread (show 3 + 4092 < pathLimit by decide)
  have hfile : occupied.node? ([Text.encode "src"] ++ [Text.encode "file"]) =
      some (.file newFileMode [1]) := by decide +kernel
  refine ⟨by decide +kernel, by decide +kernel, by decide +kernel, by decide +kernel, ?_,
    fun count u => ?_⟩
  · obtain ⟨entries, hfind⟩ := hvacant.found
    rw [isDirectoryAt, hfind]
    rfl
  · refine hvacant.ne_ok_of_long (fun _ => List.Perm.refl _) (by rw [hfile]; simp) ?_
    rw [length_spread]
    decide

end FileTree
end KernelRegistry
