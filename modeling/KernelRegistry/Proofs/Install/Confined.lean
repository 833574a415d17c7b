import KernelRegistry.Proofs.FileTree.Sealed
import KernelRegistry.Proofs.Install.Containment

/-!
# Where an installation leaves traces

Whatever an installation creates, removes or changes is at or below its destination, or is a
directory above the destination that was missing.  Here nothing is asked of the paths: the way to
the destination may come through the destination itself, so that it leads elsewhere once the
destination was removed, and the bundle may be anywhere.

* `FileTree.AtDestination` — a place at or below the entry that a name stands for.
* `FileTree.Confined` — what differs is at or below the destination, or was made on the way there.
* `FileTree.HiddenLink` — a link at or below the destination that is not seen, because the path
  comes through a directory that is still missing.
* `copyTree_kept` — copying is confined if no link is hidden.
* `Request.install_confined` — **an installation is confined**, however it ends.
* `Request.install_follows_link` — one with a hidden link, which is not.
-/

set_option autoImplicit false
namespace KernelRegistry

open Text (Bytes)

namespace FileTree

/-- A place at or below what a name stands for in the directory that a path leads to.  If that is a
link, then what it leads to is not meant. -/
def AtDestination (t : FileTree) (working : Location) (p : Path) (name : Bytes) (y : Location) :
    Prop :=
  ∃ above, (t.wayTo working p).goal = some above ∧ above ++ [name] <+: y

/-- Any difference is at or below the destination, where its path leads before or afterwards, or it
is a directory that was missing and that a path above the destination leads to.  Both times have to
be allowed, because making directories can change where the path leads. -/
def Confined (t u : FileTree) (working : Location) (p : Path) (name : Bytes) : Prop :=
  ∀ y, ¬ AtDestination t working p name y → ¬ AtDestination u working p name y →
    u.node? y = t.node? y ∨
      t.node? y = none ∧ u.node? y = some .directory ∧
        ∃ q, Path.Above q (p.join ⟨name⟩) ∧ (u.wayTo working q).goal = some y

/-- A link at or below the destination, on the way to which something is missing.  The link is not
removed, since nothing seems to be there; but it is followed once the copy has made what was
missing. -/
def HiddenLink (c : FileTree) (working : Location) (p : Path) (name : Bytes) : Prop :=
  (∃ x ∈ (c.wayTo working p).stops, c.node? x = none) ∧
    ∃ y target, AtDestination c working p name y ∧ c.node? y = some (.link target)

section Confined

variable {t c b u : FileTree} {working above : Location} {p source : Path} {name : Bytes}
variable {stops : List Location} {listing : Listing}

theorem Confined.refl (t : FileTree) (working : Location) (p : Path) (name : Bytes) :
    Confined t t working p name :=
  fun _ _ _ => .inl rfl

/-- The destination is where it was, and what differs is at or below it or was made on the way.
This is stronger than `Confined`, which lets the way change; it holds of what is done after the
destination was cleared. -/
structure Kept (c u : FileTree) (working : Location) (p : Path) (name : Bytes) : Prop where
  confined : Confined c u working p name
  way : u.wayTo working p = c.wayTo working p
  elsewhere : ∀ y, ¬ AtDestination c working p name y → u.node? y = c.node? y ∨
    c.node? y = none ∧ y ∈ (c.wayTo working p).stops

/-- Changes that were made at or below the destination before make no difference. -/
theorem Kept.confined_of_elsewhere (h : Kept c u working p name)
    (helsewhere : ∀ y, ¬ AtDestination t working p name y → c.node? y = t.node? y) :
    Confined t u working p name := by
  intro y ht hu
  have hc : ¬ AtDestination c working p name y := by
    rwa [AtDestination, ← h.way]
  have := h.confined y hc hu
  rwa [helsewhere y ht] at this

/-- Making the directories of the destination is confined. -/
theorem Made.kept (hname : Path.IsName name) (h : Made stops c b)
    (hnew : ∀ x, c.node? x = none → b.node? x = none ∨ MadeFor c working (p.join ⟨name⟩) x) :
    Kept c b working p name := by
  have hmade : ∀ y, ¬ AtDestination c working p name y → b.node? y = c.node? y ∨
      c.node? y = none ∧ b.node? y = some .directory ∧
        ∃ q, Path.Above q (p.join ⟨name⟩) ∧ EndsAt c working q y := by
    intro y hc
    cases hnode : c.node? y with
    | some n => exact .inl (h.same y n hnode)
    | none =>
      rcases hnew y hnode with hnone | ⟨q, rfl | hq, hends⟩
      · exact .inl hnone
      · obtain ⟨above, hgoal, rfl⟩ := hends.join p name hname rfl
        exact absurd ⟨above, hgoal, List.prefix_refl _⟩ hc
      · by_cases hnone : b.node? y = none
        · exact .inl hnone
        · exact .inr ⟨rfl, (h.new y hnode hnone).2.1, q, hq, hends⟩
  refine ⟨fun y hc _ => ?_, h.wayTo working p, fun y hc => ?_⟩
  · exact (hmade y hc).imp_right fun ⟨hgone, hnode, q, hq, hends⟩ =>
      ⟨hgone, hnode, q, hq, by rw [h.wayTo, hends.goal]⟩
  · exact (hmade y hc).imp_right fun ⟨hgone, _, q, hq, hends⟩ =>
      ⟨hgone, stops_subset_of_above_join hname hq hends.mem⟩

/-- While the destination is sealed, all changes are confined. -/
theorem Kept.sealed (h : Kept c b working p name) (hb : LinkFree b working p above name)
    (hu : Sealed b (above ++ [name]) u) : Kept c u working p name := by
  have hway := hu.wayTo hb
  have helsewhere : ∀ y, ¬ AtDestination b working p name y → u.node? y = b.node? y := fun y hy =>
    hu.elsewhere y fun hunder => hy ⟨above, hb.goal, hunder⟩
  refine ⟨fun y hy hy' => ?_, hway.trans h.way, fun y hy => by
    rw [helsewhere y (by rwa [AtDestination, h.way])]
    exact h.elsewhere y hy⟩
  have hyb : ¬ AtDestination b working p name y := by rwa [AtDestination, ← hway]
  rw [helsewhere y hyb]
  refine (h.confined y hy hyb).imp_right fun ⟨hgone, hmade, q, hq, hgoal⟩ =>
    ⟨hgone, hmade, q, hq, ?_⟩
  rw [hu.wayTo_of_subset hb (stops_subset_of_above_join hb.isName hq), hgoal]

/-! ## Copying -/

section Copy

variable [Disk]

/-- After its directories were made, a destination that had no links is free of links. -/
theorem linkFree_of_makeDirectories (hc : c.Proper) (hname : Path.IsName name)
    (hfreeStart : FreeStart c working (p.join ⟨name⟩))
    (hok : makeDirectories working (p.join ⟨name⟩) c = .ok () b)
    (hnoLink : ∀ y target, AtDestination c working p name y → c.node? y ≠ some (.link target)) :
    ∃ above, LinkFree b working p above name := by
  have hfollows := (Path.Follows.refl p).join hname
  have hempty := hfollows.isEmpty_eq_false
  have hmade := makeDirectories_made hfreeStart
  rw [Action.after_of_ok hok] at hmade
  have hreached := makeDirectories_reached hfreeStart hempty hok
  obtain ⟨above, hgoal, hthere⟩ := hreached.join p name hname rfl
  have hdirectory := node?_of_node?_append (List.cons_ne_nil name []) hthere
  obtain ⟨left, hway⟩ := wayTo_of_follows hfollows hgoal (nodeAt_of_node? hdirectory)
  have hstops : (b.wayTo working p).stops ⊆ (b.wayTo working (p.join ⟨name⟩)).stops := by
    rw [hway]
    exact List.subset_append_left _ _
  have hnoLink' : ∀ below target, b.node? (above ++ [name] ++ below) ≠ some (.link target) := by
    intro below target hlink
    cases hnode : c.node? (above ++ [name] ++ below) with
    | some n =>
      rw [hmade.same _ n hnode] at hlink
      exact hnoLink _ target ⟨above, hmade.wayTo working p ▸ hgoal, List.prefix_append _ _⟩
        (hnode.trans hlink)
    | none =>
      rw [(hmade.new _ hnode (by rw [hlink]; simp)).2.1] at hlink
      cases hlink
  refine ⟨above, hmade.proper hc, hname, hgoal, ?_, fun x hx => hreached.stops x (hstops hx), ?_,
    hnoLink'⟩
  · obtain ⟨n, hn⟩ := Option.ne_none_iff_exists'.1 hthere
    cases n with
    | directory => exact hn
    | link target => exact absurd (by rwa [List.append_nil]) (hnoLink' [] target)
    | file mode content =>
      -- the path would end at the file
      obtain ⟨x, hx, hdirectory'⟩ := hreached.goal
      rw [hway, List.nil_append, way_file hname.notDots (nodeAt_of_node? hn)] at hx
      obtain rfl : above ++ [name] = x := Option.some.inj hx
      exact absurd (hn.symm.trans hdirectory') (by simp)
  · have := makeDirectories_start hfreeStart hempty hok
    rwa [start_of_follows hfollows] at this

/-- Copying from anywhere to a destination without links leaves it sealed. -/
theorem LinkFree.copyEntries (hb : LinkFree b working p above name) (hlisting : listing.Exact)
    (hsource : ∀ n, b.node? (FileTree.start working source) = some n → n = .directory)
    (depth : Nat) : Sealed b (above ++ [name])
      ((FileTree.copyEntries listing working depth source (p.join ⟨name⟩)).after b) := by
  cases hstart : b.node? (FileTree.start working source) with
  | none =>
    rw [copyEntries_of_missing hstart hb.proper.root]
    exact Sealed.refl hb
  | some n =>
    obtain rfl := hsource n hstart
    exact (Sealed.refl hb).copyEntries hb hlisting
      (fun h hbelow htarget hsource => h.copyNested hb hlisting depth hbelow htarget hsource)
      (fun n hn => absurd hn (List.not_mem_nil (a := n))) ((Path.Follows.refl p).join hb.isName)
      hstart

/-- **Copying is confined**, also where it fails, and so is writing to a name afterwards. -/
theorem copyTree_kept (hc : c.Proper) (hname : Path.IsName name)
    (hfreeStart : FreeStart c working (p.join ⟨name⟩)) (hlisting : listing.Exact)
    (hsource : ∀ n, c.node? (start working source) = some n → n = .directory)
    (hnoLink : ∀ b, makeDirectories working (p.join ⟨name⟩) c = .ok () b →
      ∀ y target, AtDestination c working p name y → c.node? y ≠ some (.link target)) :
    Kept c ((copyTree listing working source (p.join ⟨name⟩)).after c) working p name ∧
      ∀ count u, copyTree listing working source (p.join ⟨name⟩) c = .ok count u →
        ∀ last content, Path.IsName last → Kept c
          ((writeFile working ((p.join ⟨name⟩).join ⟨last⟩) content).after u) working p name := by
  have hmade := makeDirectories_made hfreeStart
  have hkept : Kept c ((makeDirectories working (p.join ⟨name⟩)).after c) working p name :=
    hmade.kept hname fun x => makeDirectories_new hfreeStart
  rw [copyTree_eq]
  cases hmake : makeDirectories working (p.join ⟨name⟩) c with
  | error e v =>
    have herror : (makeDirectories working (p.join ⟨name⟩) >>= fun _ =>
        copyEntries listing working (pathLimit - 1) source (p.join ⟨name⟩)) c = .error e v :=
      bind_of_error hmake
    rw [Action.after_of_error hmake] at hkept
    rw [Action.after_of_error herror, herror]
    exact ⟨hkept, fun _ _ hok => by cases hok⟩
  | ok _ b =>
    rw [Action.after_of_ok hmake] at hmade hkept
    obtain ⟨above, hb⟩ := linkFree_of_makeDirectories hc hname hfreeStart hmake (hnoLink b hmake)
    have hcopied := hb.copyEntries hlisting (hmade.freeStart ⟨hc.root, hsource⟩).start
      (pathLimit - 1)
    refine ⟨after_bind (P := fun u => Kept c u working p name)
      (by rwa [Action.after_of_ok hmake]) fun _ v hv => ?_,
      fun count u hok last content hlast => ?_⟩
    · cases hmake.symm.trans hv
      exact hkept.sealed hb hcopied
    · rw [bind_of_ok hmake] at hok
      rw [Action.after_of_ok hok] at hcopied
      exact hkept.sealed hb (hcopied.writeFile hb (List.forall_mem_singleton.2 hlast)
        (((Path.Follows.refl p).join hname).join hlast) content)

end Copy

/-! ## Clearing -/

theorem Cleared.proper (h : Cleared t c (above ++ [name])) (hname : Path.IsName name)
    (ht : t.Proper) : c.Proper := by
  refine ⟨(h.elsewhere [] (by simp)).trans ht.root, fun y last hy => ?_⟩
  by_cases hunder : above ++ [name] <+: y ++ [last]
  · rcases h.below _ hunder with hnone | ⟨heq, -⟩
    · exact absurd hnone hy
    · exact (List.cons.inj (List.append_inj' heq rfl).2).1 ▸ hname
  · rw [h.elsewhere _ hunder] at hy
    exact ht.names y last hy

end Confined

end FileTree

/-! ## Installing -/

namespace Request

open FileTree Resolver

section Confined

variable [Disk] {t c u : FileTree} {working : Location} {parent : Path} {name : Bytes} {r : Request}
variable {replaced : Bool} {listing : Listing} {resolver : Resolver} {m : Machine}
variable {outcome : Except InstallError Report} {q : Path}

/-- Clearing only changes what is at or below the destination. -/
theorem Clearing.elsewhere (h : Clearing working r (parent.join ⟨name⟩) t replaced c)
    (hname : Path.IsName name) (hfreeStart : FreeStart t working parent) {y : Location}
    (hy : ¬ AtDestination t working parent name y) : c.node? y = t.node? y := by
  rcases h.removed_below hname hfreeStart with rfl | ⟨above, hgoal, hcleared⟩
  · rfl
  · exact hcleared.elsewhere y fun hunder => hy ⟨above, hgoal, hunder⟩

theorem Clearing.proper (h : Clearing working r (parent.join ⟨name⟩) t replaced c)
    (hname : Path.IsName name) (hfreeStart : FreeStart t working parent) (ht : t.Proper) :
    c.Proper := by
  rcases h.removed_below hname hfreeStart with rfl | ⟨above, -, hcleared⟩
  · exact ht
  · exact hcleared.proper hname ht

theorem Clearing.origin (h : Clearing working r (parent.join ⟨name⟩) t replaced c)
    (hname : Path.IsName name) (hfreeStart : FreeStart t working parent) {y : Location}
    (ht : ∀ n, t.node? y = some n → n = .directory) : ∀ n, c.node? y = some n → n = .directory := by
  rcases h.removed_below hname hfreeStart with rfl | ⟨above, -, hcleared⟩
  · exact ht
  · exact hcleared.origin ht

/-- **What is seen at the destination after it was cleared is no link**, and no link is below it. -/
theorem Clearing.noLink (h : Clearing working r (parent.join ⟨name⟩) t replaced c)
    (hname : Path.IsName name) (hfreeStart : FreeStart t working parent)
    (hstops : ∀ x ∈ (c.wayTo working parent).stops, c.node? x ≠ none)
    (hexists : c.existsAt working (parent.join ⟨name⟩) = true) {y : Location}
    (hy : AtDestination c working parent name y) (target : Bytes) :
    c.node? y ≠ some (.link target) := by
  cases h with
  | nothing hnot =>
    rw [hnot] at hexists
    cases hexists
  | removed hthere _ hremove =>
    obtain ⟨-, above, hgoal, -, hcleared⟩ := removeAll_ok hfreeStart hname hthere hremove
    -- everything is on the way that was there before, so the path still leads to the same place
    have hway : t.wayTo working parent = c.wayTo working parent := by
      refine wayTo_congr fun x hx => ?_
      by_cases hunder : above ++ [name] <+: x
      · rcases hcleared.below x hunder with hnone | ⟨rfl, hdirectory⟩
        · exact absurd hnone (hstops x hx)
        · rw [nodeAt_of_node? hdirectory,
            nodeAt_of_node? (removeAll_directory hfreeStart hname hremove hgoal hdirectory)]
      · rw [nodeAt, nodeAt, hcleared.elsewhere x hunder]
    obtain ⟨above', hgoal', hunder⟩ := hy
    obtain rfl : above = above' := Option.some.inj (hgoal.symm.trans (hway ▸ hgoal'))
    rcases hcleared.below y hunder with hnone | ⟨-, hdirectory⟩
    · rw [hnone]
      simp
    · rw [hdirectory]
      simp

/-- **If the directories of the destination can be made, then no link is there**, unless it is
hidden. -/
theorem Clearing.noLink_of_makeDirectories {b : FileTree}
    (h : Clearing working r (parent.join ⟨name⟩) t replaced c) (hname : Path.IsName name)
    (hfreeStart : FreeStart t working parent)
    (hfreeStart' : FreeStart c working (parent.join ⟨name⟩))
    (hhidden : ¬ HiddenLink c working parent name)
    (hok : makeDirectories working (parent.join ⟨name⟩) c = .ok () b) {y : Location}
    (hy : AtDestination c working parent name y) (target : Bytes) :
    c.node? y ≠ some (.link target) := by
  intro hlink
  have hstops : ∀ x ∈ (c.wayTo working parent).stops, c.node? x ≠ none := fun x hx hnone =>
    hhidden ⟨⟨x, hx, hnone⟩, y, target, hy, hlink⟩
  -- nothing has to be made, neither on the way to the destination nor there
  have hnew : ∀ x, c.node? x = none → b.node? x = none := by
    intro x hx
    have hmade := makeDirectories_new hfreeStart' hx
    rw [Action.after_of_ok hok] at hmade
    rcases hmade with hnone | ⟨q, rfl | hq, hends⟩
    · exact hnone
    · obtain ⟨above, hgoal, rfl⟩ := hends.join parent name hname rfl
      obtain ⟨above', hgoal', hunder⟩ := hy
      obtain rfl : above = above' := Option.some.inj (hgoal.symm.trans hgoal')
      by_cases heq : above ++ [name] = y
      · rw [heq, hlink] at hx
        cases hx
      · rw [node?_of_above hunder heq (by rw [hlink]; simp)] at hx
        cases hx
    · exact absurd hx (hstops x (stops_subset_of_above_join hname hq hends.mem))
  have hempty := ((Path.Follows.refl parent).join hname).isEmpty_eq_false
  have hexists := existsAt_of_isDirectoryAt (makeDirectories_ok hfreeStart' hempty hok hnew)
  exact h.noLink hname hfreeStart hstops hexists hy target hlink

/-- Once the destination was cleared, the later steps keep the rest. -/
theorem Clearing.kept (hclear : Clearing m.working r (parent.join ⟨name⟩) t replaced c)
    (hlisting : listing.Exact) (hname : Path.IsName name) (hproper : t.Proper)
    (hworking : ∀ n, t.node? m.working = some n → n = .directory)
    (hhidden : ¬ HiddenLink c m.working parent name) :
    Kept c ((copyTree listing m.working r.manifest.bundle (parent.join ⟨name⟩)).after c)
        m.working parent name ∧
      ∀ count u, copyTree listing m.working r.manifest.bundle (parent.join ⟨name⟩) c =
          .ok count u → ∀ content, Kept c ((FileTree.writeFile m.working
            ((parent.join ⟨name⟩).joinText kernelFileName) content).after u) m.working parent
            name := by
  have hfreeStart := FreeStart.of_working hproper.root hworking parent
  have hc := hclear.proper hname hfreeStart hproper
  have hfreeStart' : FreeStart c m.working (parent.join ⟨name⟩) :=
    .of_working hc.root (hclear.origin hname hfreeStart hworking) _
  have hsource := FreeStart.of_working hc.root (hclear.origin hname hfreeStart hworking)
    r.manifest.bundle
  obtain ⟨hkept, hwritten⟩ := copyTree_kept hc hname hfreeStart' hlisting hsource.start
    fun b hok y target hy =>
      hclear.noLink_of_makeDirectories hname hfreeStart hfreeStart' hhidden hok hy target
  exact ⟨hkept, fun count u hok content =>
    hwritten count u hok kernelFileBytes content isName_kernelFileBytes⟩

/-- **However it goes, an installation is confined**, unless a link is hidden at the destination. -/
theorem Course.confined (hcourse : Course listing resolver m r t outcome u)
    (hlisting : listing.Exact) (hname : Path.IsName name)
    (hdestination : r.destination resolver m = .ok (parent.join ⟨name⟩)) (hproper : t.Proper)
    (hworking : ∀ n, t.node? m.working = some n → n = .directory)
    (hhidden : ∀ replaced c, Clearing m.working r (parent.join ⟨name⟩) t replaced c →
      ¬ HiddenLink c m.working parent name) : Confined t u m.working parent name := by
  have helsewhere : ∀ replaced c, Clearing m.working r (parent.join ⟨name⟩) t replaced c →
      ∀ y, ¬ AtDestination t m.working parent name y → c.node? y = t.node? y :=
    fun _ _ hclear y hy =>
      hclear.elsewhere hname (FreeStart.of_working hproper.root hworking parent) hy
  refine hcourse.left (P := fun u => Confined t u m.working parent name) hdestination
    (.refl t _ _ _) (fun e v hexists hremove => ?_) (fun replaced c hclear => ?_)
    (fun replaced c count v content hclear hcopy => ?_)
  · obtain ⟨above, hgoal, hfails⟩ :=
      removeAll_error (FreeStart.of_working hproper.root hworking parent) hname hexists hremove
    exact fun y hy _ =>
      .inl (hfails.onlyRemoved.elsewhere y fun hunder => hy ⟨above, hgoal, hunder⟩)
  · exact (hclear.kept hlisting hname hproper hworking (hhidden replaced c hclear)).1
      |>.confined_of_elsewhere (helsewhere replaced c hclear)
  · exact ((hclear.kept hlisting hname hproper hworking (hhidden replaced c hclear)).2 count v
      hcopy content).confined_of_elsewhere (helsewhere replaced c hclear)

/-- **An installation touches nothing but its destination**, however it ends.  If there is a place
to install to, which for a checked name other than one or two dots is a name in a directory, then
what was created, removed or changed is at or below it, or is a directory above it that was missing.
So if the destination is a link, what it leads to is left alone, as is what is linked to from the
kernel that gives way or from the bundle.  The one exception is a link at or below the destination
that is not seen, because the path comes through a directory that is still missing. -/
theorem install_confined {s : Site} (hlisting : listing.Exact) (hproper : s.tree.Proper)
    (hworking : ∀ n, s.tree.node? m.working = some n → n = .directory) :
    (∀ e, r.destination resolver m = .error e →
      (ending (r.install listing resolver m s)).2 = s.tree) ∧
    (∀ p, r.destination resolver m = .ok p → r.manifest.check = .ok () →
      r.manifest.kernelName ≠ "." → r.manifest.kernelName ≠ ".." →
      ∃ (parent : Path) (name : Bytes), Path.IsName name ∧ p = parent.join ⟨name⟩) ∧
    ∀ (parent : Path) (name : Bytes), Path.IsName name →
      r.destination resolver m = .ok (parent.join ⟨name⟩) →
      (∀ replaced c, Clearing m.working r (parent.join ⟨name⟩) s.tree replaced c →
        ¬ HiddenLink c m.working parent name) →
      Confined s.tree (ending (r.install listing resolver m s)).2 m.working parent name := by
  have hcourse := install_course listing resolver m r s
  refine ⟨fun e hresolve => ?_, fun p hresolve hcheck hdot hdots => ?_,
    fun parent name hname hdestination hhidden =>
      hcourse.confined hlisting hname hdestination hproper hworking hhidden⟩
  · exact (hcourse.unique (.unresolved hresolve)).2
  · obtain ⟨data, -, rfl⟩ := destination_eq hresolve
    exact ⟨kernelsBelow data, fileName r.manifest.kernelName,
      (isName_fileName_iff (isKernelName_of_check hcheck)).2 ⟨hdot, hdots⟩, rfl⟩

end Confined

end Request

/-! ## A link at the destination -/

namespace Sample

open FileTree Request

/-- A tree with a directory besides the environment. -/
def besides (entries kernels : List (String × FileTree)) : FileTree :=
  (tree "{}" kernels).update (some (directory entries)) (location ["besides"])

/-- A kernel that is a link to that directory. -/
def shortcut : String × FileTree := ("demo", .link (Text.encode "/besides"))

/-- The tree before: the directory has a kernel file of its own. -/
def aliased : FileTree := besides [("kernel.json", file "old")] [shortcut]

/-- The place of that file. -/
def oldFile : Location := location ["besides", "kernel.json"]

theorem course_aliased :
    Course listing (replacing.resolver (machine aliased)) (machine aliased) replacing aliased
      (.ok ⟨"demo", target "env", .empty, true⟩)
      (besides [("kernel.json", file "old")] [("demo", directory (copied rendered))]) := by
  have hremove : removeAll [] (target "env") aliased =
      .ok true (besides [("kernel.json", file "old")] []) := by decide +kernel
  have hcopy : copyTree listing [] replacing.manifest.bundle (target "env")
      (besides [("kernel.json", file "old")] []) =
      .ok 2 (besides [("kernel.json", file "old")] [("demo", directory (copied "{}"))]) := by
    decide +kernel
  have hread : readText [] replacing.manifest.template
      (besides [("kernel.json", file "old")] [("demo", directory (copied "{}"))]) =
      .ok "{}" (besides [("kernel.json", file "old")] [("demo", directory (copied "{}"))]) := by
    decide +kernel
  exact .done (by decide +kernel) (.removed (by decide +kernel) rfl hremove) hcopy hread
    (render_empty _) (by decide +kernel)

/-- An installation in place of a kernel whose path comes through a directory that is missing. -/
def veiled : Request := request "demo" "missing/../env" true

/-- The tree that is left if the link is not seen. -/
def followed (kernelFile : String) : FileTree :=
  (besides (copied kernelFile) [shortcut]).update (some (.directory [])) (location ["missing"])

theorem course_veiled :
    Course listing (veiled.resolver (machine aliased)) (machine aliased) veiled aliased
      (.ok ⟨"demo", target "missing/../env", .empty, false⟩) (followed rendered) := by
  have hcopy : copyTree listing [] veiled.manifest.bundle (target "missing/../env") aliased =
      .ok 2 (followed "{}") := by decide +kernel
  have hread : readText [] veiled.manifest.template (followed "{}") =
      .ok "{}" (followed "{}") := by decide +kernel
  exact .done (by decide +kernel) (.nothing (by decide +kernel)) hcopy hread (render_empty _)
    (by decide +kernel)

/-- A place is not at the destination if the names say so. -/
theorem not_atDestination {t : FileTree} {p : Path} {y : Location} {name : Text.Bytes}
    (above : Location) (hgoal : (t.wayTo [] p).goal = some above)
    (hy : (above ++ [name]).isPrefixOf y = false) : ¬ AtDestination t [] p name y := by
  rintro ⟨above', hgoal', hunder⟩
  obtain rfl : above = above' := Option.some.inj (hgoal.symm.trans hgoal')
  rw [List.isPrefixOf_iff_prefix.2 hunder] at hy
  cases hy

end Sample

namespace Request

open FileTree Sample

/-- A link that gives way is removed, and what it leads to is left alone. -/
theorem install_confined_aliased : ∃ report site',
    replacing.install listing (replacing.resolver (machine aliased)) (machine aliased)
        ⟨aliased, []⟩ = .ok report site' ∧
      report.replaced = true ∧
      Confined aliased site'.tree [] (parent "env") (Text.encode "demo") ∧
      site'.tree.node? oldFile = aliased.node? oldFile := by
  obtain ⟨site', hok, htree⟩ := Course.install_eq_ok (s := ⟨aliased, []⟩) course_aliased
  have hdestination : replacing.destination (replacing.resolver (machine aliased))
      (machine aliased) = .ok ((parent "env").join ⟨Text.encode "demo"⟩) := by decide +kernel
  have hremove : removeAll [] (target "env") aliased =
      .ok true (besides [("kernel.json", file "old")] []) := by decide +kernel
  have hstops : ((besides [("kernel.json", file "old")] []).wayTo [] (parent "env")).stops.all
      (fun x => ((besides [("kernel.json", file "old")] []).node? x).isSome) = true := by
    decide +kernel
  have hworking : ∀ n, aliased.node? (machine aliased).working = some n → n = .directory :=
    fun n hn => (Option.some.inj hn).symm
  have hhidden : ∀ replaced c, Clearing (machine aliased).working replacing
      ((parent "env").join ⟨Text.encode "demo"⟩) aliased replaced c →
      ¬ HiddenLink c (machine aliased).working (parent "env") (Text.encode "demo") := by
    rintro replaced c hclear ⟨⟨x, hx, hnone⟩, -⟩
    obtain ⟨-, rfl⟩ := hclear.unique (.removed (by decide +kernel) rfl hremove)
    have := List.all_eq_true.1 hstops x hx
    rw [hnone] at this
    cases this
  have hproper : aliased.Proper := proper_of_isProper (by decide +kernel)
  have hconfined := (install_confined (m := machine aliased) (r := replacing) (s := ⟨aliased, []⟩)
    listing_exact hproper hworking).2.2 (parent "env") (Text.encode "demo") (by decide)
      hdestination hhidden
  rw [hok] at hconfined
  refine ⟨_, site', hok, rfl, hconfined, ?_⟩
  have hbefore : ¬ AtDestination aliased [] (parent "env") (Text.encode "demo") oldFile :=
    not_atDestination kernels (by decide +kernel) (by decide)
  have hafter : ¬ AtDestination site'.tree [] (parent "env") (Text.encode "demo") oldFile := by
    rw [htree]
    exact not_atDestination kernels (by decide +kernel) (by decide)
  have hold : aliased.node? oldFile ≠ none := by decide +kernel
  exact (hconfined oldFile hbefore hafter).resolve_right fun hmade => hold hmade.1

/-- **A link that is not seen is followed**: it is not removed although that was asked for, and what
it leads to is overwritten. -/
theorem install_follows_link : ∃ report site',
    veiled.install listing (veiled.resolver (machine aliased)) (machine aliased) ⟨aliased, []⟩ =
        .ok report site' ∧
      veiled.replace = true ∧
      veiled.destination (veiled.resolver (machine aliased)) (machine aliased) =
        .ok ((parent "missing/../env").join ⟨Text.encode "demo"⟩) ∧
      site'.tree.node? (kernels ++ [Text.encode "demo"]) =
        some (.link (Text.encode "/besides")) ∧
      aliased.node? oldFile = some (.file newFileMode (Text.encode "old")) ∧
      site'.tree.node? oldFile = some (.file newFileMode (Text.encode rendered)) ∧
      ¬ Confined aliased site'.tree [] (parent "missing/../env") (Text.encode "demo") := by
  obtain ⟨site', hok, htree⟩ := Course.install_eq_ok (s := ⟨aliased, []⟩) course_veiled
  have hold : aliased.node? oldFile = some (.file newFileMode (Text.encode "old")) := by
    decide +kernel
  have hnew : (followed rendered).node? oldFile =
      some (.file newFileMode (Text.encode rendered)) := by decide +kernel
  have hlink : (followed rendered).node? (kernels ++ [Text.encode "demo"]) =
      some (.link (Text.encode "/besides")) := by decide +kernel
  have hdestination : veiled.destination (veiled.resolver (machine aliased)) (machine aliased) =
      .ok ((parent "missing/../env").join ⟨Text.encode "demo"⟩) := by decide +kernel
  rw [← htree] at hnew hlink
  refine ⟨_, site', hok, rfl, hdestination, hlink, hold, hnew, fun hconfined => ?_⟩
  have hbefore : ¬ AtDestination aliased [] (parent "missing/../env") (Text.encode "demo")
      oldFile := not_atDestination kernels (by decide +kernel) (by decide)
  have hafter : ¬ AtDestination site'.tree [] (parent "missing/../env") (Text.encode "demo")
      oldFile := by
    rw [htree]
    exact not_atDestination kernels (by decide +kernel) (by decide)
  rcases hconfined oldFile hbefore hafter with hsame | ⟨hnone, -⟩
  · rw [hnew, hold] at hsame
    exact absurd hsame (by decide)
  · rw [hold] at hnone
    cases hnone

end Request
end KernelRegistry
