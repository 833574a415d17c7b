import KernelRegistry.Proofs.Install.Result

/-!
# What an installation leaves alone

However an installation goes, nothing that is outside of the destination vanishes or changes.  All
that it may do there is to make the directories that the destination is missing.

* `FileTree.Spared` — nothing outside of a place has vanished or changed.
* `FileTree.Ordinary` — what any copy may put at the destination, whatever its source is.
* `Request.Course.spared` — **an installation spares what is outside of its destination**.
* `Request.Course.proper` — **it leaves a proper tree**.
-/

set_option autoImplicit false
namespace KernelRegistry

open Text (Bytes)

namespace FileTree

/-! ## Sparing what is elsewhere -/

/-- Outside of the destination nothing has vanished or changed, and nothing else than directories
has been made.  Where these are is not said, since that depends on the paths. -/
def Spared (t u : FileTree) (destination : Location) : Prop :=
  ∀ y, ¬ destination <+: y →
    u.node? y = t.node? y ∨ t.node? y = none ∧ u.node? y = some .directory

/-- Anything but a link, and at the destination itself only a directory.  Whatever a bundle has in
it, its copy is made of such nodes, because links are followed when they are copied. -/
def Ordinary (below : Location) (n : Node) : Prop :=
  (∀ target, n ≠ .link target) ∧ (below = [] → n = .directory)

theorem Ordinary.plain : Plain Ordinary :=
  ⟨fun _ target h => h.1 target rfl, fun _ h => h.2 rfl⟩

section Frame

variable {t c b u : FileTree} {working above destination : Location} {parent source q : Path}
variable {name : Bytes} {listing : Listing} {depth : Nat} {stops : List Location}
variable {allowed : Location → Node → Prop}

theorem Spared.refl (t : FileTree) (destination : Location) : Spared t t destination :=
  fun _ _ => .inl rfl

theorem Spared.trans (h : Spared t c destination) (h' : Spared c u destination) :
    Spared t u destination := by
  intro y hy
  rcases h y hy with hsame | ⟨hnone, hmade⟩
  · rw [← hsame]
    exact h' y hy
  · rcases h' y hy with hsame | ⟨hnone', -⟩
    · exact .inr ⟨hnone, hsame.trans hmade⟩
    · rw [hmade] at hnone'
      cases hnone'

/-- Anything that was outside of the destination is still there. -/
theorem Spared.node? (h : Spared t u destination) {y : Location} (hy : ¬ destination <+: y)
    (hthere : t.node? y ≠ none) : u.node? y = t.node? y :=
  (h y hy).resolve_right fun hnone => hthere hnone.1

theorem Cleared.spared (h : Cleared t c destination) : Spared t c destination :=
  fun y hy => .inl (h.elsewhere y hy)

theorem OnlyRemoved.spared (h : OnlyRemoved t u destination) : Spared t u destination :=
  fun y hy => .inl (h.elsewhere y hy)

/-- Removing something below the root leaves a proper tree. -/
theorem OnlyRemoved.proper (h : OnlyRemoved t u (above ++ [name])) (ht : t.Proper) : u.Proper := by
  refine ⟨(h.elsewhere [] (by simp)).trans ht.root, fun place n hn => ht.names place n ?_⟩
  rw [← (h.left (place ++ [n])).resolve_left hn]
  exact hn

/-- A removal that fails has removed something at the destination at most. -/
theorem ClearDestination.removeAll_error [Disk] (h : ClearDestination t working parent above name)
    (hexists : t.existsAt working (parent.join ⟨name⟩) = true) {e : FileError}
    (herror : removeAll working (parent.join ⟨name⟩) t = .error e u) :
    OnlyRemoved t u (above ++ [name]) := by
  obtain ⟨above', hgoal, hfails⟩ :=
    FileTree.removeAll_error ⟨h.proper.root, h.origin⟩ h.isName hexists herror
  obtain rfl := Option.some.inj (h.goal.symm.trans hgoal)
  exact hfails.onlyRemoved

theorem Made.spared (h : Made stops t u) (destination : Location) : Spared t u destination := by
  intro y _
  cases hnode : t.node? y with
  | some n => exact .inl (h.same y n hnode)
  | none =>
    by_cases hnone : u.node? y = none
    · exact .inl hnone
    · exact .inr ⟨rfl, (h.new y hnode hnone).2.1⟩

theorem Inside.spared (h : Inside b destination allowed u) : Spared b u destination :=
  fun y hy => .inl (h.elsewhere y hy)

/-! ## Copying from anywhere -/

variable [Disk]

/-- A copy makes no links, whatever its source is: links are followed. -/
theorem Ordinary.feeds (b : FileTree) (working destination : Location) :
    Feeds b working destination Ordinary (fun _ _ => True) (fun _ below => below ≠ []) := by
  refine ⟨fun _ _ _ _ _ => ⟨by simp, fun _ => rfl⟩, fun _ _ _ _ _ _ _ _ name child _ _ => ?_,
    fun _ _ _ _ _ _ _ hbelow _ _ _ => ⟨by simp, fun h => absurd h hbelow⟩⟩
  split <;> simp

omit [Disk] in
/-- Nothing is found from a working directory that is missing. -/
theorem find_of_missing {follow : Bool} (h : t.node? (start working q) = none)
    (hroot : t.node? [] = some .directory) : ∃ e, find t working follow q = .error e := by
  have hrelative : ¬ q.isAbsolute = true := by
    intro habs
    rw [start, if_pos habs, hroot] at h
    cases h
  rw [start, if_neg hrelative, node?_eq_none_iff] at h
  rw [find, locate]
  by_cases hnul : q.bytes.contains 0 = true
  · exact ⟨_, by rw [if_pos hnul]⟩
  by_cases hempty : q.isEmpty = true
  · exact ⟨_, by rw [if_neg hnul, if_pos hempty]⟩
  by_cases hlong : pathLimit ≤ q.bytes.length
  · exact ⟨_, by rw [if_neg hnul, if_neg hempty, if_pos hlong]⟩
  · exact ⟨.notFound, by rw [if_neg hnul, if_neg hempty, if_neg hlong, if_neg hrelative, h]⟩

theorem copyEntries_of_missing {target : Path} (h : t.node? (start working source) = none)
    (hroot : t.node? [] = some .directory) :
    (copyEntries listing working depth source target).after t = t := by
  obtain ⟨e, hfind⟩ : ∃ e, find t working true source = .error e := find_of_missing h hroot
  rw [copyEntries]
  refine after_bind (P := fun u => u = t) after_readDirectory fun listed v hread => ?_
  obtain ⟨rfl, location, entries, hfind', -⟩ := readDirectory_eq_ok hread
  rw [hfind] at hfind'
  cases hfind'

/-- **Copying from anywhere to a destination that was cleared changes nothing outside of it.** -/
theorem Ready.copyEntries_inside (hb : Ready b working parent above name) (hlisting : listing.Exact)
    (hdestination : b.node? (above ++ [name]) = some .directory)
    (hempty : ∀ below, below ≠ [] → b.node? (above ++ [name] ++ below) = none)
    (hsource : ∀ n, b.node? (start working source) = some n → n = .directory) (depth : Nat) :
    Inside b (above ++ [name]) Ordinary
      ((copyEntries listing working depth source (parent.join ⟨name⟩)).after b) := by
  have hinside : Inside b (above ++ [name]) Ordinary b :=
    Inside.of_empty ⟨by simp, fun _ => rfl⟩ hdestination hempty
  by_cases hstart : NotBelow (above ++ [name]) (start working source)
  · have hfeeds := Ordinary.feeds b working (above ++ [name])
    refine (hinside.copyEntries hb Ordinary.plain hfeeds hlisting ?_ (by simp)
      ((Path.Follows.refl parent).join hb.isName) trivial fun u hu =>
        hu.freeStart hb Ordinary.plain hsource hstart).inside
    exact fun ht hbelow htarget hs hfreeStart =>
      ht.copyNested hb Ordinary.plain hfeeds hlisting depth hbelow htarget hs hfreeStart
  · -- the source is seen from a directory that has been removed
    obtain ⟨hunder, hne⟩ := Classical.not_imp.1 hstart
    obtain ⟨below, hbelow⟩ := hunder
    have hmissing : b.node? (start working source) = none := by
      rw [← hbelow]
      exact hempty below fun hnil => hne (by rw [← hbelow, hnil, List.append_nil])
    rw [copyEntries_of_missing hmissing hb.proper.root]
    exact hinside

end Frame

end FileTree

/-! ## Installing -/

namespace Request

open FileTree

section Spared

variable [Disk] {listing : Listing} {resolver : Resolver} {m : Machine} {r : Request}
variable {t c u : FileTree} {working above : Location} {parent : Path} {name : Bytes}
variable {outcome : Except InstallError Report} {replaced : Bool}

/-- Copying to a place that was cleared fails before anything but directories has been made, or it
comes to a destination that is an empty directory. -/
theorem copyTree_cases (h : ClearDestination c working parent above name) (listing : Listing)
    (source : Path) :
    (∃ e u, Made (c.wayTo working (parent.join ⟨name⟩)).stops c u ∧
      copyTree listing working source (parent.join ⟨name⟩) c = .error e u) ∨
    ∃ b, Made (c.wayTo working (parent.join ⟨name⟩)).stops c b ∧
      makeDirectories working (parent.join ⟨name⟩) c = .ok () b ∧
      copyTree listing working source (parent.join ⟨name⟩) c =
        copyEntries listing working (pathLimit - 1) source (parent.join ⟨name⟩) b := by
  have hmade := makeDirectories_made h.freeStart
  cases hmake : makeDirectories working (parent.join ⟨name⟩) c with
  | error e u =>
    rw [Action.after_of_error hmake] at hmade
    exact .inl ⟨e, u, hmade, by rw [copyTree_eq, bind_of_error hmake]⟩
  | ok _ b =>
    rw [Action.after_of_ok hmake] at hmade
    exact .inr ⟨b, hmade, rfl, by rw [copyTree_eq, bind_of_ok hmake]⟩

/-- Copying makes some directories and fails, or everything is made that is missing on the way to
the destination, and then only the destination is worked at. -/
theorem copyTree_inside (h : ClearDestination c working parent above name)
    (hc : Cleared t c (above ++ [name])) (hlisting : listing.Exact) {source : Path}
    (hsource : ∀ n, c.node? (start working source) = some n → n = .directory) :
    (∃ e u, Made (c.wayTo working (parent.join ⟨name⟩)).stops c u ∧
      copyTree listing working source (parent.join ⟨name⟩) c = .error e u) ∨
    ∃ b, Made (c.wayTo working (parent.join ⟨name⟩)).stops c b ∧
      Ready b working parent above name ∧ Inside b (above ++ [name]) Ordinary
        ((copyTree listing working source (parent.join ⟨name⟩)).after c) := by
  refine (copyTree_cases h listing source).imp_right fun ⟨b, hmade, hmake, hcopy⟩ => ?_
  obtain ⟨hready, hdestination, hempty⟩ := h.ready hc h.follows hmake
  refine ⟨b, hmade, hready, ?_⟩
  rw [Action.after, hcopy]
  exact hready.copyEntries_inside hlisting hdestination hempty
    (hmade.freeStart ⟨h.proper.root, hsource⟩).start (pathLimit - 1)

/-- **Copying spares what is outside of the destination**, also where it fails. -/
theorem copyTree_spared (h : ClearDestination c working parent above name)
    (hc : Cleared t c (above ++ [name])) (hlisting : listing.Exact) {source : Path}
    (hsource : ∀ n, c.node? (start working source) = some n → n = .directory) :
    Spared c ((copyTree listing working source (parent.join ⟨name⟩)).after c) (above ++ [name]) ∧
      ∀ count u, copyTree listing working source (parent.join ⟨name⟩) c = .ok count u →
        ∃ b, Ready b working parent above name ∧ Inside b (above ++ [name]) Ordinary u := by
  rcases copyTree_inside h hc hlisting hsource with
    ⟨e, u, hmade, herror⟩ | ⟨b, hmade, hready, hinside⟩
  · rw [Action.after_of_error herror, herror]
    exact ⟨hmade.spared _, fun _ _ hok => by cases hok⟩
  · refine ⟨(hmade.spared _).trans hinside.spared, fun count u hok => ⟨b, hready, ?_⟩⟩
    rwa [Action.after_of_ok hok] at hinside

/-- Writing the kernel file works at the destination only. -/
theorem writeKernelFile_inside {b : FileTree} (hb : Ready b working parent above name)
    (h : Inside b (above ++ [name]) Ordinary u) (content : Bytes) :
    Inside b (above ++ [name]) Ordinary
      ((FileTree.writeFile working ((parent.join ⟨name⟩).joinText kernelFileName)
        content).after u) := by
  have hnames : ∀ n ∈ [] ++ [kernelFileBytes], Path.IsName n := by
    simpa using isName_kernelFileBytes
  exact (h.writeFile hb Ordinary.plain hnames
    (((Path.Follows.refl parent).join hb.isName).join isName_kernelFileBytes)
    (fun _ _ => ⟨by simp, fun _ => rfl⟩) (fun mode left _ => show Ordinary _ (.file mode left) from
      ⟨by simp, by simp⟩)).inside

/-- Writing the kernel file spares what is outside of the destination, also where it fails. -/
theorem writeKernelFile_spared {b : FileTree} (hb : Ready b working parent above name)
    (h : Inside b (above ++ [name]) Ordinary u) (content : Bytes) :
    Spared u ((FileTree.writeFile working ((parent.join ⟨name⟩).joinText kernelFileName)
      content).after u) (above ++ [name]) := fun y hy =>
  .inl (((writeKernelFile_inside hb h content).elsewhere y hy).trans (h.elsewhere y hy).symm)

/-- **However it goes, an installation spares what is outside of the destination.**  The one
exception is a destination that is not seen, because its path comes through a directory that is
still missing. -/
theorem Course.spared (hcourse : Course listing resolver m r t outcome u) (hlisting : listing.Exact)
    (hdestination : r.destination resolver m = .ok (parent.join ⟨name⟩))
    (h : ClearDestination t m.working parent above name)
    (hworking : ∀ n, t.node? m.working = some n → n = .directory)
    (hoverlaid : ¬ Overlaid t m.working (parent.join ⟨name⟩) (above ++ [name])) :
    Spared t u (above ++ [name]) := by
  have hcopied : ∀ replaced c, Clearing m.working r (parent.join ⟨name⟩) t replaced c →
      Spared t ((copyTree listing m.working r.manifest.bundle (parent.join ⟨name⟩)).after c)
        (above ++ [name]) ∧
      ∀ count u, copyTree listing m.working r.manifest.bundle (parent.join ⟨name⟩) c =
          .ok count u → ∀ content, Spared t ((FileTree.writeFile m.working
            ((parent.join ⟨name⟩).joinText kernelFileName) content).after u) (above ++ [name]) := by
    intro replaced c hclear
    obtain ⟨hcleared, -⟩ := hclear.cleared h hoverlaid
    have hsource := FreeStart.of_working h.proper.root hworking r.manifest.bundle
    obtain ⟨hspared, hok⟩ := copyTree_spared (h.cleared hcleared) hcleared hlisting
      (hcleared.origin hsource.start)
    refine ⟨hcleared.spared.trans hspared, fun count u hcopy content => ?_⟩
    obtain ⟨b, hready, hinside⟩ := hok count u hcopy
    rw [Action.after_of_ok hcopy] at hspared
    exact (hcleared.spared.trans hspared).trans (writeKernelFile_spared hready hinside content)
  refine hcourse.left (P := fun u => Spared t u (above ++ [name])) hdestination (.refl t _)
    (fun e v hexists hremove => ?_) (fun replaced c hclear => (hcopied replaced c hclear).1)
    fun replaced c count v content hclear hcopy =>
      (hcopied replaced c hclear).2 count v hcopy content
  exact (h.removeAll_error hexists hremove).spared

/-- **However it goes, an installation leaves a proper tree**, unless it did not see what is at its
destination. -/
theorem Course.proper (hcourse : Course listing resolver m r t outcome u) (hlisting : listing.Exact)
    (hdestination : r.destination resolver m = .ok (parent.join ⟨name⟩))
    (h : ClearDestination t m.working parent above name)
    (hsource : FreeStart t m.working r.manifest.bundle)
    (hoverlaid : ¬ Overlaid t m.working (parent.join ⟨name⟩) (above ++ [name])) : u.Proper := by
  have hcopied : ∀ replaced c, Clearing m.working r (parent.join ⟨name⟩) t replaced c →
      ((copyTree listing m.working r.manifest.bundle (parent.join ⟨name⟩)).after c).Proper ∧
      ∀ count u, copyTree listing m.working r.manifest.bundle (parent.join ⟨name⟩) c =
          .ok count u → ∀ content, ((FileTree.writeFile m.working
            ((parent.join ⟨name⟩).joinText kernelFileName) content).after u).Proper := by
    intro replaced c hclear
    obtain ⟨hcleared, -⟩ := hclear.cleared h hoverlaid
    have happroach := h.cleared hcleared
    rcases copyTree_inside happroach hcleared hlisting (hcleared.origin hsource.start) with
      ⟨e, v, hmade, herror⟩ | ⟨b, -, hready, hinside⟩
    · rw [Action.after_of_error herror, herror]
      exact ⟨hmade.proper happroach.proper, fun _ _ hok => by cases hok⟩
    · refine ⟨hinside.proper hready, fun count u hok content => ?_⟩
      rw [Action.after_of_ok hok] at hinside
      exact (writeKernelFile_inside hready hinside content).proper hready
  refine hcourse.left (P := FileTree.Proper) hdestination h.proper (fun e v hexists hremove => ?_)
    (fun replaced c hclear => (hcopied replaced c hclear).1)
    fun replaced c count v content hclear hcopy =>
      (hcopied replaced c hclear).2 count v hcopy content
  exact (h.removeAll_error hexists hremove).proper h.proper

end Spared

end Request
end KernelRegistry
