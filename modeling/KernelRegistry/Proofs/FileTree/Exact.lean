import KernelRegistry.Proofs.FileTree.Agree
import KernelRegistry.Proofs.FileTree.Approach
import KernelRegistry.Proofs.FileTree.Found
import KernelRegistry.Proofs.FileTree.Traced

/-!
# What a copy of a directory needs

The target is a directory beside the source, so that the two have nothing to do with each other.
While entries are copied, the source is what it was, so that what can be copied can be read off the
tree before the first entry was.

* `FileTree.Copyable` — what is at a place in the source can be copied.
* `FileTree.TargetBeside` — the target is a directory beside the source, and no link in the source
  comes to it.
* `FileTree.OnlyCopies` — what holds of the tree while entries are copied; each step keeps it
  (`AddsCopies`).
* `TargetBeside.copyFile_ok`, `TargetBeside.copyNested_ok` — **what can be copied is copied**.
* `TargetBeside.copyFile_allCopyable`, `TargetBeside.copyNested_allCopyable` — **what was copied
  could be**, and it is counted (`AllCopyable`).
* `TargetBeside.copyEntries_source_iff` — both for the whole source.
-/

set_option autoImplicit false
namespace KernelRegistry
namespace FileTree

open Text (Bytes)

/-- The conditions on a place in the source under which it can be copied: its path and the path of
its copy are followed at all, and if it is a link, it leads to a file. -/
structure Copyable (b : FileTree) (working : Location) (source target : Path) (x below : Location) :
    Prop where
  sourceSound : (source.within below).Sound
  targetSound : (target.within below).Sound
  link : ∀ goal, b.node? (x ++ below) = some (.link goal) →
    isFileAt b working (source.within below) = true

/-- The target is a directory that is there, reached through the directory `above`, and it is beside
the source. -/
structure TargetBeside (b : FileTree) (working : Location) (p source target : Path)
    (above : Location)
    (name : Bytes) (x : Location) : Prop extends Ready b working p above name where
  apart : Apart b working source (above ++ [name]) x
  workingDirectory : b.node? working = some .directory
  outside : ¬ above ++ [name] <+: working
  fits : b.NamesFit
  leadsInto : LeadsInto b working source x
  follows : Path.Follows p [name] target
  there : b.node? (above ++ [name]) = some .directory

/-- Nothing else than copies is in the destination, and the destination is there.  This holds of the
tree before each entry is copied, so what is read from the source then is still what `b` has. -/
structure OnlyCopies (b : FileTree) (working : Location) (source : Path) (destination x : Location)
    (t : FileTree) : Prop where
  inside : Inside b destination (Copied b working source x) t
  there : t.node? destination ≠ none
  distinct : t.isDistinct = true

/-- Copying goes on, and nothing vanishes: the copies that were made before are there at the end. -/
structure AddsCopies (b : FileTree) (working : Location) (source : Path) (destination x : Location)
    (t u : FileTree) : Prop where
  onlyCopies : OnlyCopies b working source destination x u
  kept : ∀ y, t.node? y ≠ none → u.node? y ≠ none

/-- Everything at and below a place in the source can be copied, and this is how many files there
are. -/
structure AllCopyable (b : FileTree) (working : Location) (source target : Path)
    (x below : Location)
    (count : Nat) : Prop where
  copyable : ∀ y, below <+: y → b.node? (x ++ y) ≠ none → Copyable b working source target x y
  files : ∃ files : List Location, count = files.length ∧ files.Nodup ∧
    ∀ y, y ∈ files ↔ below <+: y ∧ ∃ n, b.node? (x ++ y) = some n ∧ n ≠ .directory

/-! ## Entries -/

/-- The copy of one entry of a directory, added to the number of files that were copied before
it. -/
def copyEntry (listing : Listing) (working : Location) (depth : Nat) (source target : Path)
    (count : Nat) : Bytes × Bool → Action Nat
  | (name, true) => do
    let copied ← copyNested listing working depth (source.join ⟨name⟩) (target.join ⟨name⟩)
    return count + copied
  | (name, false) => do
    let _ ← copyFile working (source.join ⟨name⟩) (target.join ⟨name⟩)
    return count + 1

/-- A directory is copied entry by entry. -/
theorem copyEntries_of_find {t : FileTree} {working location : Location} {source : Path}
    {entries : List (Bytes × FileTree)}
    (hfind : find t working true source = .ok (location, .directory entries)) (listing : Listing)
    (depth : Nat) (target : Path) :
    copyEntries listing working depth source target t =
      (listNames listing location entries).foldlM
        (copyEntry listing working depth source target) 0 t := by
  have hentry : (fun (count : Nat) (entry : Bytes × Bool) =>
      if entry.2 = true then do
        let copied ← copyNested listing working depth (source.join ⟨entry.1⟩)
          (target.join ⟨entry.1⟩)
        return count + copied
      else do
        let _ ← copyFile working (source.join ⟨entry.1⟩) (target.join ⟨entry.1⟩)
        return count + 1) = copyEntry listing working depth source target := by
    funext count entry
    obtain ⟨name, isDirectory⟩ := entry
    cases isDirectory <;> rfl
  have hread : readDirectory listing working source t =
      .ok (listNames listing location entries) t := by
    rw [readDirectory, bind_of_ok (answer_of_ok hfind)]
    exact bind_of_ok (ask_sound _ t)
  rw [← hentry]
  exact bind_of_ok hread

/-! ## Steps over a list -/

section Fold

variable {α β : Type} {l : List α} {t u : FileTree}

/-- If each step succeeds, all of them do. -/
theorem foldlM_succeeds {f : β → α → Action β} {P : FileTree → Prop} (ht : P t)
    (hstep : ∀ a ∈ l, ∀ c t, P t → ∃ d u, f c a t = .ok d u ∧ P u) (init : β) :
    ∃ c u, l.foldlM f init t = .ok c u ∧ P u := by
  induction l generalizing t init with
  | nil => exact ⟨init, t, rfl, ht⟩
  | cons a rest ih =>
    obtain ⟨d, v, hfirst, hv⟩ := hstep a List.mem_cons_self init t ht
    obtain ⟨c, u, hrest, hu⟩ := ih hv (fun a' ha' => hstep a' (List.mem_cons_of_mem _ ha')) d
    exact ⟨c, u, by rw [List.foldlM_cons, bind_of_ok hfirst, hrest], hu⟩

/-- Steps that count what belongs to different items count what belongs to any of them. -/
theorem foldlM_counts {f : Nat → α → Action Nat} {P : FileTree → Prop} {R : α → Prop}
    {Q : α → β → Prop} {init count : Nat}
    (hdisjoint : l.Pairwise fun a a' => ∀ y, Q a y → ¬ Q a' y) (ht : P t)
    (hstep : ∀ a ∈ l, ∀ c t d u, P t → f c a t = .ok d u → P u ∧ R a ∧
      ∃ counted : List β, d = c + counted.length ∧ counted.Nodup ∧ ∀ y, y ∈ counted ↔ Q a y)
    (hok : l.foldlM f init t = .ok count u) :
    (∀ a ∈ l, R a) ∧ ∃ counted : List β, count = init + counted.length ∧ counted.Nodup ∧
      ∀ y, y ∈ counted ↔ ∃ a ∈ l, Q a y := by
  induction l generalizing t init with
  | nil =>
    cases hok
    exact ⟨by simp, [], by simp⟩
  | cons a rest ih =>
    rw [List.foldlM_cons] at hok
    obtain ⟨d, v, hfirst, hrest⟩ := bind_eq_ok hok
    obtain ⟨hv, ha, first, hd, hfirstNodup, hfirstMem⟩ :=
      hstep a List.mem_cons_self init t d v ht hfirst
    obtain ⟨hothers, hdisjoint⟩ := List.pairwise_cons.1 hdisjoint
    obtain ⟨hR, others, hcount, hothersNodup, hothersMem⟩ :=
      ih hdisjoint hv (fun a' ha' => hstep a' (List.mem_cons_of_mem _ ha')) hrest
    refine ⟨fun a' ha' => ?_, first ++ others, ?_, ?_, fun y => ?_⟩
    · rcases List.mem_cons.1 ha' with rfl | ha'
      · exact ha
      · exact hR a' ha'
    · rw [hcount, hd, List.length_append, Nat.add_assoc]
    · refine List.nodup_append.2 ⟨hfirstNodup, hothersNodup, fun y hy y' hy' heq => ?_⟩
      obtain ⟨a', ha', hy''⟩ := (hothersMem y').1 hy'
      exact hothers a' ha' y ((hfirstMem y).1 hy) (heq ▸ hy'')
    · rw [List.mem_append, hfirstMem, hothersMem]
      constructor
      · rintro (hy | ⟨a', ha', hy⟩)
        · exact ⟨a, List.mem_cons_self, hy⟩
        · exact ⟨a', List.mem_cons_of_mem _ ha', hy⟩
      · rintro ⟨a', ha', hy⟩
        rcases List.mem_cons.1 ha' with rfl | ha'
        · exact .inl hy
        · exact .inr ⟨a', ha', hy⟩

end Fold

section Copy

variable {b t u : FileTree} {working above x y z below : Location} {p q source target : Path}
variable {name last content : Bytes} {mode : Nat} {n : Node} {listing : Listing} {depth : Nat}

theorem node?_of_image_directory (h : b.image working source x below = some .directory) :
    b.node? (x ++ below) = some .directory := by
  rw [image] at h
  split at h
  · split at h <;> cases h
  · exact h

theorem node?_above (hx : b.node? (x ++ (below ++ [last])) = some n) :
    b.node? (x ++ below) = some .directory := by
  rw [← List.append_assoc] at hx
  exact node?_of_node?_append (List.cons_ne_nil last []) (by rw [hx]; simp)

/-- Nothing is below what is no directory. -/
theorem eq_of_not_directory (hx : b.node? (x ++ below) = some n) (hn : n ≠ .directory)
    (hy : below <+: y) (hthere : b.node? (x ++ y) ≠ none) : y = below := by
  rcases node?_of_part hthere hy with rfl | hdirectory
  · rfl
  · rw [hx] at hdirectory
    exact absurd (Option.some.inj hdirectory) hn

/-- Places below different names in a directory are different. -/
theorem not_prefix_of_ne {other : Bytes} (hne : name ≠ other) (hy : below ++ [name] <+: y) :
    ¬ below ++ [other] <+: y := by
  intro hy'
  rcases List.prefix_or_prefix_of_prefix hy hy' with hprefix | hprefix
  · exact (Beside.of_ne hne).notBelow hprefix
  · exact (Beside.of_ne hne).notAbove hprefix

theorem copyOver_eq_ok {count : Nat} (h : copyOver working source target t = .ok count u) :
    (∃ here mode content, find t working true source = .ok (here, .file mode content)) ∧
      ∃ opened, openTarget t working target = .ok opened := by
  obtain ⟨⟨here, found⟩, v, hfind, hrest⟩ := bind_eq_ok h
  obtain ⟨hfind, rfl⟩ := answer_eq_ok hfind
  cases found with
  | link | directory => cases hrest
  | file mode content =>
    obtain ⟨_, w, hread, hopened⟩ := bind_eq_ok hrest
    obtain rfl := ask_eq_ok hread
    obtain ⟨opened, w', hopen, -⟩ := bind_eq_ok hopened
    exact ⟨⟨here, mode, content, hfind⟩, opened, (answer_eq_ok hopen).1⟩

theorem OnlyCopies.advance {destination : Location}
    (h : OnlyCopies b working source destination x t)
    (hadvance : Advance b destination (Copied b working source x) t u)
    (hdistinct : u.isDistinct = true) : AddsCopies b working source destination x t u :=
  ⟨⟨hadvance.inside, hadvance.kept _ h.there, hdistinct⟩, hadvance.kept⟩

theorem OnlyCopies.node?_destination {destination : Location}
    (h : OnlyCopies b working source destination x t) : t.node? destination = some .directory := by
  obtain ⟨n, hn⟩ := Option.ne_none_iff_exists'.1 h.there
  have hnode := (Copied.plain b working source x).root n
    (h.inside.node [] n (by rwa [List.append_nil]))
  rw [hn, hnode]

namespace TargetBeside

variable (h : TargetBeside b working p source target above name x)
include h

/-! ## Trees while entries are copied -/

theorem isDirectorySource (hx : b.node? (x ++ below) = some .directory) :
    Apart.IsDirectorySource b source x (source.within below) below :=
  ⟨rfl, h.proper.isName_of_mem (by rw [hx]; simp), .inr hx⟩

/-- The source itself is a directory, so anything else is below it. -/
theorem isFileSource (hx : b.node? (x ++ below) = some n) (hn : n ≠ .directory) :
    Apart.IsFileSource b source x (source.within below) below := by
  refine ⟨rfl, h.proper.isName_of_mem (by rw [hx]; simp), ?_, n, hx, hn⟩
  rintro rfl
  rw [List.append_nil, h.leadsInto.directory] at hx
  exact hn (Option.some.inj hx).symm

section OnlyCopies

variable (ht : OnlyCopies b working source (above ++ [name]) x t)
include ht

/-- Places that are clear of the destination stay the same while entries are copied. -/
theorem node?_of_clear (hy : Clear b (above ++ [name]) y) : t.node? y = b.node? y := by
  by_cases hunder : above ++ [name] <+: y
  · rw [(hy hunder).1, h.there, ht.node?_destination]
  · exact ht.inside.elsewhere y hunder

theorem node?_source (below : Location) : t.node? (x ++ below) = b.node? (x ++ below) :=
  h.apart.node?_eq ht.inside below

theorem hasWorkplace : HasWorkplace t working :=
  ⟨ht.inside.proper h.toReady,
    (ht.inside.elsewhere working h.outside).trans h.workingDirectory⟩

/-- The names in the copy are names in the source. -/
theorem namesFit : t.NamesFit := by
  intro parent last hthere
  by_cases hunder : above ++ [name] <+: parent ++ [last]
  · rcases prefix_cases hunder with ⟨rfl, rfl⟩ | ⟨below, rfl⟩
    · exact h.fits _ _ (by rw [h.there]; simp)
    · obtain ⟨n, hn⟩ := Option.ne_none_iff_exists'.1 hthere
      rw [List.append_assoc] at hn
      have himage := ((copied_sound.1 (ht.inside.node _ n hn)).resolve_left (by simp)).2
      refine h.fits (x ++ below) last fun hgone => ?_
      rw [List.append_assoc] at hgone
      rw [image, hgone] at himage
      cases himage
  · rw [ht.inside.elsewhere _ hunder] at hthere
    exact h.fits parent last hthere

theorem leadsInto_of_clear (hq : LeadsInto b working q z)
    (hclear : ∀ y ∈ (b.wayTo working q).stops, Clear b (above ++ [name]) y)
    (hz : ¬ above ++ [name] <+: z) : LeadsInto t working q z := by
  have hway := ht.inside.wayTo (Copied.plain b working source x) hclear
  refine ⟨hway ▸ hq.goal, (ht.inside.elsewhere z hz).trans hq.directory, fun y hy => ?_⟩
  rw [hway] at hy
  rw [h.node?_of_clear ht (hclear y hy)]
  exact hq.present y hy

/-- The way to a directory of the source is there. -/
theorem leadsInto_source (hx : b.node? (x ++ below) = some .directory) :
    LeadsInto t working (source.within below) (x ++ below) :=
  (h.leadsInto_of_clear ht h.leadsInto h.apart.clear h.apart.notBelow).within
    (h.isDirectorySource hx).names ((h.node?_source ht below).trans hx)

/-- The way to the copy of a directory is there. -/
theorem leadsInto_target (hx : b.node? (x ++ below) = some .directory)
    (hthere : t.node? (above ++ [name] ++ below) ≠ none) :
    LeadsInto t working (target.within below) (above ++ [name] ++ below) := by
  have hp : LeadsInto t working p above :=
    h.leadsInto_of_clear ht ⟨h.goal, h.directory, h.present⟩ h.clear
    (not_concat_below above name)
  have hdestination : LeadsInto t working target (above ++ [name]) :=
    (hp.join h.isName ht.node?_destination).of_follows_nil (h.follows.of_join h.isName)
  refine hdestination.within (h.isDirectorySource hx).names ?_
  obtain ⟨n, hn⟩ := Option.ne_none_iff_exists'.1 hthere
  rcases copied_sound.1 (ht.inside.node below n hn) with ⟨-, hdirectory⟩ | ⟨-, himage⟩
  · rw [hn, hdirectory]
  · rw [image_of_not_link hx (by simp)] at himage
    rw [hn, ← himage]

/-- **What can be copied is found as a file.** -/
theorem exists_find (hx : b.node? (x ++ below) = some n) (hn : n ≠ .directory)
    (hcopyable : Copyable b working source target x below) :
    ∃ here mode content,
      find t working true (source.within below) = .ok (here, .file mode content) := by
  have hbase := h.hasWorkplace ht
  have hs := h.isFileSource hx hn
  cases n with
  | directory => exact absurd rfl hn
  | link goal =>
    have hfile := hcopyable.link goal hx
    rw [isFileAt] at hfile
    split at hfile
    · next here found hfind =>
      cases found with
      | link | directory => cases hfile
      | file mode content =>
        refine ⟨here, mode, content, find_file_congr ⟨h.proper, h.workingDirectory⟩ hbase
          (fun y hy => h.node?_of_clear ht ((h.apart.links below goal hx).1 y hy)) hfind⟩
    · cases hfile
  | file mode content =>
    obtain ⟨init, last, rfl⟩ : ∃ init last, below = init ++ [last] := by
      rcases List.eq_nil_or_concat below with hnil | ⟨init, last, heq⟩
      · exact absurd hnil hs.nonempty
      · exact ⟨init, last, by rw [heq, List.concat_eq_append]⟩
    have hinit := node?_above hx
    rw [← List.append_assoc] at hx
    have hsound := hcopyable.sourceSound
    rw [Path.within_concat] at hsound ⊢
    have hnode : t.node? (x ++ init ++ [last]) = some (.file mode content) := by
      rw [List.append_assoc, h.node?_source ht, ← List.append_assoc, hx]
    have hlocate := (h.leadsInto_source ht hinit).locate_of_file hbase (h.namesFit ht)
      (hs.names last (by simp)) hsound (h.fits _ last (by rw [hx]; simp)) hnode true
    exact ⟨_, mode, content, by rw [find, hlocate]⟩

end OnlyCopies

/-! ## Steps -/

theorem follows_within (hx : b.node? (x ++ below) ≠ none) :
    Path.Follows p (name :: below) (target.within below) := by
  have hwithin := Path.Follows.within target (h.proper.isName_of_mem hx)
  refine ⟨?_, hwithin.isAbsolute.trans h.follows.isAbsolute⟩
  rw [hwithin.names, h.follows.names, List.append_assoc, List.singleton_append]

/-- Where a directory is copied to, it and the directories above it may be made. -/
theorem allowed (hx : b.node? (x ++ below) = some .directory) :
    ∀ part, part <+: below → Copied b working source x part .directory :=
  (h.apart.feedsCopied h.toReady).made _ _ (h.isDirectorySource hx)

section Steps

variable (ht : OnlyCopies b working source (above ++ [name]) x t)
include ht

theorem makeDirectories_addsCopies (hx : b.node? (x ++ below) = some .directory) :
    AddsCopies b working source (above ++ [name]) x t
      ((makeDirectories working (target.within below)).after t) :=
  ht.advance (ht.inside.makeDirectories h.toReady (Copied.plain b working source x)
    (h.isDirectorySource hx).names (h.follows_within (by rw [hx]; simp)) (h.allowed hx))
    (makeDirectories_isDistinct ht.distinct working _)

theorem copyFile_addsCopies (hx : b.node? (x ++ (below ++ [last])) = some n) (hn : n ≠ .directory) :
    AddsCopies b working source (above ++ [name]) x t
      ((copyFile working (source.within (below ++ [last])) (target.within (below ++ [last]))).after
        t) := by
  have hs := h.isFileSource hx hn
  have hfollows := h.follows_within (by rw [hx]; simp)
  refine ht.advance (ht.inside.copyFile h.toReady (Copied.plain b working source x) hs.names
    hfollows (h.allowed (node?_above hx)) fun v hv => ⟨?_, ?_⟩)
    (copyFile_isDistinct ht.distinct working _ _)
  · exact Apart.freeStart h.toReady h.apart hv hs.names
  · exact fun here mode content left =>
      (h.apart.feedsCopied h.toReady).content _ _ v here mode content left hs hv

theorem copyNested_addsCopies (hlisting : listing.Exact)
    (hx : b.node? (x ++ below) = some .directory)
    (depth : Nat) :
    AddsCopies b working source (above ++ [name]) x t
      ((copyNested listing working depth (source.within below) (target.within below)).after t) :=
  ht.advance (Apart.copyNested h.toReady h.apart hlisting ht.inside
    (h.follows_within (by rw [hx]; simp)) (h.isDirectorySource hx) depth)
    (copyNested_isDistinct ht.distinct listing working depth _ _)

/-- After its directory was made, the copy of a directory is there. -/
theorem node?_of_makeDirectories (hx : b.node? (x ++ below) = some .directory)
    (hok : makeDirectories working (target.within below) t = .ok () u) :
    u.node? (above ++ [name] ++ below) ≠ none := by
  have hfollows := h.follows_within (by rw [hx]; simp)
  have hmade := h.makeDirectories_addsCopies ht hx
  rw [Action.after_of_ok hok] at hmade
  obtain ⟨z, hz, hthere⟩ := (makeDirectories_reached ((h.hasWorkplace ht).freeStart _)
    hfollows.isEmpty_eq_false hok).goal
  obtain rfl := (hmade.onlyCopies.inside.way_of_follows h.toReady (Copied.plain b working source x)
    (h.isDirectorySource hx).names hfollows).1 z hz
  rw [hthere]
  simp

/-- Everything that is listed is in the source. -/
theorem listed (hlisting : listing.Exact) (hx : b.node? (x ++ below) = some .directory)
    {location : Location} {entries : List (Bytes × FileTree)}
    (hfind : find t working true (source.within below) = .ok (location, .directory entries)) :
    location = x ++ below ∧ ∀ last isDirectory,
      (last, isDirectory) ∈ listNames listing location entries →
      ∃ n, b.node? (x ++ (below ++ [last])) = some n ∧ (isDirectory = true ↔ n = .directory) := by
  have hbase := h.hasWorkplace ht
  have hgoal := (of_find (hbase.freeStart _) hfind).goal
  rw [(h.leadsInto_source ht hx).goal] at hgoal
  obtain rfl := Option.some.inj hgoal
  refine ⟨rfl, fun last isDirectory hentry => ?_⟩
  obtain ⟨-, child, hchild, hisDirectory⟩ := hbase.listed hlisting hfind hentry
  refine ⟨child.node, ?_, ?_⟩
  · rw [← h.node?_source ht, ← List.append_assoc, node?_eq_some hchild]
  · rw [← hisDirectory, isDirectory_iff]

end Steps

/-! ## Success -/

/-- **What can be copied is copied.** -/
theorem copyFile_ok (ht : OnlyCopies b working source (above ++ [name]) x t)
    (hx : b.node? (x ++ (below ++ [last])) = some n) (hn : n ≠ .directory)
    (hcopyable : Copyable b working source target x (below ++ [last]))
    (hthere : t.node? (above ++ [name] ++ below) ≠ none) :
    ∃ count u,
      copyFile working (source.within (below ++ [last])) (target.within (below ++ [last])) t =
      .ok count u := by
  obtain ⟨here, mode, content, hfind⟩ := h.exists_find ht hx hn hcopyable
  have hnames := (h.isFileSource hx hn).names
  have hsound := hcopyable.targetSound
  rw [Path.within_concat] at hsound
  have habove := node?_above hx
  rw [← List.append_assoc] at hx
  have hfree : t.node? (above ++ [name] ++ below ++ [last]) = none ∨
      ∃ mode content, t.node? (above ++ [name] ++ below ++ [last]) = some (.file mode content) := by
    cases hnode : t.node? (above ++ [name] ++ below ++ [last]) with
    | none => exact .inl rfl
    | some n' =>
      rw [List.append_assoc] at hnode
      have himage := ((copied_sound.1 (ht.inside.node _ n' hnode)).resolve_left (by simp)).2
      cases n' with
      | file mode content => exact .inr ⟨mode, content, rfl⟩
      | link goal => exact absurd himage image_ne_link
      | directory =>
        rw [List.append_assoc] at hx
        exact absurd (Option.some.inj (hx.symm.trans (node?_of_image_directory himage))) hn
  rw [Path.within_concat target]
  exact (h.leadsInto_target ht habove hthere).copyFile (h.hasWorkplace ht) (h.namesFit ht)
    (hnames last (by simp)) hsound (h.fits _ last (by rw [hx]; simp)) hfree hfind

/-- The step of the induction for success: a directory whose files can be copied is copied, if the
directories in it are. -/
theorem copyEntries_ok (hlisting : listing.Exact)
    (hinner : ∀ last v, OnlyCopies b working source (above ++ [name]) x v →
      v.node? (above ++ [name] ++ below) ≠ none →
      b.node? (x ++ (below ++ [last])) = some .directory →
      ∃ count u, copyNested listing working depth (source.within (below ++ [last]))
        (target.within (below ++ [last])) v = .ok count u)
    (ht : OnlyCopies b working source (above ++ [name]) x t)
    (hx : b.node? (x ++ below) = some .directory)
    (hthere : t.node? (above ++ [name] ++ below) ≠ none)
    (hcopyable : ∀ y, below <+: y → b.node? (x ++ y) ≠ none →
      Copyable b working source target x y) :
    ∃ count u, copyEntries listing working depth (source.within below) (target.within below) t =
      .ok count u := by
  have hsound := (hcopyable below (List.prefix_refl _) (by rw [hx]; simp)).sourceSound
  obtain ⟨entries, hfind⟩ :=
    (h.leadsInto_source ht hx).find (h.hasWorkplace ht) (h.namesFit ht) hsound
  obtain ⟨-, hlisted⟩ := h.listed ht hlisting hx hfind
  rw [copyEntries_of_find hfind]
  refine (foldlM_succeeds (P := fun v => OnlyCopies b working source (above ++ [name]) x v ∧
    v.node? (above ++ [name] ++ below) ≠ none) ⟨ht, hthere⟩ (fun entry hentry c v hv => ?_) 0).imp
      fun count ⟨u, hok, _⟩ => ⟨u, hok⟩
  obtain ⟨last, isDirectory⟩ := entry
  obtain ⟨n, hn, hisDirectory⟩ := hlisted last isDirectory hentry
  cases isDirectory with
  | true =>
    obtain rfl := hisDirectory.1 rfl
    obtain ⟨copied, w, hcopy⟩ := hinner last v hv.1 hv.2 hn
    have hadds := h.copyNested_addsCopies hv.1 hlisting hn depth
    rw [Action.after_of_ok hcopy] at hadds
    rw [Path.within_concat, Path.within_concat] at hcopy
    exact ⟨c + copied, w, bind_of_ok hcopy, hadds.onlyCopies, hadds.kept _ hv.2⟩
  | false =>
    have hfile : n ≠ .directory := fun heq => Bool.false_ne_true (hisDirectory.2 heq)
    obtain ⟨copied, w, hcopy⟩ := h.copyFile_ok hv.1 hn hfile
      (hcopyable _ (List.prefix_append _ _) (by rw [hn]; simp)) hv.2
    have hadds := h.copyFile_addsCopies hv.1 hn hfile
    rw [Action.after_of_ok hcopy] at hadds
    rw [Path.within_concat, Path.within_concat] at hcopy
    exact ⟨c + 1, w, bind_of_ok hcopy, hadds.onlyCopies, hadds.kept _ hv.2⟩

/-- The directory is made that a directory is copied to. -/
theorem makeDirectories_ok (ht : OnlyCopies b working source (above ++ [name]) x t)
    (hx : b.node? (x ++ (below ++ [last])) = some .directory)
    (hsound : (target.within (below ++ [last])).Sound)
    (hthere : t.node? (above ++ [name] ++ below) ≠ none) :
    ∃ u, makeDirectories working (target.within (below ++ [last])) t = .ok () u := by
  have hnames := (h.isDirectorySource hx).names
  have habove := node?_above hx
  have hfree : t.node? (above ++ [name] ++ below ++ [last]) = none ∨
      t.node? (above ++ [name] ++ below ++ [last]) = some .directory := by
    cases hnode : t.node? (above ++ [name] ++ below ++ [last]) with
    | none => exact .inl rfl
    | some n =>
      rw [List.append_assoc] at hnode
      have himage := ((copied_sound.1 (ht.inside.node _ n hnode)).resolve_left (by simp)).2
      rw [image_of_not_link hx (by simp)] at himage
      exact .inr himage.symm
  rw [Path.within_concat] at hsound ⊢
  rw [← List.append_assoc] at hx
  exact (h.leadsInto_target ht habove hthere).makeDirectories_join (h.hasWorkplace ht)
    (h.namesFit ht)
    (hnames last (by simp)) hsound (h.fits _ last (by rw [hx]; simp)) hfree

/-- **A directory is copied if everything in it can be copied.**  The limit of paths is reached
before the copy is nested too deep. -/
theorem copyNested_ok (hlisting : listing.Exact) (depth : Nat)
    (ht : OnlyCopies b working source (above ++ [name]) x t)
    (hx : b.node? (x ++ (below ++ [last])) = some .directory)
    (hthere : t.node? (above ++ [name] ++ below) ≠ none)
    (hcopyable : ∀ y, below ++ [last] <+: y → b.node? (x ++ y) ≠ none →
      Copyable b working source target x y)
    (hdepth : pathLimit ≤ depth + (source.within (below ++ [last])).bytes.length) :
    ∃ count u, copyNested listing working depth (source.within (below ++ [last]))
      (target.within (below ++ [last])) t = .ok count u := by
  have hlast := hcopyable _ (List.prefix_refl _) (by rw [hx]; simp)
  induction depth generalizing below last t with
  | zero =>
    have := hlast.sourceSound.fits
    omega
  | succ depth ih =>
    obtain ⟨v, hmake⟩ := h.makeDirectories_ok ht hx hlast.targetSound hthere
    have hadds := h.makeDirectories_addsCopies ht hx
    rw [Action.after_of_ok hmake] at hadds
    rw [copyNested_succ, bind_of_ok hmake]
    refine h.copyEntries_ok hlisting (fun last' w hw hthere' hx' => ?_) hadds.onlyCopies hx
      (h.node?_of_makeDirectories ht hx hmake) hcopyable
    -- the path gets longer where the depth gets less
    have hunder : below ++ [last] <+: below ++ [last] ++ [last'] := List.prefix_append _ _
    refine ih hw hx' hthere' (fun y hy => hcopyable y (hunder.trans hy)) ?_
      (hcopyable _ hunder (by rw [hx']; simp))
    have hlonger := length_lt_join (source.within (below ++ [last]))
      ((h.isDirectorySource hx').names last' (by simp))
    rw [← Path.within_concat] at hlonger
    omega

/-! ## What success means -/

/-- **A file that was copied can be copied**, and there is nothing else below it. -/
theorem copyFile_allCopyable {count : Nat} (ht : OnlyCopies b working source (above ++ [name]) x t)
    (hx : b.node? (x ++ (below ++ [last])) = some n) (hn : n ≠ .directory)
    (hok : copyFile working (source.within (below ++ [last])) (target.within (below ++ [last])) t =
      .ok count u) :
    AllCopyable b working source target x (below ++ [last]) 1 := by
  have hplain := Copied.plain b working source x
  obtain ⟨_, v, hparents, hcopy⟩ := bind_eq_ok hok
  have habove := node?_above hx
  have hfollows := h.follows_within (by rw [hx]; simp)
  have hv := ht.advance (ht.inside.makeParents h.toReady hplain (h.isDirectorySource habove).names
    hfollows (h.allowed habove)) (makeParents_isDistinct ht.distinct working _)
  rw [Action.after_of_ok hparents] at hv
  obtain ⟨⟨here, mode, content, hfind⟩, opened, hopen⟩ := copyOver_eq_ok hcopy
  obtain ⟨place, hlocate, -⟩ := openTarget_eq_ok hopen
  have hcopyable : Copyable b working source target x (below ++ [last]) := by
    refine ⟨sound_of_locate (locate_of_find hfind), sound_of_locate hlocate, fun goal hgoal => ?_⟩
    -- the link leads to where it led before anything was copied, as its way is clear
    have hclear := (h.apart.links _ goal hgoal).1
    have hway := hv.onlyCopies.inside.wayTo hplain hclear
    have hfile := find_file_congr (h.hasWorkplace hv.onlyCopies) ⟨h.proper, h.workingDirectory⟩
      (fun y hy => (h.node?_of_clear hv.onlyCopies (hclear y (hway ▸ hy))).symm) hfind
    rw [isFileAt, hfile]
    rfl
  have honly : ∀ y, below ++ [last] <+: y → b.node? (x ++ y) ≠ none → y = below ++ [last] :=
    fun y => eq_of_not_directory hx hn
  refine ⟨fun y hy hthere => honly y hy hthere ▸ hcopyable, [below ++ [last]], rfl, by simp,
    fun y => ?_⟩
  rw [List.mem_singleton]
  constructor
  · rintro rfl
    exact ⟨List.prefix_refl _, n, hx, hn⟩
  · rintro ⟨hy, n', hn', -⟩
    exact honly y hy (by rw [hn']; simp)

/-- An entry of a directory that was copied can be copied, if this holds of directories. -/
theorem copyEntry_allCopyable {c d : Nat} {isDirectory : Bool} (hlisting : listing.Exact)
    (hinner : ∀ last v copied w, OnlyCopies b working source (above ++ [name]) x v →
      b.node? (x ++ (below ++ [last])) = some .directory →
      copyNested listing working depth (source.within (below ++ [last]))
        (target.within (below ++ [last])) v = .ok copied w →
      AllCopyable b working source target x (below ++ [last]) copied)
    (ht : OnlyCopies b working source (above ++ [name]) x t)
    (hx : b.node? (x ++ (below ++ [last])) = some n) (hn : isDirectory = true ↔ n = .directory)
    (hok : copyEntry listing working depth (source.within below) (target.within below) c
      (last, isDirectory) t = .ok d u) :
    AddsCopies b working source (above ++ [name]) x t u ∧
      ∃ copied, d = c + copied ∧
        AllCopyable b working source target x (below ++ [last]) copied := by
  cases isDirectory with
  | true =>
    obtain rfl := hn.1 rfl
    obtain ⟨copied, v, hcopy, hreturn⟩ := bind_eq_ok hok
    cases hreturn
    rw [← Path.within_concat, ← Path.within_concat] at hcopy
    have hadds := h.copyNested_addsCopies ht hlisting hx depth
    rw [Action.after_of_ok hcopy] at hadds
    exact ⟨hadds, copied, rfl, hinner last t copied u ht hx hcopy⟩
  | false =>
    have hfile : n ≠ .directory := fun heq => Bool.false_ne_true (hn.2 heq)
    obtain ⟨copied, v, hcopy, hreturn⟩ := bind_eq_ok hok
    cases hreturn
    rw [← Path.within_concat, ← Path.within_concat] at hcopy
    have hadds := h.copyFile_addsCopies ht hx hfile
    rw [Action.after_of_ok hcopy] at hadds
    exact ⟨hadds, 1, rfl, h.copyFile_allCopyable ht hx hfile hcopy⟩

/-- Everything in a directory but the directory itself is at or below something that is listed. -/
theorem exists_listed (hlisting : listing.Exact)
    (ht : OnlyCopies b working source (above ++ [name]) x t) {entries : List (Bytes × FileTree)}
    (hget : t.get? (x ++ below) = some (.directory entries)) (hy : below <+: y)
    (hthere : b.node? (x ++ y) ≠ none) :
    y = below ∨
      ∃ entry ∈ listNames listing (x ++ below) entries, below ++ [entry.1] <+: y := by
  obtain ⟨rest, rfl⟩ := hy
  cases rest with
  | nil => exact .inl (List.append_nil below)
  | cons last rest =>
    have hunder : below ++ [last] <+: below ++ last :: rest := ⟨rest, by simp⟩
    have hlast : t.get? (x ++ below ++ [last]) ≠ none := by
      rw [Ne, ← node?_eq_none_iff, List.append_assoc, h.node?_source ht]
      rcases node?_of_part hthere hunder with heq | hdirectory
      · rwa [heq]
      · rw [hdirectory]
        simp
    obtain ⟨child, hchild⟩ := Option.ne_none_iff_exists'.1 hlast
    exact .inr ⟨(last, child.isDirectory),
      (mem_listNames_iff hlisting hget).2 ⟨child, hchild, rfl⟩, hunder⟩

/-- The step of the induction for failure: a directory that was copied could be copied, if this
holds of the directories in it. -/
theorem copyEntries_allCopyable {count : Nat} (hlisting : listing.Exact)
    (hinner : ∀ last v copied w, OnlyCopies b working source (above ++ [name]) x v →
      b.node? (x ++ (below ++ [last])) = some .directory →
      copyNested listing working depth (source.within (below ++ [last]))
        (target.within (below ++ [last])) v = .ok copied w →
      AllCopyable b working source target x (below ++ [last]) copied)
    (ht : OnlyCopies b working source (above ++ [name]) x t)
    (hx : b.node? (x ++ below) = some .directory) (hsound : (target.within below).Sound)
    (hok : copyEntries listing working depth (source.within below) (target.within below) t =
      .ok count u) :
    AllCopyable b working source target x below count := by
  obtain ⟨_, v, hread, -⟩ := bind_eq_ok hok
  obtain ⟨rfl, location, entries, hfind, -⟩ := readDirectory_eq_ok hread
  obtain ⟨rfl, hlisted⟩ := h.listed ht hlisting hx hfind
  have hget := (of_find ((h.hasWorkplace ht).freeStart _) hfind).get
  rw [copyEntries_of_find hfind] at hok
  -- the entries have different names, so that no file is below two of them
  obtain ⟨hcopyable, files, hcount, hnodup, hmem⟩ := foldlM_counts
    (P := OnlyCopies b working source (above ++ [name]) x)
    (R := fun entry => ∀ y, below ++ [entry.1] <+: y → b.node? (x ++ y) ≠ none →
      Copyable b working source target x y)
    (Q := fun entry y => below ++ [entry.1] <+: y ∧ ∃ n, b.node? (x ++ y) = some n ∧ n ≠ .directory)
    ((List.pairwise_map.1 (nodup_listNames hlisting ht.distinct hget)).imp fun hne y hy hy' =>
      not_prefix_of_ne hne hy.1 hy'.1)
    ht (fun entry hentry c w d w' hw hstep => by
      obtain ⟨n, hn, hisDirectory⟩ := hlisted entry.1 entry.2 hentry
      obtain ⟨hadds, copied, rfl, hcopyable, files, rfl, hfiles⟩ :=
        h.copyEntry_allCopyable hlisting hinner hw hn hisDirectory hstep
      exact ⟨hadds.onlyCopies, hcopyable, files, rfl, hfiles⟩) hok
  refine ⟨fun y hy hthere => ?_, files, by rw [hcount, Nat.zero_add], hnodup, fun y => ?_⟩
  · rcases h.exists_listed hlisting ht hget hy hthere with rfl | ⟨entry, hentry, hunder⟩
    · refine ⟨sound_of_locate (locate_of_find hfind), hsound, fun goal hgoal => ?_⟩
      rw [hx] at hgoal
      cases hgoal
    · exact hcopyable entry hentry y hunder hthere
  · rw [hmem]
    constructor
    · rintro ⟨entry, -, hunder, hnode⟩
      exact ⟨(List.prefix_append _ _).trans hunder, hnode⟩
    · rintro ⟨hy, n, hn, hne⟩
      rcases h.exists_listed hlisting ht hget hy (by rw [hn]; simp) with
        rfl | ⟨entry, hentry, hunder⟩
      · rw [hx] at hn
        exact absurd (Option.some.inj hn).symm hne
      · exact ⟨entry, hentry, hunder, n, hn, hne⟩

/-- **A directory that was copied can be copied.** -/
theorem copyNested_allCopyable {count : Nat} (hlisting : listing.Exact) (depth : Nat)
    (ht : OnlyCopies b working source (above ++ [name]) x t)
    (hx : b.node? (x ++ (below ++ [last])) = some .directory)
    (hok : copyNested listing working depth (source.within (below ++ [last]))
      (target.within (below ++ [last])) t = .ok count u) :
    AllCopyable b working source target x (below ++ [last]) count := by
  induction depth generalizing below last t u count with
  | zero => cases hok
  | succ depth ih =>
    rw [copyNested_succ] at hok
    obtain ⟨_, v, hmake, hentries⟩ := bind_eq_ok hok
    have hadds := h.makeDirectories_addsCopies ht hx
    rw [Action.after_of_ok hmake] at hadds
    refine h.copyEntries_allCopyable hlisting (fun last' w copied w' hw hx' hok' => ih hw hx' hok')
      hadds.onlyCopies hx ?_ hentries
    exact sound_of_makeDirectories ((h.hasWorkplace ht).freeStart _)
      (h.follows_within (by rw [hx]; simp)).isEmpty_eq_false hmake

/-! ## The whole source -/

theorem node?_nil : b.node? (x ++ []) = some .directory := by
  rw [List.append_nil, h.leadsInto.directory]

section Whole

variable (hlisting : listing.Exact) (hsound : target.Sound)
variable (ht : OnlyCopies b working source (above ++ [name]) x t)
include hlisting hsound ht

theorem copyEntries_source_allCopyable {count : Nat}
    (hok : copyEntries listing working depth source target t = .ok count u) :
    AllCopyable b working source target x [] count :=
  h.copyEntries_allCopyable hlisting
    (fun _ _ _ _ hv hx hok' =>
      h.copyNested_allCopyable hlisting depth hv hx hok') ht h.node?_nil hsound
    hok

/-- **What is in the source is copied if and only if all of it can be copied.** -/
theorem copyEntries_source_iff (hdepth : pathLimit ≤ depth + 1) :
    (∃ count u, copyEntries listing working depth source target t = .ok count u) ↔
      ∀ below, b.node? (x ++ below) ≠ none → Copyable b working source target x below := by
  constructor
  · rintro ⟨count, u, hok⟩ below
    exact (h.copyEntries_source_allCopyable hlisting hsound ht hok).copyable below List.nil_prefix
  · intro hcopyable
    have hthere : t.node? (above ++ [name] ++ []) ≠ none := by
      rw [List.append_nil]
      exact ht.there
    refine h.copyEntries_ok hlisting (fun last v hv hthere hx => ?_) ht h.node?_nil hthere
      fun below _ => hcopyable below
    have hlonger := length_lt_join source ((h.isDirectorySource hx).names last (by simp))
    refine h.copyNested_ok hlisting depth hv hx hthere (fun below _ => hcopyable below) ?_
    rw [Path.within_concat, Path.within_nil]
    omega

end Whole

end TargetBeside

end Copy

end FileTree
end KernelRegistry
