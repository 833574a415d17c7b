import KernelRegistry.Proofs.FileTree.Copy

/-!
# The image of a directory

A copy has directories where its source has directories.  Where its source has a file or a link to
a file, it has a file with the same content and the same permissions.

* `FileTree.image` — what a copy has where its source has something.
* `FileTree.Apart` — source and destination have nothing to do with each other.
* `Apart.copyNested` — copying puts nothing else than the image at the destination, also where it
  fails.
* `Apart.copyNested_arrived` — a copy that succeeds has something wherever its source has.
-/

set_option autoImplicit false
namespace KernelRegistry
namespace FileTree

open Text (Bytes)

/-- The specification of a copy, place by place.  A link is followed when it is copied, and one to
anything else than a file cannot be. -/
def image (t : FileTree) (working : Location) (source : Path) (x below : Location) : Option Node :=
  match t.node? (x ++ below) with
  | some (.link _) =>
    match (t.wayTo working (source.within below)).goal.bind t.node? with
    | some (.file mode content) => some (.file mode content)
    | _ => none
  | found => found

/-- The possible remains of something that is copied: of a file, the end may be missing. -/
inductive Node.Leaves [Disk] : Node → Node → Prop
  | whole (n : Node) : Node.Leaves n n
  | part {mode : Nat} {content left : Bytes} (h : Disk.Leaves content left) :
      Node.Leaves (.file mode content) (.file mode left)

/-- On a sound disk, everything that is copied is whole. -/
theorem Node.leaves_sound {full n : Node} : @Node.Leaves Disk.sound full n ↔ n = full := by
  constructor
  · rintro (_ | h)
    · rfl
    · rw [Disk.leaves_sound.1 h]
  · rintro rfl
    exact .whole n

/-- A node that copying may put at a place below the destination, also if the disk stops it. -/
def Copied [Disk] (t : FileTree) (working : Location) (source : Path) (x below : Location)
    (n : Node) : Prop :=
  (below = [] ∧ n = .directory) ∨
    (below ≠ [] ∧ ∃ full, t.image working source x below = some full ∧ full.Leaves n)

/-- The source is neither at nor above nor below the destination, and neither its path nor a link
in it comes to the destination. -/
structure Apart (b : FileTree) (working : Location) (source : Path) (destination x : Location) :
    Prop where
  goal : (b.wayTo working source).goal = some x
  notAbove : ¬ x <+: destination
  notBelow : ¬ destination <+: x
  clear : ∀ y ∈ (b.wayTo working source).stops, Clear b destination y
  links : ∀ below target, b.node? (x ++ below) = some (.link target) →
    (∀ y ∈ (b.wayTo working (source.within below)).stops, Clear b destination y) ∧
      ∀ z, (b.wayTo working (source.within below)).goal = some z → ¬ destination <+: z
  origin : ∀ n, b.node? (start working source) = some n → n = .directory
  outside : NotBelow destination (start working source)

section Image

variable {b t u : FileTree} {working above x : Location} {p source s : Path} {name : Bytes}
variable {destination below : Location}

theorem image_of_not_link {n : Node} (h : t.node? (x ++ below) = some n)
    (hn : ∀ target, n ≠ .link target) : t.image working source x below = some n := by
  rw [image, h]
  cases n with
  | link target => exact absurd rfl (hn target)
  | file | directory => rfl

theorem image_of_link {target : Bytes} (h : t.node? (x ++ below) = some (.link target))
    {z : Location} (hgoal : (t.wayTo working (source.within below)).goal = some z)
    {mode : Nat} {content : Bytes} (hz : t.node? z = some (.file mode content)) :
    t.image working source x below = some (.file mode content) := by
  rw [image, h, hgoal]
  simp only [Option.bind_some, hz]

theorem image_ne_link {target : Bytes} : t.image working source x below ≠ some (.link target) := by
  rw [image]
  split
  · split <;> simp
  · next hlink => exact hlink target

theorem Copied.plain [Disk] (t : FileTree) (working : Location) (source : Path) (x : Location) :
    Plain (Copied t working source x) := by
  refine ⟨fun below target h => ?_, fun n h => ?_⟩
  · rcases h with ⟨-, h⟩ | ⟨-, full, h, hleaves⟩
    · cases h
    · cases hleaves
      exact image_ne_link h
  · rcases h with ⟨-, h⟩ | ⟨h, -⟩
    · exact h
    · exact absurd rfl h

/-- On a sound disk, a copy has the image of the source in it and nothing else. -/
theorem copied_sound {n : Node} : @Copied Disk.sound t working source x below n ↔
    (below = [] ∧ n = .directory) ∨
      (below ≠ [] ∧ t.image working source x below = some n) := by
  refine or_congr Iff.rfl (and_congr Iff.rfl ⟨?_, fun h => ⟨n, h, .whole n⟩⟩)
  rintro ⟨full, himage, hleaves⟩
  rw [Node.leaves_sound.1 hleaves, himage]

/-- Above something that is there is a directory. -/
theorem node?_of_part {part : Location} (h : t.node? (x ++ below) ≠ none) (hpart : part <+: below) :
    part = below ∨ t.node? (x ++ part) = some .directory := by
  by_cases heq : part = below
  · exact .inl heq
  · refine .inr (node?_of_above ((List.prefix_append_right_inj x).2 hpart) ?_ h)
    exact fun h => heq (List.append_cancel_left h)

namespace Apart

theorem not_below (h : Apart b working source destination x) (below : Location) :
    ¬ destination <+: x ++ below := by
  intro hunder
  rcases List.prefix_or_prefix_of_prefix hunder (List.prefix_append x below) with h' | h'
  · exact h.notBelow h'
  · exact h.notAbove h'

variable {allowed : Location → Node → Prop}

theorem node?_eq (h : Apart b working source destination x) (ht : Inside b destination allowed t)
    (below : Location) : t.node? (x ++ below) = b.node? (x ++ below) :=
  ht.elsewhere _ (h.not_below below)

/-- Below the source, a path that comes to no link leads to where its names say. -/
theorem goal_within (h : Apart b working source destination x)
    (hplain : Plain allowed) (ht : Inside b destination allowed t)
    (hbelow : ∀ n ∈ below, Path.IsName n)
    (hnoLink : ∀ part target, part <+: below → b.node? (x ++ part) ≠ some (.link target))
    (hx : b.node? x = some .directory ∨ below = []) {z : Location}
    (hz : (t.wayTo working (source.within below)).goal = some z) : z = x ++ below := by
  have hgoal : (t.wayTo working source).goal = some x := by rw [ht.wayTo hplain h.clear, h.goal]
  by_cases hnil : below = []
  · subst hnil
    rw [Path.within_nil, hgoal] at hz
    rw [List.append_nil, Option.some.inj hz]
  have hdirectory : t.nodeAt x = .directory := by
    have hsame := h.node?_eq ht []
    rw [List.append_nil] at hsame
    exact nodeAt_of_node? (hsame.trans (hx.resolve_right hnil))
  obtain ⟨left, hway⟩ := wayTo_of_follows (Path.Follows.within source hbelow) hgoal hdirectory
  have hview : ∀ part target, part <+: below → t.nodeAt (x ++ part) ≠ .link target := by
    intro part target hpart
    cases hnode : t.node? (x ++ part) with
    | none => rw [nodeAt_of_none hnode]; simp
    | some n =>
      rw [nodeAt_of_node? hnode]
      rintro rfl
      exact hnoLink part target hpart ((h.node?_eq ht part).symm.trans hnode)
  rw [hway] at hz
  exact (way_of_no_link left (fun n hn => (hbelow n hn).notDots) hview).1 z hz

/-! ## The sources -/

/-- The path to a directory in the source. -/
structure IsDirectorySource (b : FileTree) (source : Path) (x : Location) (s : Path)
    (below : Location) : Prop where
  path : s = source.within below
  names : ∀ n ∈ below, Path.IsName n
  node : below = [] ∨ b.node? (x ++ below) = some .directory

/-- The path to something else in the source. -/
structure IsFileSource (b : FileTree) (source : Path) (x : Location) (s : Path)
    (below : Location) : Prop where
  path : s = source.within below
  names : ∀ n ∈ below, Path.IsName n
  nonempty : below ≠ []
  node : ∃ n, b.node? (x ++ below) = some n ∧ n ≠ .directory

/-- The source itself counts as a directory: copying it fails if it is none. -/
theorem IsDirectorySource.root (b : FileTree) (source : Path) (x : Location) :
    IsDirectorySource b source x source [] :=
  ⟨rfl, by simp, .inl rfl⟩

theorem IsDirectorySource.noLink (h : IsDirectorySource b source x s below) (hbelow : below ≠ [])
    {part : Location} {target : Bytes} (hpart : part <+: below) :
    b.node? (x ++ part) ≠ some (.link target) := by
  have hdirectory := h.node.resolve_left hbelow
  rcases node?_of_part (by rw [hdirectory]; simp) hpart with rfl | hnode
  · rw [hdirectory]
    simp
  · rw [hnode]
    simp

/-- A path to a directory in the source leads to where its names say. -/
theorem goal_of_directory (h : Apart b working source destination x)
    (hplain : Plain allowed) (ht : Inside b destination allowed t)
    (hs : IsDirectorySource b source x s below)
    {z : Location} (hz : (t.wayTo working s).goal = some z) : z = x ++ below := by
  obtain rfl := hs.path
  by_cases hbelow : below = []
  · subst hbelow
    rw [Path.within_nil, ht.wayTo hplain h.clear, h.goal] at hz
    rw [List.append_nil, Option.some.inj hz]
  · refine h.goal_within hplain ht hs.names (fun part target => hs.noLink hbelow) (.inl ?_) hz
    exact node?_of_node?_append hbelow (by rw [hs.node.resolve_left hbelow]; simp)

/-- **What is copied of a file or a link is its image**, and is not read from the destination. -/
theorem content_of_file (h : Apart b working source destination x)
    (hplain : Plain allowed) (ht : Inside b destination allowed t)
    (hfreeStart : FreeStart t working s)
    (hs : IsFileSource b source x s below) {here : Location} {mode : Nat} {content : Bytes}
    (hfind : find t working true s = .ok (here, .file mode content)) :
    b.image working source x below = some (.file mode content) ∧ ¬ destination <+: here := by
  obtain ⟨rfl, hnames, hbelow, n, hn, hfile⟩ := hs
  have hfound := of_find hfreeStart hfind
  have hhere := node?_eq_some hfound.get
  cases n with
  | directory => exact absurd rfl hfile
  | link target =>
    have hstops := (h.links below target hn).1
    have hway := ht.wayTo hplain hstops
    have hnot := (h.links below target hn).2 here (by rw [← hway, hfound.goal])
    refine ⟨image_of_link hn ?_ ((ht.elsewhere here hnot).symm.trans hhere), hnot⟩
    rw [← hway, hfound.goal]
  | file mode' content' =>
    have hnoLink : ∀ part target, part <+: below → b.node? (x ++ part) ≠ some (.link target) := by
      intro part target hpart
      rcases node?_of_part (by rw [hn]; simp) hpart with rfl | hnode
      · rw [hn]
        simp
      · rw [hnode]
        simp
    obtain rfl := h.goal_within hplain ht hnames hnoLink
      (.inl (node?_of_node?_append hbelow (by rw [hn]; simp))) hfound.goal
    have hsame := (h.node?_eq ht below).symm.trans hhere
    exact ⟨image_of_not_link hsame (by simp), h.not_below below⟩

/-- A name in the source is copied as the file that is found there. -/
theorem content_of_find (h : Apart b working source destination x)
    (hplain : Plain allowed) (ht : Inside b destination allowed t)
    (hx : b.node? x = some .directory)
    (hname : Path.IsName name) (hfreeStart : FreeStart t working (source.within [name]))
    {here : Location} {mode : Nat} {content : Bytes}
    (hfind : find t working true (source.within [name]) = .ok (here, .file mode content)) :
    b.image working source x [name] = some (.file mode content) := by
  have hnames : ∀ n ∈ [name], Path.IsName n := by simpa using hname
  have hfound := of_find hfreeStart hfind
  have hhere := node?_eq_some hfound.get
  by_cases hlink : ∃ target, b.node? (x ++ [name]) = some (.link target)
  · obtain ⟨target, hlink⟩ := hlink
    exact (h.content_of_file hplain ht hfreeStart
      ⟨rfl, hnames, by simp, _, hlink, by simp⟩ hfind).1
  · have hnoLink : ∀ part target, part <+: [name] → b.node? (x ++ part) ≠ some (.link target) := by
      intro part target hpart
      rcases List.prefix_cons_iff.1 hpart with rfl | ⟨more, rfl, hmore⟩
      · rw [List.append_nil, hx]
        simp
      · rw [List.prefix_nil.1 hmore]
        exact fun h => hlink ⟨target, h⟩
    obtain rfl := h.goal_within hplain ht hnames hnoLink (.inl hx) hfound.goal
    exact image_of_not_link ((h.node?_eq ht [name]).symm.trans hhere) (by simp)

/-- Everything in a directory of the source is another directory or something to copy. -/
theorem inner_of_directory (h : Apart b working source destination x)
    (hplain : Plain allowed) (ht : Inside b destination allowed t)
    (hfreeStart : FreeStart t working s)
    (hs : IsDirectorySource b source x s below) {location : Location}
    {entries : List (Bytes × FileTree)}
    (hfind : find t working true s = .ok (location, .directory entries)) :
    location = x ++ below ∧ b.node? (x ++ below) = some .directory ∧
      ∀ name child, Path.IsName name → t.get? (location ++ [name]) = some child →
        if child.isDirectory then IsDirectorySource b source x (s.join ⟨name⟩) (below ++ [name])
        else IsFileSource b source x (s.join ⟨name⟩) (below ++ [name]) := by
  have hfound := of_find hfreeStart hfind
  obtain rfl := h.goal_of_directory hplain ht hs hfound.goal
  refine ⟨rfl, (h.node?_eq ht below).symm.trans (node?_eq_some hfound.get),
    fun name child hname hchild => ?_⟩
  have hnode : b.node? (x ++ (below ++ [name])) = some child.node := by
    rw [← h.node?_eq ht, ← List.append_assoc, node?_eq_some hchild]
  have hpath : s.join ⟨name⟩ = source.within (below ++ [name]) := by
    rw [hs.path, Path.within_concat]
  have hnames : ∀ n ∈ below ++ [name], Path.IsName n := by
    intro n hn
    rcases List.mem_append.1 hn with hn | hn
    · exact hs.names n hn
    · exact List.mem_singleton.1 hn ▸ hname
  split
  · next hdirectory =>
    exact ⟨hpath, hnames, .inr (by rw [hnode, isDirectory_iff.1 hdirectory])⟩
  · next hdirectory =>
    exact ⟨hpath, hnames, by simp, child.node, hnode, fun hn => hdirectory (isDirectory_iff.2 hn)⟩

theorem feeds [Disk] (h : Apart b working source destination x)
    (hfreeStart : ∀ u s below, Inside b destination (Copied b working source x) u →
      (∀ n ∈ below, Path.IsName n) → s = source.within below → FreeStart u working s) :
    Feeds b working destination (Copied b working source x) (IsDirectorySource b source x)
      (IsFileSource b source x) := by
  have hplain := Copied.plain b working source x
  refine ⟨fun s below hs part hpart => ?_, fun s below t location entries hs ht hfind => ?_,
    fun s below t here mode content left hs ht hfind hleft => ?_⟩
  · by_cases hnil : part = []
    · exact .inl ⟨hnil, rfl⟩
    · have hbelow : below ≠ [] := by
        rintro rfl
        exact hnil (List.prefix_nil.1 hpart)
      have hdirectory := hs.node.resolve_left hbelow
      refine .inr ⟨hnil, .directory, image_of_not_link ?_ (by simp), .whole _⟩
      rcases node?_of_part (by rw [hdirectory]; simp) hpart with rfl | hnode
      · exact hdirectory
      · exact hnode
  · exact (h.inner_of_directory hplain ht (hfreeStart t s below ht hs.names hs.path) hs hfind).2.2
  · obtain ⟨himage, hnot⟩ :=
      h.content_of_file hplain ht (hfreeStart t s below ht hs.names hs.path) hs hfind
    rw [if_neg] at hleft
    · exact .inr ⟨hs.nonempty, _, himage, .part hleft⟩
    · rintro rfl
      exact hnot (List.prefix_append _ _)

end Apart

/-! ## Copying the source -/

section Copy

variable {listing : Listing} {target : Path}

section Disk

variable [Disk]

theorem Apart.freeStart (hb : Ready b working p above name)
    (h : Apart b working source (above ++ [name]) x)
    (ht : Inside b (above ++ [name]) (Copied b working source x) t)
    (hbelow : ∀ n ∈ below, Path.IsName n) : FreeStart t working (source.within below) :=
  (ht.freeStart hb (Copied.plain b working source x) h.origin h.outside).follows
    (Path.Follows.within source hbelow)

/-- The facts about its sources that a copy needs, in a form that copying an entry keeps. -/
theorem Apart.feedsCopied (hb : Ready b working p above name)
    (h : Apart b working source (above ++ [name]) x) :
    Feeds b working (above ++ [name]) (Copied b working source x) (IsDirectorySource b source x)
      (IsFileSource b source x) :=
  h.feeds fun _ _ _ hu hbelow hpath => hpath ▸ Apart.freeStart hb h hu hbelow

/-- **Copying puts nothing else than the image at the destination**, also where it fails. -/
theorem Apart.copyNested (hb : Ready b working p above name)
    (h : Apart b working source (above ++ [name]) x) (hlisting : listing.Exact)
    (ht : Inside b (above ++ [name]) (Copied b working source x) t)
    (htarget : Path.Follows p (name :: below) target)
    (hs : IsDirectorySource b source x s below) (depth : Nat) :
    Advance b (above ++ [name]) (Copied b working source x) t
      ((FileTree.copyNested listing working depth s target).after t) :=
  ht.copyNested hb (Copied.plain b working source x) (h.feedsCopied hb) hlisting depth hs.names
    htarget hs fun _ hu => hs.path ▸ Apart.freeStart hb h hu hs.names

theorem Apart.copyEntries (hb : Ready b working p above name)
    (h : Apart b working source (above ++ [name]) x) (hlisting : listing.Exact)
    (ht : Inside b (above ++ [name]) (Copied b working source x) t)
    (htarget : Path.Follows p (name :: below) target)
    (hs : IsDirectorySource b source x s below) (depth : Nat) :
    Advance b (above ++ [name]) (Copied b working source x) t
      ((FileTree.copyEntries listing working depth s target).after t) :=
  have hplain := Copied.plain b working source x
  ht.copyEntries hb hplain (h.feedsCopied hb) hlisting
    (fun hu hbelow => hu.copyNested hb hplain (h.feedsCopied hb) hlisting depth hbelow) hs.names
    htarget hs fun _ hu => hs.path ▸ Apart.freeStart hb h hu hs.names

end Disk

/-! ### What a copy that succeeds has

A copy that succeeds does what it does on a sound disk, so it is enough to look at that one. -/

/-- An entry of a directory is in the copy, with all that is below it.  That nothing else is there
is said by `Copied`. -/
def Arrived (b u : FileTree) (x destination below : Location) (name : Bytes) : Prop :=
  ∀ rest, b.node? (x ++ below ++ name :: rest) ≠ none →
    u.node? (destination ++ below ++ name :: rest) ≠ none

theorem Arrived.kept {v : FileTree} (h : Arrived b u x destination below name)
    (hkept : ∀ y, u.node? y ≠ none → v.node? y ≠ none) : Arrived b v x destination below name :=
  fun rest hrest => hkept _ (h rest hrest)

theorem append_cons (z below rest : Location) (last : Bytes) :
    z ++ below ++ last :: rest = z ++ (below ++ [last]) ++ rest := by
  simp

/-- A file that was copied has arrived. -/
theorem Apart.copyFile_arrived (hb : Ready b working p above name)
    (h : Apart b working source (above ++ [name]) x)
    (ht : Inside b (above ++ [name]) (Copied b working source x) t)
    (htarget : Path.Follows p (name :: below) target)
    (hs : IsDirectorySource b source x s below) {last : Bytes} (hlast : Path.IsName last)
    (hsource : IsFileSource b source x (s.join ⟨last⟩) (below ++ [last])) {count : Nat}
    (hok : FileTree.copyFile working (s.join ⟨last⟩) (target.join ⟨last⟩) t = .ok count u) :
    Advance b (above ++ [name]) (Copied b working source x) t u ∧
      Arrived b u x (above ++ [name]) below last := by
  have hplain := Copied.plain b working source x
  have hfeeds := h.feedsCopied hb
  have htarget' := htarget.join hlast
  have hfreeStart : ∀ z, Inside b (above ++ [name]) (Copied b working source x) z →
      FreeStart z working (s.join ⟨last⟩) := fun z hz =>
    hsource.path ▸ Apart.freeStart hb h hz hsource.names
  have hadvance := ht.copyFile hb hplain hsource.names htarget' (hfeeds.made _ _ hs) fun z hz =>
    ⟨hfreeStart z hz,
      fun here mode content left => hfeeds.content _ _ z here mode content left hsource hz⟩
  rw [Action.after_of_ok hok] at hadvance
  refine ⟨hadvance, fun rest hrest => ?_⟩
  rw [append_cons] at hrest ⊢
  -- something that is no directory has nothing below it
  obtain ⟨n, hn, hne⟩ := hsource.node
  cases rest with
  | cons first rest => exact absurd (node?_append_eq_none (by rw [hn]; simpa) (by simp)) hrest
  | nil =>
    rw [List.append_nil]
    exact ht.copyFile_present hb hplain hsource.names htarget' (hfeeds.made _ _ hs) hfreeStart hok

/-- If what is in a directory was copied, everything in it has arrived, provided that this holds
of the directories in it. -/
theorem Apart.copyEntries_arrived (hb : Ready b working p above name)
    (h : Apart b working source (above ++ [name]) x) (hlisting : listing.Exact) {depth : Nat}
    (hinner : ∀ {s target : Path} {below : Location} {t u : FileTree} {count : Nat},
      Inside b (above ++ [name]) (Copied b working source x) t →
      Path.Follows p (name :: below) target → IsDirectorySource b source x s below →
      FileTree.copyNested listing working depth s target t = .ok count u →
      ∀ rest, b.node? (x ++ below ++ rest) ≠ none →
        u.node? (above ++ [name] ++ below ++ rest) ≠ none)
    (ht : Inside b (above ++ [name]) (Copied b working source x) t)
    (htarget : Path.Follows p (name :: below) target)
    (hs : IsDirectorySource b source x s below) {count : Nat}
    (hok : FileTree.copyEntries listing working depth s target t = .ok count u) :
    b.node? (x ++ below) = some .directory ∧
      ∀ last, Arrived b u x (above ++ [name]) below last := by
  have hplain := Copied.plain b working source x
  obtain ⟨listed, v, hread, hok⟩ := bind_eq_ok hok
  obtain ⟨rfl, location, entries, hfind, rfl⟩ := readDirectory_eq_ok hread
  have hfreeStart : FreeStart v working s := hs.path ▸ Apart.freeStart hb h ht hs.names
  obtain ⟨rfl, hdirectory, hsources⟩ := h.inner_of_directory hplain ht hfreeStart hs hfind
  have hget := (of_find hfreeStart hfind).get
  obtain ⟨-, harrived⟩ : Advance b (above ++ [name]) (Copied b working source x) v u ∧
      ∀ entry ∈ listNames listing _ _, Arrived b u x (above ++ [name]) below entry.1 := by
    refine foldlM_ok (R := Advance b (above ++ [name]) (Copied b working source x))
      (Q := fun (entry : Bytes × Bool) w => Arrived b w x (above ++ [name]) below entry.1)
      Advance.trans ht.advance (fun entry hentry c t d w hv hstep => ?_)
      (fun entry t w hvw hv => hv.kept hvw.kept) hok
    obtain ⟨last, isDirectory⟩ := entry
    obtain ⟨child, hchild, hisDirectory⟩ :=
      (mem_listNames_iff hlisting hget).1 hentry
    have hlast : Path.IsName last := (ht.proper hb).names _ last
      (by rw [node?_eq_some hchild]; simp)
    have hsource := hsources last child hlast hchild
    rw [hisDirectory] at hsource
    cases isDirectory with
    | true =>
      obtain ⟨copied, w', hcopy, hreturn⟩ := bind_eq_ok hstep
      cases hreturn
      have htarget' := htarget.join hlast
      have hadvance := Apart.copyNested hb h hlisting hv.inside htarget' hsource depth
      rw [Action.after_of_ok hcopy] at hadvance
      refine ⟨hadvance, fun rest hrest => ?_⟩
      rw [append_cons] at hrest ⊢
      exact hinner hv.inside htarget' hsource hcopy rest hrest
    | false =>
      obtain ⟨copied, w', hcopy, hreturn⟩ := bind_eq_ok hstep
      cases hreturn
      exact Apart.copyFile_arrived hb h hv.inside htarget hs hlast hsource hcopy
  refine ⟨hdirectory, fun last rest hrest => ?_⟩
  have hlast : b.node? (x ++ (below ++ [last])) ≠ none := by
    rw [append_cons] at hrest
    by_cases hnil : rest = []
    · rwa [hnil, List.append_nil] at hrest
    · rw [node?_of_node?_append hnil hrest]
      simp
  rw [← h.node?_eq ht, ← List.append_assoc] at hlast
  obtain ⟨child, hchild⟩ := Option.ne_none_iff_exists'.1 (mt node?_eq_none_iff.2 hlast)
  exact harrived (last, child.isDirectory)
    ((mem_listNames_iff hlisting hget).2 ⟨child, hchild, rfl⟩) rest hrest

/-- **A copy that succeeds has something wherever its source has.** -/
theorem Apart.copyNested_arrived (hb : Ready b working p above name)
    (h : Apart b working source (above ++ [name]) x) (hlisting : listing.Exact)
    (ht : Inside b (above ++ [name]) (Copied b working source x) t)
    (htarget : Path.Follows p (name :: below) target)
    (hs : IsDirectorySource b source x s below) (depth : Nat) {count : Nat}
    (hok : FileTree.copyNested listing working depth s target t = .ok count u)
    (rest : Location) (hrest : b.node? (x ++ below ++ rest) ≠ none) :
    u.node? (above ++ [name] ++ below ++ rest) ≠ none := by
  induction depth generalizing s target below t u count rest with
  | zero => cases hok
  | succ depth ih =>
    rw [copyNested_succ] at hok
    obtain ⟨_, v, hmake, hok⟩ := bind_eq_ok hok
    have hplain := Copied.plain b working source x
    have hmade := ht.makeDirectories hb hplain hs.names htarget ((h.feedsCopied hb).made _ _ hs)
    rw [Action.after_of_ok hmake] at hmade
    cases rest with
    | cons last rest =>
      refine (Apart.copyEntries_arrived hb h hlisting ?_ hmade.inside htarget hs hok).2 last rest
        hrest
      exact fun ht' htarget' hs' hok' rest' hrest' => ih ht' htarget' hs' hok' rest' hrest'
    | nil =>
      have hreached := makeDirectories_reached (ht.freeStart_of_follows hb hplain htarget)
        htarget.isEmpty_eq_false hmake
      obtain ⟨y, hy, hthere⟩ := hreached.goal
      obtain rfl := (hmade.inside.way_of_follows hb hplain hs.names htarget).1 y hy
      have hkept := Apart.copyEntries hb h hlisting hmade.inside htarget hs depth
      rw [Action.after_of_ok hok] at hkept
      rw [List.append_nil]
      exact hkept.kept _ (by rw [hthere]; simp)

/-- **What is in a directory that was copied is the image of its source**, and everything in the
source has an image. -/
theorem Apart.copyEntries_image (hb : Ready b working p above name)
    (h : Apart b working source (above ++ [name]) x) (hlisting : listing.Exact)
    (ht : Inside b (above ++ [name]) (Copied b working source x) t)
    (hthere : t.node? (above ++ [name]) ≠ none) (htarget : Path.Follows p [name] target)
    (depth : Nat) {count : Nat}
    (hok : FileTree.copyEntries listing working depth source target t = .ok count u) :
    b.node? x = some .directory ∧ ∀ below,
      u.node? (above ++ [name] ++ below) = b.image working source x below ∧
        (b.node? (x ++ below) ≠ none → b.image working source x below ≠ none) := by
  have hs := IsDirectorySource.root b source x
  have hadvance := Apart.copyEntries hb h hlisting ht htarget hs depth
  rw [Action.after_of_ok hok] at hadvance
  obtain ⟨hdirectory, harrived⟩ := Apart.copyEntries_arrived hb h hlisting
    (fun ht' htarget' hs' hok' =>
      Apart.copyNested_arrived hb h hlisting ht' htarget' hs' depth hok')
    ht htarget hs hok
  have himage : b.image working source x [] = some .directory :=
    image_of_not_link hdirectory (by simp)
  rw [List.append_nil] at hdirectory
  refine ⟨hdirectory, fun below => ?_⟩
  cases below with
  | nil =>
    have hnode := (Copied.plain b working source x).root
    obtain ⟨n, hn⟩ := Option.ne_none_iff_exists'.1 (hadvance.kept _ hthere)
    rw [← List.append_nil (above ++ [name])] at hn
    rw [hn, himage, hnode n (hadvance.inside.node [] n hn)]
    simp
  | cons last rest =>
    have harrived' := harrived last rest
    rw [List.append_nil, List.append_nil] at harrived'
    cases hn : u.node? (above ++ [name] ++ last :: rest) with
    | some n =>
      rcases hadvance.inside.node _ n hn with ⟨hnil, -⟩ | ⟨-, full, hcopied, hleaves⟩
      · cases hnil
      · rw [hcopied, Node.leaves_sound.1 hleaves]
        simp
    | none =>
      have hnone : b.node? (x ++ last :: rest) = none := by
        by_cases hsource : b.node? (x ++ last :: rest) = none
        · exact hsource
        · exact absurd hn (harrived' hsource)
      rw [image, hnone]
      simp

end Copy

end Image

end FileTree
end KernelRegistry
