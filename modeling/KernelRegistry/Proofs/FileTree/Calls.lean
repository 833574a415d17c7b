import Mathlib.Data.List.Dedup
import KernelRegistry.Proofs.FileTree.Computed
import KernelRegistry.Proofs.FileTree.Filled
import KernelRegistry.Proofs.FileTree.Traced

/-!
# Copying a directory ends

Copying works on a tree that it changes at the same time.  It ends as long as nothing that it makes
is below its source: then it calls itself at most once for each directory that was there.  A target
in the source breaks this, and nothing but the limit of paths stops the copy.

* `FileTree.sourceDirectories` — the directories in a source.
* `FileTree.Outward` — nothing that the copy may have to make is below the source.
* `FileTree.Copying` — what holds of the tree at every moment of a copy.
* `FileTree.Progress` — what a part of a copy does, and the calls that it makes.
* `copyTraced_progress` — **a call makes progress, and calls for the directories below it only**.
* `copyTree_ends` — **a copy ends**.
* `copyTree_into_itself` — one into its source does not, until its paths are too long.
-/

set_option autoImplicit false
namespace KernelRegistry
namespace FileTree

open Text (Bytes)

/-! ## The directories in a source -/

/-- The places where there is a directory. -/
def directories (t : FileTree) : List Location :=
  (t.locations.filter fun x => t.node? x = some .directory).dedup

/-- The directories at and below the end of a path, seen from there. -/
def sourceDirectories (t : FileTree) (working : Location) (source : Path) : List Location :=
  (((t.wayTo working source).goal.bind t.get?).map directories).getD []

/-- Nothing that is missing where a source and the directories in it are copied to is below the
source.  Otherwise a directory that is made for the copy is found again in the source, and is to be
copied itself. -/
def Outward (t : FileTree) (working : Location) (source target : Path) : Prop :=
  ∀ x, (t.wayTo working source).goal = some x →
    ∀ below, below = [] ∨ below ∈ t.sourceDirectories working source →
      ∀ y ∈ (t.wayTo working (target.within below)).stops, t.node? y = none → x <+: y → y = x

section Directories

variable {t : FileTree} {working x below : Location} {source : Path}

theorem mem_directories : x ∈ t.directories ↔ t.node? x = some .directory := by
  rw [directories, List.mem_dedup, List.mem_filter, decide_eq_true_eq, and_iff_right_iff_imp]
  exact fun hx => mem_locations (by rw [hx]; simp)

theorem mem_sourceDirectories : below ∈ t.sourceDirectories working source ↔
    ∃ x, (t.wayTo working source).goal = some x ∧ t.node? (x ++ below) = some .directory := by
  rw [sourceDirectories]
  cases hgoal : (t.wayTo working source).goal with
  | none => simp
  | some x =>
    rw [Option.bind_some]
    cases hget : t.get? x with
    | none => simp [node?, get?_append, hget]
    | some s => simp [node?_append hget, mem_directories]

end Directories

/-! ## What holds during a copy -/

/-- The place of a directory that copying makes: one that the target is missing, or the copy of a
directory in the source. -/
def Placed (t : FileTree) (working : Location) (source target : Path) (y : Location) : Prop :=
  MadeFor t working target y ∨
    ∃ below ∈ t.sourceDirectories working source, EndsAt t working (target.within below) y

/-- The invariant of a copy: it holds of the tree at every moment.  Every new directory is at a
place that the tree before the copy accounts for, and if the copy goes outward, none of these places
is below the source. -/
structure Copying (t : FileTree) (working : Location) (source target : Path) (u : FileTree) :
    Prop where
  hasWorkplace : HasWorkplace u working
  distinct : u.isDistinct = true
  filled : Filled t u
  new : ∀ y, t.node? y = none → u.node? y = some .directory → Placed t working source target y

/-- The source and target of the call for a directory in the source. -/
def call (source target : Path) (below : Location) : Path × Path :=
  (source.within below, target.within below)

/-- A part of a copy keeps the invariant, and it calls once for some of the directories that it may
call for.  Parts that may call for different directories can be put in a row, and still nothing is
called for twice. -/
structure Progress (t : FileTree) (working : Location) (source target : Path)
    (may : Location → Prop) (s s' : FileTree × Calls) : Prop where
  copying : Copying t working source target s'.1
  filled : Filled s.1 s'.1
  calls : ∃ visited : List Location, s'.2 = s.2 ++ visited.map (call source target) ∧
    visited.Nodup ∧ ∀ below ∈ visited, may below ∧ below ∈ t.sourceDirectories working source

section Copy

variable {t u : FileTree} {working x y below location : Location} {source target : Path}
variable {listing : Listing} {name : Bytes} {s s' s'' : FileTree × Calls}
variable {may may' : Location → Prop} {entries : List (Bytes × FileTree)} {depth : Nat}

namespace Progress

theorem refl (h : Copying t working source target s.1) : Progress t working source target may s s :=
  ⟨h, .refl _, [], by simp, List.nodup_nil, by simp⟩

/-- A step that makes no call. -/
theorem quiet (h : Copying t working source target u) (hu : Filled s.1 u) :
    Progress t working source target may s (u, s.2) :=
  ⟨h, hu, [], by simp, List.nodup_nil, by simp⟩

theorem mono (h : Progress t working source target may s s') (hmay : ∀ v, may v → may' v) :
    Progress t working source target may' s s' := by
  obtain ⟨visited, hcalls, hnodup, hvisited⟩ := h.calls
  exact ⟨h.copying, h.filled, visited, hcalls, hnodup, fun v hv =>
    ⟨hmay v (hvisited v hv).1, (hvisited v hv).2⟩⟩

/-- Two parts that never call for the same directory. -/
theorem trans (h : Progress t working source target may s s')
    (h' : Progress t working source target may' s' s'') (hne : ∀ v, may v → ¬ may' v) :
    Progress t working source target (fun v => may v ∨ may' v) s s'' := by
  obtain ⟨visited, hcalls, hnodup, hvisited⟩ := h.calls
  obtain ⟨visited', hcalls', hnodup', hvisited'⟩ := h'.calls
  refine ⟨h'.copying, h.filled.trans h'.filled, visited ++ visited', ?_, ?_, fun v hv => ?_⟩
  · rw [hcalls', hcalls, List.map_append, List.append_assoc]
  · refine List.nodup_append.2 ⟨hnodup, hnodup', fun v hv v' hv' heq => ?_⟩
    subst heq
    exact hne v (hvisited v hv).1 (hvisited' v hv').1
  · rcases List.mem_append.1 hv with hv | hv
    · exact ⟨.inl (hvisited v hv).1, (hvisited v hv).2⟩
    · exact ⟨.inr (hvisited' v hv).1, (hvisited' v hv).2⟩

/-- A call that is noted first. -/
theorem noted (hbelow : below ∈ t.sourceDirectories working source)
    (h : Progress t working source target may (s.1, s.2 ++ [call source target below]) s')
    (hne : ¬ may below) :
    Progress t working source target (fun v => v = below ∨ may v) s s' := by
  obtain ⟨visited, hcalls, hnodup, hvisited⟩ := h.calls
  refine ⟨h.copying, h.filled, below :: visited, ?_, List.nodup_cons.2 ⟨fun hmem => ?_, hnodup⟩,
    fun v hv => ?_⟩
  · rw [hcalls, List.append_assoc]
    rfl
  · exact hne (hvisited below hmem).1
  · rcases List.mem_cons.1 hv with rfl | hv
    · exact ⟨.inl rfl, hbelow⟩
    · exact ⟨.inr (hvisited v hv).1, (hvisited v hv).2⟩

end Progress

/-- A place that the copy makes is on the way to a place that it may make. -/
theorem Placed.mem (h : Placed t working source target y) :
    ∃ below, (below = [] ∨ below ∈ t.sourceDirectories working source) ∧
      y ∈ (t.wayTo working (target.within below)).stops := by
  rcases h with hmade | ⟨below, hbelow, hends⟩
  · exact ⟨[], .inl rfl, hmade.mem⟩
  · exact ⟨below, .inr hbelow, hends.mem⟩

namespace Copying

theorem start (ht : HasWorkplace t working) (hdistinct : t.isDistinct = true) :
    Copying t working source target t :=
  ⟨ht, hdistinct, .refl t, fun y hgone hy => by rw [hgone] at hy; cases hy⟩

/-- **No directory comes up in the source.** -/
theorem mem_of_node? (h : Copying t working source target u)
    (houtward : Outward t working source target) (hgoal : (t.wayTo working source).goal = some x)
    (hne : below ≠ []) (hbelow : u.node? (x ++ below) = some .directory) :
    below ∈ t.sourceDirectories working source := by
  refine mem_sourceDirectories.2 ⟨x, hgoal, ?_⟩
  refine (h.filled.directory_or_none hbelow).resolve_right fun hgone => ?_
  obtain ⟨part, hpart, hmem⟩ := (h.new _ hgone hbelow).mem
  exact hne (List.append_right_eq_self.1
    (houtward x hgoal part hpart _ hmem hgone (List.prefix_append x below)))

/-- A directory in the source is found where it is. -/
theorem location_eq (ht : HasWorkplace t working) (h : Copying t working source target u)
    (hbelow : below = [] ∨ below ∈ t.sourceDirectories working source)
    (hfind : find u working true (source.within below) = .ok (location, .directory entries)) :
    ∃ x, (t.wayTo working source).goal = some x ∧ location = x ++ below := by
  have hlocation := h.filled.goal (of_find (h.hasWorkplace.freeStart _) hfind).goal
  rcases hbelow with rfl | hbelow
  · exact ⟨location, hlocation, (List.append_nil _).symm⟩
  obtain ⟨x, hgoal, hnode⟩ := mem_sourceDirectories.1 hbelow
  refine ⟨x, hgoal, ?_⟩
  have hthere : t.node? (x ++ below) ≠ none := by rw [hnode]; simp
  have hnames := ht.proper.isName_of_mem hthere
  have hpart : ∀ part, part <+: below → t.node? (x ++ part) = some .directory := by
    intro part hpart
    rcases node?_of_part (by rw [hnode]; simp) hpart with rfl | hpart
    · exact hnode
    · exact hpart
  have hx := hpart [] List.nil_prefix
  rw [List.append_nil] at hx
  obtain ⟨left, hway⟩ :=
    wayTo_of_follows (Path.Follows.within source hnames) hgoal (nodeAt_of_node? hx)
  rw [hway] at hlocation
  refine (way_of_no_link left (fun n hn => (hnames n hn).notDots) fun part link hp => ?_).1 _
    hlocation
  rw [nodeAt_of_node? (hpart part hp)]
  simp

theorem makeDirectories [Disk] (h : Copying t working source target u) {p : Path}
    (hnew : ∀ y, u.node? y = none → MadeFor u working p y → Placed t working source target y) :
    Copying t working source target ((FileTree.makeDirectories working p).after u) ∧
      Filled u ((FileTree.makeDirectories working p).after u) := by
  have hfreeStart := h.hasWorkplace.freeStart p
  have hfilled := (makeDirectories_made hfreeStart).filled
  refine ⟨⟨h.hasWorkplace.makeDirectories p, ?_, h.filled.trans hfilled,
    fun y hgone hy => ?_⟩, hfilled⟩
  · exact makeDirectories_isDistinct h.distinct working p
  · rcases hfilled.directory_or_none hy with hu | hu
    · exact h.new y hgone hu
    · rcases makeDirectories_new hfreeStart hu with hnone | hmade
      · rw [hnone] at hy
        cases hy
      · exact hnew y hu hmade

theorem copyFile [Disk] (h : Copying t working source target u) {p q : Path}
    (hparent : ∀ parent, q.parent? = some parent → WayThere u working parent) :
    Copying t working source target ((FileTree.copyFile working p q).after u) ∧
      Filled u ((FileTree.copyFile working p q).after u) := by
  have hfilled := copyFile_filled h.hasWorkplace p q
  exact ⟨⟨h.hasWorkplace.copyFile p q, copyFile_isDistinct h.distinct working p q,
    h.filled.trans hfilled, fun y hgone hy =>
      h.new y hgone (copyFile_directory h.hasWorkplace hparent hy)⟩, hfilled⟩

end Copying

/-- After the directories of a path were made, everything on its way is there. -/
theorem wayThere_of_makeDirectories [Disk] (hu : HasWorkplace t working)
    (hok : FileTree.makeDirectories working target t = .ok () u) : WayThere u working target := by
  cases hempty : target.isEmpty with
  | false => exact (makeDirectories_reached (hu.freeStart target) hempty hok).stops
  | true =>
    obtain ⟨bytes⟩ := target
    obtain rfl : bytes = [] := List.isEmpty_iff.1 hempty
    intro x hx
    rw [wayTo, Path.names_nil, way_nil] at hx
    cases hx

/-! ## Calls -/

/-- A place strictly below another one. -/
def StrictlyBelow (below v : Location) : Prop := ∃ first rest, v = below ++ first :: rest

/-- The entries of a directory that are still to be copied, with what is known of them. -/
structure Listed (t : FileTree) (working : Location) (source : Path) (below : Location)
    (entries : List (Bytes × Bool)) : Prop where
  names : ∀ entry ∈ entries, Path.IsName entry.1
  directory : ∀ entry ∈ entries, entry.2 = true →
    below ++ [entry.1] ∈ t.sourceDirectories working source
  nodup : (entries.map Prod.fst).Nodup

theorem Copying.listed (ht : HasWorkplace t working) (h : Copying t working source target u)
    (houtward : Outward t working source target) (hlisting : listing.Exact)
    (hbelow : below = [] ∨ below ∈ t.sourceDirectories working source)
    (hfind : find u working true (source.within below) = .ok (location, .directory entries)) :
    Listed t working source below (listNames listing location entries) := by
  obtain ⟨x, hgoal, rfl⟩ := h.location_eq ht hbelow hfind
  have hget := (of_find (h.hasWorkplace.freeStart _) hfind).get
  refine ⟨fun entry hentry => (h.hasWorkplace.listed hlisting hfind hentry).1,
    fun entry hentry hd => ?_,
    nodup_listNames hlisting h.distinct hget⟩
  obtain ⟨-, child, hchild, hisDirectory⟩ := h.hasWorkplace.listed hlisting hfind hentry
  refine h.mem_of_node? houtward hgoal (by simp) ?_
  rw [← List.append_assoc, node?_eq_some hchild, isDirectory_iff.1 (hisDirectory.trans hd)]

variable [Disk]

/-- Calls that may be nested this deep make progress, and call for the directories below them
only. -/
def CallsProgress (t : FileTree) (working : Location) (source target : Path) (listing : Listing)
    (depth : Nat) : Prop :=
  ∀ below s, below = [] ∨ below ∈ t.sourceDirectories working source →
    Copying t working source target s.1 →
    (∀ y, s.1.node? y = none → MadeFor s.1 working (target.within below) y →
      Placed t working source target y) →
    Progress t working source target (StrictlyBelow below) s
      ((copyTraced listing working depth (source.within below) (target.within below)).after s)

/-- Copying an entry of a directory makes progress if copying the directories in it does. -/
theorem copyEntry_progress (hinner : CallsProgress t working source target listing depth)
    {entry : Bytes × Bool} {l : List (Bytes × Bool)}
    (hl : Listed t working source below (entry :: l)) (h : Copying t working source target s.1)
    (hthere : WayThere s.1 working (target.within below)) (count : Nat) :
    Progress t working source target (fun v => ∃ rest, v = below ++ entry.1 :: rest) s
      ((copyEntryTraced listing working depth (source.within below) (target.within below) count
        entry).after s) := by
  obtain ⟨name, isDirectory⟩ := entry
  have hname := hl.names _ List.mem_cons_self
  cases isDirectory with
  | true =>
    have hdirectory := hl.directory _ List.mem_cons_self rfl
    rw [after_copyEntryTraced_directory, ← Path.within_concat, ← Path.within_concat]
    have hcall := hinner (below ++ [name])
      (s.1, s.2 ++ [(source.within (below ++ [name]), target.within (below ++ [name]))])
      (.inr hdirectory) h
      fun y hgone hmade => .inr ⟨_, hdirectory, h.filled.endsAt ?_⟩
    · refine (Progress.noted hdirectory hcall ?_).mono fun v hv => ?_
      · rintro ⟨first, rest, heq⟩
        exact absurd (List.append_right_eq_self.1 heq.symm) (by simp)
      · rcases hv with rfl | ⟨first, rest, rfl⟩
        · exact ⟨[], rfl⟩
        · exact ⟨first :: rest, by simp⟩
    · change MadeFor s.1 working (target.within (below ++ [name])) y at hmade
      rw [Path.within_concat] at hmade ⊢
      exact hmade.endsAt_join hname hthere hgone
  | false =>
    obtain ⟨hcopying, hfilled⟩ := h.copyFile (p := (source.within below).join ⟨name⟩)
      (q := (target.within below).join ⟨name⟩) fun parent hparent x hx =>
        hthere x (stops_subset_of_above_join hname (.parent hparent) hx)
    rw [after_copyEntryTraced_file]
    exact .quiet hcopying hfilled

/-- Copying the entries of a directory makes progress if copying the directories in it does. -/
theorem copyEntries_progress (hinner : CallsProgress t working source target listing depth)
    (l : List (Bytes × Bool)) (hl : Listed t working source below l)
    (h : Copying t working source target s.1) (hthere : WayThere s.1 working (target.within below))
    (count : Nat) :
    Progress t working source target (fun v => ∃ entry ∈ l, ∃ rest, v = below ++ entry.1 :: rest) s
      (Traced.after (l.foldlM (copyEntryTraced listing working depth (source.within below)
        (target.within below)) count) s) := by
  induction l generalizing s count with
  | nil => exact .refl h
  | cons entry rest ih =>
    have hfirst := copyEntry_progress hinner hl h hthere count
    rw [List.foldlM_cons]
    refine Traced.after_bind (P := Progress t working source target _ s)
      (hfirst.mono fun v ⟨more, hv⟩ => ⟨entry, List.mem_cons_self, more, hv⟩) fun c s' hok => ?_
    rw [Traced.after_of_ok hok] at hfirst
    obtain ⟨hnot, hnodup⟩ := List.nodup_cons.1 hl.nodup
    have hrest := ih ⟨fun e he => hl.names e (List.mem_cons_of_mem _ he),
      fun e he => hl.directory e (List.mem_cons_of_mem _ he), hnodup⟩ hfirst.copying
      (hfirst.filled.wayThere hthere) c
    refine (hfirst.trans hrest ?_).mono fun v hv => ?_
    · rintro v ⟨more, rfl⟩ ⟨entry', hentry', more', heq⟩
      have hsame := (List.cons.inj (List.append_cancel_left heq)).1
      exact hnot (hsame ▸ List.mem_map_of_mem hentry')
    · rcases hv with ⟨more, hv⟩ | ⟨entry', hentry', hv⟩
      · exact ⟨entry, List.mem_cons_self, more, hv⟩
      · exact ⟨entry', List.mem_cons_of_mem _ hentry', hv⟩

section Run

variable (ht : HasWorkplace t working) (houtward : Outward t working source target)
variable (hlisting : listing.Exact)
include ht houtward hlisting

/-- **A call makes progress, and calls for the directories below it only.** -/
theorem copyTraced_progress (depth : Nat) :
    CallsProgress t working source target listing depth := by
  intro below s hbelow h hnew
  induction depth generalizing below s with
  | zero => exact .refl h
  | succ depth ih =>
    obtain ⟨hmade, hfilled⟩ := h.makeDirectories hnew
    rw [copyTraced_succ]
    refine Traced.after_bind (P := Progress t working source target _ s)
      (by rw [Traced.after_untraced]; exact .quiet hmade hfilled) fun _ u hok => ?_
    obtain ⟨hmake, hcalls⟩ := Traced.untraced_eq_ok hok
    rw [Action.after_of_ok hmake] at hmade hfilled
    have hu : Progress t working source target (fun _ => False) s u := by
      have hquiet : Progress t working source target (fun _ => False) s (u.1, s.2) :=
        .quiet hmade hfilled
      rwa [← hcalls] at hquiet
    refine Traced.after_bind (P := Progress t working source target _ s)
      (by rw [Traced.after_untraced, after_readDirectory]; exact hu.mono fun _ => False.elim)
      fun listed v hread => ?_
    obtain ⟨rfl, location, entries, hfind, rfl⟩ := Traced.readDirectory_eq_ok hread
    have hfold := copyEntries_progress ih _ (hmade.listed ht houtward hlisting hbelow hfind) hmade
      (wayThere_of_makeDirectories h.hasWorkplace hmake) 0
    refine (hu.trans hfold fun v hv => hv.elim).mono fun v hv => ?_
    obtain ⟨entry, -, rest, rfl⟩ := hv.resolve_left id
    exact ⟨entry.1, rest, rfl⟩

end Run

/-! ## Copying into the source -/

/-- **A directory is never copied to a name in itself**, whatever is there.  The copy is listed
with the rest, so that it is copied as well. -/
theorem copyNested_into_itself (hlisting : listing.Exact) (hname : Path.IsName name)
    (ht : HasWorkplace t working) (depth count : Nat) :
    copyNested listing working depth source (source.join ⟨name⟩) t ≠ .ok count u := by
  induction depth generalizing source t u count with
  | zero => rintro ⟨⟩
  | succ depth ih =>
    intro hok
    rw [copyNested_succ] at hok
    obtain ⟨_, v, hmake, hok⟩ := bind_eq_ok hok
    obtain ⟨listed, w, hread, hok⟩ := bind_eq_ok hok
    obtain ⟨rfl, location, entries, hfind, rfl⟩ := readDirectory_eq_ok hread
    have hv := ht.makeDirectories (source.join ⟨name⟩)
    rw [Action.after_of_ok hmake] at hv
    -- the copy is an entry of the source
    have hreached := makeDirectories_reached (ht.freeStart _)
      ((Path.Follows.refl source).join hname).isEmpty_eq_false hmake
    have hfound := of_find (hv.freeStart source) hfind
    obtain ⟨parent, hgoal, hthere⟩ := hreached.join source name hname rfl
    obtain rfl : location = parent := Option.some.inj (hfound.goal.symm.trans hgoal)
    obtain ⟨child, hchild⟩ := Option.ne_none_iff_exists'.1 (mt node?_eq_none_iff.2 hthere)
    have hentry := (mem_listNames_iff hlisting hfound.get).2 ⟨child, hchild, rfl⟩
    obtain ⟨-, hother⟩ : (HasWorkplace u working ∧ Filled w u) ∧
        ∀ entry ∈ listNames listing location entries, entry.1 ≠ name := by
      refine foldlM_ok (R := fun t u => HasWorkplace u working ∧ Filled t u)
        (Q := fun (entry : Bytes × Bool) _ => entry.1 ≠ name)
        (fun h h' => ⟨h'.1, h.2.trans h'.2⟩) ⟨hv, .refl w⟩
        (fun entry _ c x d y hx hstep => ?_) (fun _ _ _ _ h => h) hok
      obtain ⟨last, isDirectory⟩ := entry
      cases isDirectory with
      | true =>
        obtain ⟨copied, z, hcopy, hreturn⟩ := bind_eq_ok hstep
        cases hreturn
        have hfilled := copyNested_filled hx.1 listing depth (source.join ⟨last⟩)
          ((source.join ⟨name⟩).join ⟨last⟩)
        have hbase : HasWorkplace ((copyNested listing working depth (source.join ⟨last⟩)
            ((source.join ⟨name⟩).join ⟨last⟩)).after x) working := hx.1.copyNested depth _ _
        rw [Action.after_of_ok hcopy] at hfilled hbase
        refine ⟨⟨hbase, hfilled⟩, ?_⟩
        rintro rfl
        exact ih hx.1 _ hcopy
      | false =>
        obtain ⟨copied, z, hcopy, hreturn⟩ := bind_eq_ok hstep
        cases hreturn
        have hfilled := copyFile_filled hx.1 (source.join ⟨last⟩)
          ((source.join ⟨name⟩).join ⟨last⟩)
        have hbase := hx.1.copyFile (source.join ⟨last⟩) ((source.join ⟨name⟩).join ⟨last⟩)
        rw [Action.after_of_ok hcopy] at hfilled hbase
        refine ⟨⟨hbase, hfilled⟩, ?_⟩
        rintro rfl
        obtain ⟨z, hz, hdirectory⟩ := hreached.goal
        exact copyFile_ne_ok hx.2 hx.1 hz hdirectory hcopy
    exact hother _ hentry rfl

/-! ## The end of a copy -/

/-- **A copy ends.**  It calls itself at most once for each directory in the source, makes no other
directory than those that the target is missing and the copies of directories in the source, and is
not nested deeper than there are directories. -/
theorem copyTree_ends (hlisting : listing.Exact) (ht : HasWorkplace t working)
    (hdistinct : t.isDistinct = true) (houtward : Outward t working source target) :
    (∀ depth, ∃ visited : List Location,
      calls listing working depth source target t = visited.map (call source target) ∧
        visited.Nodup ∧
        ∀ below ∈ visited, below ≠ [] ∧ below ∈ t.sourceDirectories working source) ∧
    (∀ depth, (calls listing working depth source target t).length ≤
      (t.sourceDirectories working source).length) ∧
    (∀ y, t.node? y ≠ some .directory →
      ((copyTree listing working source target).after t).node? y = some .directory →
      Placed t working source target y) ∧
    ∀ depth, (t.sourceDirectories working source).length < depth →
      copyNested listing working depth source target t =
        copyTree listing working source target t := by
  have hrun : ∀ depth, Progress t working source target (StrictlyBelow []) (t, [])
      ((copyTraced listing working depth source target).after (t, [])) := fun depth =>
    copyTraced_progress ht houtward hlisting depth [] (t, []) (.inl rfl) (.start ht hdistinct)
      fun y _ hmade => .inl hmade
  have hfew : ∀ depth, (calls listing working depth source target t).length ≤
      (t.sourceDirectories working source).length := by
    intro depth
    obtain ⟨visited, hcalls, hnodup, hvisited⟩ := (hrun depth).calls
    rw [calls, hcalls, List.nil_append, List.length_map]
    exact hnodup.length_le_of_subset fun v hv => (hvisited v hv).2
  refine ⟨fun depth => ?_, hfew, fun y hgone hy => ?_, fun depth hdepth => ?_⟩
  · obtain ⟨visited, hcalls, hnodup, hvisited⟩ := (hrun depth).calls
    refine ⟨visited, hcalls, hnodup, fun v hv => ⟨?_, (hvisited v hv).2⟩⟩
    obtain ⟨⟨first, rest, rfl⟩, -⟩ := hvisited v hv
    simp
  · have hcopying := (hrun pathLimit).copying
    rw [after_fst (erase_copyTraced listing working pathLimit source target)] at hcopying
    exact hcopying.new y ((hcopying.filled.directory_or_none hy).resolve_left hgone) hy
  · rcases Nat.le_total pathLimit depth with hle | hle
    · exact copyNested_eq_copyTree hlisting ht hle
    · rw [copyTree, ← erase_copyTraced _ _ _ _ _ (t, []), ← erase_copyTraced _ _ _ _ _ (t, []),
        copyTraced_congr hle]
      exact Nat.lt_of_le_of_lt (hfew depth) (by rw [List.length_nil]; omega)

end Copy

/-- A check for `Outward`: nothing that the copy may have to make is below the source. -/
def isOutward (t : FileTree) (working : Location) (source target : Path) : Bool :=
  match (t.wayTo working source).goal with
  | none => true
  | some x => ([] :: t.sourceDirectories working source).all fun below =>
    (t.wayTo working (target.within below)).stops.all fun y =>
      (t.node? y).isSome || !x.isPrefixOf y || y = x

theorem outward_of_isOutward {t : FileTree} {working : Location} {source target : Path}
    (h : t.isOutward working source target = true) : Outward t working source target := by
  intro x hgoal below hbelow y hy hgone hunder
  rw [isOutward, hgoal] at h
  have := List.all_eq_true.1 (List.all_eq_true.1 h below (List.mem_cons.2 hbelow)) y hy
  simpa [hgone, List.isPrefixOf_iff_prefix.2 hunder] using this

/-- A directory with another one in it. -/
def nested : FileTree :=
  directory [(Text.encode "kernel", directory [
    (Text.encode "lib", directory [(Text.encode "run", .file newFileMode [])])])]

theorem copyTree_ends_nested :
    (calls id [] pathLimit (.ofString "kernel") (.ofString "env/demo") nested).length ≤ 2 ∧
      copyNested id [] 3 (.ofString "kernel") (.ofString "env/demo") nested =
        copyTree id [] (.ofString "kernel") (.ofString "env/demo") nested := by
  have hproper : nested.Proper := proper_of_isProper (by decide +kernel)
  have houtward : Outward nested [] (.ofString "kernel") (.ofString "env/demo") :=
    outward_of_isOutward (by decide +kernel)
  have hdirectories : (nested.sourceDirectories [] (.ofString "kernel")).length = 2 := by
    decide +kernel
  obtain ⟨-, hfew, -, hdepth⟩ := copyTree_ends (fun _ => List.Perm.refl _ : Listing.Exact id)
    ⟨hproper, by decide +kernel⟩ (by decide +kernel) houtward
  exact ⟨hdirectories ▸ hfew pathLimit, hdepth 3 (by rw [hdirectories]; decide)⟩

/-- An empty directory. -/
def single : FileTree := directory [(Text.encode "kernel", directory [])]

/-- **A copy into the source calls itself more often than there are directories**, and fails in the
end. -/
theorem copyTree_into_itself :
    (single.sourceDirectories [] (.ofString "kernel")).length <
      (calls id [] pathLimit (.ofString "kernel") (.ofString "kernel/copy") single).length ∧
    ∀ count u,
      copyTree id [] (.ofString "kernel") (.ofString "kernel/copy") single ≠ .ok count u := by
  have hproper : single.Proper := proper_of_isProper (by decide +kernel)
  have hname : Path.IsName (Text.encode "copy") := by decide +kernel
  have hjoin :
    Path.ofString "kernel/copy" = (Path.ofString "kernel").join ⟨Text.encode "copy"⟩ := by
    decide +kernel
  refine ⟨?_, fun count u => ?_⟩
  · have hfirst : (calls id [] 2 (.ofString "kernel") (.ofString "kernel/copy") single).length ≤
        (calls id [] pathLimit (.ofString "kernel") (.ofString "kernel/copy") single).length :=
      (calls_of_le (by decide) single).length_le
    have hdirectories : (single.sourceDirectories [] (.ofString "kernel")).length = 1 := by
      decide +kernel
    have hcalls :
      (calls id [] 2 (.ofString "kernel") (.ofString "kernel/copy") single).length = 2 := by
      decide +kernel
    omega
  · rw [hjoin]
    exact copyNested_into_itself (fun _ => List.Perm.refl _) hname ⟨hproper, by decide +kernel⟩
      pathLimit count

end FileTree
end KernelRegistry
