import KernelRegistry.FileTree.Actions
import KernelRegistry.Proofs.FileTree.Disk
import KernelRegistry.Proofs.FileTree.Walk

/-!
# What the operations on files do

Each operation is described by the nodes of the tree that it leaves, also where it fails, and
whatever the disk refuses.

* `FileTree.Made` — some directories were made, and that is all; `Made.wayTo` says that this
  changes no way.
* `FileTree.LeadsInto` — everything on the way of a path is there, and it leads to a directory.
* `makeDirectories_made`, `makeDirectories_reached` — making the directories of a path.
* `FileTree.Writable` — where a file can be put; `copyOver_ok`, `copyOver_error`, `overwrite_ok` and
  `overwrite_error` say what writing one does.
-/

set_option autoImplicit false
namespace KernelRegistry
namespace FileTree

open Text (Bytes)

/-! ## Putting something in a directory -/

section Update

variable {t s : FileTree} {above x : Location} {name : Bytes}

/-- **Something that has nothing in it, put where nothing is in it, changes one node.** -/
theorem node?_update_leaf (habove : t.node? above = some .directory)
    (hleaf : ∀ y, y ≠ [] → s.node? y = none)
    (hold : ∀ y, y ≠ [] → t.node? (above ++ [name] ++ y) = none) (x : Location) :
    (t.update (some s) (above ++ [name])).node? x =
      if x = above ++ [name] then some s.node else t.node? x := by
  by_cases hx : above ++ [name] <+: x
  · obtain ⟨y, rfl⟩ := hx
    have hget : (t.update (some s) (above ++ [name])).node? (above ++ [name] ++ y) = s.node? y := by
      rw [node?, List.append_assoc, List.singleton_append, get?_update_append habove]
      rfl
    rw [hget]
    by_cases hy : y = []
    · subst hy
      rw [List.append_nil, if_pos rfl]
      exact node?_eq_some (get?_nil s)
    · rw [if_neg (by simpa using hy), hleaf y hy, hold y hy]
  · rw [node?_update_elsewhere hx, if_neg]
    rintro rfl
    exact hx (List.prefix_refl _)

theorem node?_append_eq_none {y : Location} (h : t.node? x ≠ some .directory) (hy : y ≠ []) :
    t.node? (x ++ y) = none := by
  by_cases hnone : t.node? (x ++ y) = none
  · exact hnone
  · exact absurd (node?_of_node?_append hy hnone) h

theorem node?_empty {y : Location} (hy : y ≠ []) : (directory []).node? y = none := by
  obtain ⟨name, rest, rfl⟩ := List.exists_cons_of_ne_nil hy
  rfl

theorem node?_file {mode : Nat} {content : Bytes} {y : Location} (hy : y ≠ []) :
    (file mode content).node? y = none := by
  obtain ⟨name, rest, rfl⟩ := List.exists_cons_of_ne_nil hy
  rfl

end Update

/-! ## Making directories -/

/-- Some directories were made, all of them at the given places, and nothing else has changed.  If
the places are the stops of a path, then its way is the same afterwards. -/
structure Made (stops : List Location) (t u : FileTree) : Prop where
  same : ∀ x n, t.node? x = some n → u.node? x = some n
  new : ∀ x, t.node? x = none → u.node? x ≠ none →
    x ∈ stops ∧ u.node? x = some .directory ∧ ∃ above name, x = above ++ [name] ∧ Path.IsName name

namespace Made

variable {stops : List Location} {t u v : FileTree} {working : Location} {p : Path}

theorem refl (stops : List Location) (t : FileTree) : Made stops t t :=
  ⟨fun _ _ h => h, fun _ h h' => absurd h h'⟩

theorem trans (h : Made stops t u) (h' : Made stops u v) : Made stops t v := by
  refine ⟨fun x n hx => h'.same x n (h.same x n hx), fun x hx hv => ?_⟩
  cases hu : u.node? x with
  | none => exact h'.new x hu hv
  | some n =>
    obtain ⟨hmem, hn, hname⟩ := h.new x hx (by rw [hu]; simp)
    exact ⟨hmem, h'.same x _ hn, hname⟩

theorem mono (h : Made stops t u) {more : List Location} (hmore : ∀ x ∈ stops, x ∈ more) :
    Made more t u :=
  ⟨h.same, fun x hx hu => ⟨hmore x (h.new x hx hu).1, (h.new x hx hu).2⟩⟩

theorem ne_none (h : Made stops t u) {x : Location} (hx : t.node? x ≠ none) :
    u.node? x ≠ none := by
  obtain ⟨n, hn⟩ := Option.ne_none_iff_exists'.1 hx
  rw [h.same x n hn]
  simp

theorem nodeAt (h : Made stops t u) (x : Location) : u.nodeAt x = t.nodeAt x := by
  cases ht : t.node? x with
  | some n => rw [nodeAt_of_node? ht, nodeAt_of_node? (h.same x n ht)]
  | none =>
    rw [nodeAt_of_none ht]
    cases hu : u.node? x with
    | none => exact nodeAt_of_none hu
    | some n => exact nodeAt_of_node? (h.new x ht (by rw [hu]; simp)).2.1

/-- **Making directories changes no way.** -/
theorem wayTo (h : Made stops t u) (working : Location) (p : Path) :
    u.wayTo working p = t.wayTo working p :=
  wayTo_congr fun x _ => h.nodeAt x

theorem freeStart (h : Made stops t u) (hp : FreeStart t working p) : FreeStart u working p := by
  refine ⟨h.same [] _ hp.root, fun n hn => ?_⟩
  cases ht : t.node? (start working p) with
  | some n' =>
    have := h.same _ _ ht
    rw [hn] at this
    exact hp.start n (this ▸ ht)
  | none =>
    have := (h.new _ ht (by rw [hn]; simp)).2.1
    rw [hn] at this
    exact Option.some.inj this

theorem proper (h : Made stops t u) (ht : t.Proper) : u.Proper := by
  refine ⟨h.same [] _ ht.root, fun above name hthere => ?_⟩
  cases hnode : t.node? (above ++ [name]) with
  | some n => exact ht.names above name (by rw [hnode]; simp)
  | none =>
    obtain ⟨-, -, above', name', heq, hname⟩ := h.new _ hnode hthere
    exact (List.cons.inj (List.append_inj' heq rfl).2).1 ▸ hname

/-- Where everything is there, nothing is made. -/
theorem node?_eq (h : Made stops t u) (hstops : ∀ x ∈ stops, t.node? x ≠ none) (x : Location) :
    u.node? x = t.node? x := by
  cases ht : t.node? x with
  | some n => exact h.same x n ht
  | none =>
    by_cases hu : u.node? x = none
    · exact hu
    · exact absurd ht (hstops x (h.new x ht hu).1)

end Made

/-- A path leads to a directory, and everything on its way is there. -/
structure Reached (t : FileTree) (working : Location) (p : Path) : Prop where
  goal : ∃ x, (t.wayTo working p).goal = some x ∧ t.node? x = some .directory
  stops : ∀ x ∈ (t.wayTo working p).stops, t.node? x ≠ none
  join : ∀ base name, Path.IsName name → p = base.join ⟨name⟩ →
    ∃ parent, (t.wayTo working base).goal = some parent ∧ t.node? (parent ++ [name]) ≠ none

/-- Everything on the way of a path is there, and it leads to a directory. -/
structure LeadsInto (t : FileTree) (working : Location) (p : Path) (above : Location) : Prop where
  goal : (t.wayTo working p).goal = some above
  directory : t.node? above = some .directory
  present : ∀ x ∈ (t.wayTo working p).stops, t.node? x ≠ none

section Directories

variable {t u : FileTree} {working : Location} {p q : Path}

theorem Reached.leadsInto (h : Reached t working p) : ∃ above, LeadsInto t working p above := by
  obtain ⟨above, hgoal, hdirectory⟩ := h.goal
  exact ⟨above, hgoal, hdirectory, h.stops⟩

theorem wayTo_dropSlashes (t : FileTree) (working : Location) (p : Path) :
    t.wayTo working (dropSlashes p) = t.wayTo working p := by
  obtain ⟨hnames, habs⟩ := Path.names_dropSlashes p
  rw [wayTo, wayTo, start, start, hnames, habs]

theorem FreeStart.dropSlashes (h : FreeStart t working p) :
    FreeStart t working (dropSlashes p) :=
  h.follows (Path.Follows.refl p).dropSlashes

theorem FreeStart.of_join {name : Bytes} (h : FreeStart t working (p.join ⟨name⟩))
    (hname : Path.IsName name) : FreeStart t working p :=
  ⟨h.root, start_of_follows ((Path.Follows.refl p).join hname) ▸ h.start⟩

theorem locate_of_locateEntry {place : Place} (h : locateEntry t working p = .ok place) :
    locate t working false (FileTree.dropSlashes p) = .ok place := by
  rw [locateEntry] at h
  split at h
  · cases h
  split at h
  · cases h
  · exact h

/-- The entry that a path names is where the path leads if it does not end in slashes. -/
theorem locateEntry_of_dropSlashes (h : FileTree.dropSlashes p = p) :
    locateEntry t working p = locate t working false p := by
  rw [locateEntry, h]
  split
  · next hnul => rw [locate, if_pos hnul]
  next hnul =>
  split
  · next hlong =>
    have hpos : p.bytes.isEmpty = false := by
      cases hbytes : p.bytes with
      | nil => simp [hbytes, pathLimit] at hlong
      | cons => rfl
    rw [locate, if_neg hnul, if_neg (by simp [Path.isEmpty, hpos]), if_pos hlong]
  · rfl

theorem FreeStart.parent? (h : FreeStart t working p) (hq : p.parent? = some q) :
    FreeStart t working q := by
  obtain ⟨-, habs⟩ := Path.names_parent? hq
  have hstart : FileTree.start working q = FileTree.start working p := by
    rw [FileTree.start, FileTree.start, habs]
  exact ⟨h.root, hstart ▸ h.start⟩

theorem Missing.node?_update {above : Location} {name : Bytes}
    (h : Missing t working p above name) (x : Location) :
    (t.update (some (.directory [])) (above ++ [name])).node? x =
      if x = above ++ [name] then some .directory else t.node? x :=
  node?_update_leaf h.directory (fun _ => node?_empty)
    (fun _ => node?_append_eq_none (by rw [h.gone]; simp)) x

theorem exists_find_of_isDirectoryAt (h : isDirectoryAt t working p = true) :
    ∃ location found, find t working true p = .ok (location, found) ∧ found.node = .directory := by
  rw [isDirectoryAt] at h
  split at h
  · next location found hfind => exact ⟨location, found, hfind, isDirectory_iff.1 h⟩
  · cases h

/-- A path that leads to a directory has everything on its way. -/
theorem reached_of_isDirectoryAt (h : FreeStart t working p)
    (hdirectory : isDirectoryAt t working p = true) : Reached t working p := by
  obtain ⟨location, found, hfind, hnode⟩ := exists_find_of_isDirectoryAt hdirectory
  have hfound := of_find h hfind
  refine ⟨⟨location, hfound.goal, ?_⟩, hfound.stops, fun base last hlast hp => ?_⟩
  · rw [node?_eq_some hfound.get, hnode]
  · subst hp
    obtain ⟨location', node, hlink⟩ := exists_find_of_follow hfind
    obtain ⟨parent, hgoal, rfl, hget⟩ := of_find_join (h.of_join hlast) hlast hlink
    exact ⟨parent, hgoal, by rw [node?_eq_some hget]; simp⟩

variable [Disk]

theorem makeDirectory_of_error {e : FileError} (h : locateEntry t working p = .error e) :
    makeDirectory working p t = .error e t := by
  rw [makeDirectory, bind_of_error (answer_of_error h)]

theorem makeDirectory_of_present {location : Location} {found : FileTree}
    (h : locateEntry t working p = .ok (.present location found)) :
    makeDirectory working p t = .error .exists t := by
  rw [makeDirectory, bind_of_ok (answer_of_ok h)]
  rfl

theorem makeDirectory_of_absent {above : Location} {name : Bytes} {slash : Bool}
    (h : locateEntry t working p = .ok (.absent above name slash)) :
    makeDirectory working p t =
      (ask (.makeDirectory (above ++ [name])) >>= fun _ =>
        place (above ++ [name]) (some (.directory []))) t := by
  rw [makeDirectory, bind_of_ok (answer_of_ok h)]

/-- A property that is kept by putting a directory in its place is kept by making it, also where
that fails. -/
theorem after_makeDirectory {P : FileTree → Prop} (ht : P t)
    (hput : ∀ above name slash, locateEntry t working p = .ok (.absent above name slash) →
      P (t.update (some (.directory [])) (above ++ [name]))) :
    P ((makeDirectory working p).after t) := by
  refine after_bind (by rwa [after_answer]) fun place u hlocate => ?_
  obtain ⟨hentry, rfl⟩ := answer_eq_ok hlocate
  cases place with
  | present => exact ht
  | absent above name slash =>
    refine after_bind (by rwa [after_ask]) fun _ v hask => ?_
    obtain rfl := ask_eq_ok hask
    exact hput above name slash hentry

/-- Making a directory fails and changes nothing, or makes it at the end of the way. -/
theorem makeDirectory_cases (h : FreeStart t working p) :
    (∃ e, makeDirectory working p t = .error e t) ∨
      ∃ above name slash, Missing t working p above name ∧
        locate t working false (FileTree.dropSlashes p) = .ok (.absent above name slash) ∧
        makeDirectory working p t =
          .ok () (t.update (some (.directory [])) (above ++ [name])) := by
  cases hentry : locateEntry t working p with
  | error e => exact .inl ⟨e, makeDirectory_of_error hentry⟩
  | ok place =>
    cases place with
    | present location found => exact .inl ⟨_, makeDirectory_of_present hentry⟩
    | absent above name slash =>
      rw [makeDirectory_of_absent hentry]
      rcases ask_cases (.makeDirectory (above ++ [name])) t with ⟨e, -, hask⟩ | hask
      · exact .inl ⟨e, bind_of_error hask⟩
      · have hlocate := locate_of_locateEntry hentry
        have hmissing := of_locate_absent h.dropSlashes hlocate
        refine .inr ⟨above, name, slash,
          ⟨?_, hmissing.directory, hmissing.gone, hmissing.isName, ?_, ?_⟩, hlocate, ?_⟩
        · rw [← wayTo_dropSlashes]; exact hmissing.goal
        · rw [← wayTo_dropSlashes]; exact hmissing.mem
        · rw [← wayTo_dropSlashes]; exact hmissing.stops
        · exact bind_of_ok hask

/-- A directory that cannot be made changes nothing. -/
theorem makeDirectory_error {e : FileError} (hp : FreeStart t working p)
    (herror : makeDirectory working p t = .error e u) : u = t := by
  rcases makeDirectory_cases hp with ⟨e', he⟩ | ⟨_, _, _, -, -, hok⟩
  · rw [he] at herror
    cases herror
    rfl
  · rw [hok] at herror
    cases herror

theorem makeDirectory_made (h : FreeStart t working p) :
    Made (t.wayTo working p).stops t ((makeDirectory working p).after t) := by
  rcases makeDirectory_cases h with ⟨e, he⟩ | ⟨above, name, slash, hmissing, -, hok⟩
  · rw [Action.after_of_error he]
    exact Made.refl _ t
  · rw [Action.after_of_ok hok]
    refine ⟨fun x n hx => ?_, fun x hx hu => ?_⟩
    · rw [hmissing.node?_update, if_neg, hx]
      rintro rfl
      rw [hmissing.gone] at hx
      cases hx
    · rw [hmissing.node?_update] at hu ⊢
      by_cases hxname : x = above ++ [name]
      · exact ⟨hxname ▸ hmissing.mem, if_pos hxname, above, name, hxname,
          hmissing.isName⟩
      · rw [if_neg hxname] at hu
        exact absurd hx hu

theorem makeDirectory_reached (h : FreeStart t working p)
    (hok : makeDirectory working p t = .ok () u) : Reached u working p := by
  have hmade := makeDirectory_made h
  rw [Action.after_of_ok hok] at hmade
  rcases makeDirectory_cases h with ⟨e, he⟩ | ⟨above, name, slash, hmissing, hlocate, hok'⟩
  · rw [he] at hok
    cases hok
  · rw [hok'] at hok
    cases hok
    have hthere := hmissing.node?_update (above ++ [name])
    rw [if_pos rfl] at hthere
    refine ⟨⟨above ++ [name], ?_, hthere⟩, fun x hx => ?_, fun base last hlast hp => ?_⟩
    · rw [hmade.wayTo, hmissing.goal]
    · rw [hmade.wayTo] at hx
      rcases hmissing.stops x hx with hx | rfl
      · exact hmade.ne_none hx
      · rw [hthere]
        simp
    · subst hp
      rw [Path.dropSlashes_join base hlast] at hlocate
      obtain ⟨parent, hgoal, hlocation⟩ := of_locate_join (h.of_join hlast) hlast hlocate
      refine ⟨parent, by rw [hmade.wayTo, hgoal], ?_⟩
      rw [← hlocation, Place.location, hthere]
      simp

/-- Ensuring that there is a directory does what making it does; only a failure may be none. -/
theorem ensureDirectory_cases (working : Location) (p : Path) (t : FileTree) :
    ensureDirectory working p t = makeDirectory working p t ∨
      ∃ u, (makeDirectory working p).after t = u ∧ isDirectoryAt u working p = true ∧
        ensureDirectory working p t = .ok () u := by
  cases hmake : makeDirectory working p t with
  | ok a u => exact .inl (by rw [ensureDirectory, hmake])
  | error e u =>
    by_cases hdirectory : isDirectoryAt u working p = true
    · exact .inr ⟨u, Action.after_of_error hmake, hdirectory, by
        rw [ensureDirectory, hmake]; exact if_pos hdirectory⟩
    · exact .inl (by rw [ensureDirectory, hmake]; exact if_neg hdirectory)

theorem ensureDirectory_made (h : FreeStart t working p) :
    Made (t.wayTo working p).stops t ((ensureDirectory working p).after t) := by
  have hmade := makeDirectory_made h
  rcases ensureDirectory_cases working p t with heq | ⟨u, hafter, -, hok⟩
  · rwa [Action.after, heq]
  · rwa [Action.after_of_ok hok, ← hafter]

theorem ensureDirectory_reached (h : FreeStart t working p)
    (hok : ensureDirectory working p t = .ok () u) : Reached u working p := by
  rcases ensureDirectory_cases working p t with heq | ⟨v, hafter, hdirectory, hok'⟩
  · exact makeDirectory_reached h (heq.symm.trans hok)
  · rw [hok'] at hok
    cases hok
    exact reached_of_isDirectoryAt (hafter ▸ (makeDirectory_made h).freeStart h) hdirectory

/-- Making what is missing ensures the directory, or makes the parent of the path before. -/
theorem makeMissing_cases (working : Location) (steps : Nat) (p : Path) (t : FileTree) :
    (p.isEmpty = true ∧ makeMissing working (steps + 1) p t = .ok () t) ∨
      makeMissing working (steps + 1) p t = ensureDirectory working p t ∨
      ∃ u parent, ensureDirectory working p t = .error .notFound u ∧ p.parent? = some parent ∧
        makeMissing working (steps + 1) p t =
          (makeMissing working steps parent >>= fun _ => ensureDirectory working p) u := by
  rw [makeMissing]
  by_cases hempty : p.isEmpty = true
  · exact .inl ⟨hempty, if_pos hempty⟩
  refine .inr ?_
  simp only [if_neg hempty]
  split
  · next u hensure =>
    rw [hensure]
    cases hparent : p.parent? with
    | none => exact .inl rfl
    | some parent => exact .inr ⟨u, parent, rfl, rfl, rfl⟩
  · exact .inl rfl

/-- **Making the directories that a path is missing makes some on its way, and changes nothing
else**, also where it fails. -/
theorem makeMissing_made (steps : Nat) (h : FreeStart t working p) :
    Made (t.wayTo working p).stops t ((makeMissing working steps p).after t) := by
  induction steps generalizing p t with
  | zero => exact Made.refl _ t
  | succ steps ih =>
    rcases makeMissing_cases working steps p t with ⟨-, hok⟩ | heq | ⟨u, q, hensure, hq, heq⟩
    · rw [Action.after_of_ok hok]
      exact Made.refl _ t
    · rw [Action.after, heq]
      exact ensureDirectory_made h
    · have hfirst := ensureDirectory_made h
      rw [Action.after_of_error hensure] at hfirst
      have hu : FreeStart u working p := hfirst.freeStart h
      have hparent : Made (t.wayTo working p).stops u ((makeMissing working steps q).after u) := by
        refine (ih (hu.parent? hq)).mono fun x hx => ?_
        rw [hfirst.wayTo] at hx
        exact stops_subset_of_parent? t working hq hx
      rw [Action.after, heq]
      refine after_bind (P := Made _ t) (hfirst.trans hparent) fun a v hok => ?_
      rw [Action.after_of_ok hok] at hparent
      have hlast := ensureDirectory_made (hparent.freeStart hu)
      rw [hparent.wayTo, hfirst.wayTo] at hlast
      exact (hfirst.trans hparent).trans hlast

theorem makeMissing_reached (steps : Nat) (h : FreeStart t working p) (hp : p.isEmpty = false)
    (hok : makeMissing working steps p t = .ok () u) : Reached u working p := by
  cases steps with
  | zero => cases hok
  | succ steps =>
    rcases makeMissing_cases working steps p t with ⟨hempty, -⟩ | heq | ⟨v, q, hensure, hq, heq⟩
    · rw [hp] at hempty
      cases hempty
    · exact ensureDirectory_reached h (heq.symm.trans hok)
    · have hfirst := ensureDirectory_made h
      rw [Action.after_of_error hensure] at hfirst
      have hv := hfirst.freeStart h
      obtain ⟨a, w, hparent, hlast⟩ := bind_eq_ok (heq.symm.trans hok)
      have hmade := makeMissing_made steps (hv.parent? hq)
      rw [Action.after_of_ok hparent] at hmade
      exact ensureDirectory_reached (hmade.freeStart hv) hlast

/-- **Making the directories of a path changes nothing else**, also where it fails. -/
theorem makeDirectories_made (h : FreeStart t working p) :
    Made (t.wayTo working p).stops t ((makeDirectories working p).after t) :=
  makeMissing_made _ h

/-- **If the directories of a path were made, the path leads to a directory.** -/
theorem makeDirectories_reached (h : FreeStart t working p) (hp : p.isEmpty = false)
    (hok : makeDirectories working p t = .ok () u) : Reached u working p :=
  makeMissing_reached _ h hp hok

theorem makeParents_made (h : FreeStart t working p) :
    Made (t.wayTo working p).stops t ((makeParents working p).after t) := by
  rw [makeParents]
  split
  · next q hq =>
    exact (makeDirectories_made (h.parent? hq)).mono fun x hx =>
      stops_subset_of_parent? t working hq hx
  · exact Made.refl _ t

end Directories

/-! ## Reading files -/

section Read

variable {t u : FileTree} {working : Location} {p : Path} {s : String} {e : FileError}

theorem readText_eq_ok [Disk] (h : readText working p t = .ok s u) :
    u = t ∧ t.textAt working p = .ok s := by
  obtain ⟨⟨location, node⟩, v, hfind, hread⟩ := bind_eq_ok h
  obtain ⟨-, rfl⟩ := answer_eq_ok hfind
  obtain ⟨_, w, hask, htext⟩ := bind_eq_ok hread
  obtain rfl := ask_eq_ok hask
  obtain ⟨htext, rfl⟩ := answer_eq_ok htext
  exact ⟨rfl, htext⟩

theorem readText_error [Disk] (h : readText working p t = .error e u) : u = t := by
  rw [← Action.after_of_error h]
  refine after_bind (P := (· = t)) after_answer fun found v hfind => ?_
  obtain ⟨-, rfl⟩ := answer_eq_ok hfind
  refine after_bind (P := (· = v)) after_ask fun _ w hask => ?_
  obtain rfl := ask_eq_ok hask
  exact after_answer

/-- On a sound disk, a text is read as the tree has it. -/
theorem readText_sound (working : Location) (p : Path) (t : FileTree) :
    readText working p t = answer (fun root => textAt root working p) t := by
  cases hfind : find t working true p with
  | error e =>
    rw [readText, bind_of_error (answer_of_error hfind), answer_of_error (e := e)]
    rw [textAt, bytesAt, hfind]
    rfl
  | ok found =>
    rw [readText, bind_of_ok (answer_of_ok hfind)]
    rfl

/-- On a sound disk, reading a text gives the same in two trees that have the same there. -/
theorem readText_congr (h : u.textAt working p = t.textAt working p) :
    (∀ s, readText working p t = .ok s t → readText working p u = .ok s u) ∧
      ∀ e, readText working p t = .error e t → readText working p u = .error e u := by
  simp only [readText_sound, answer, h]
  cases t.textAt working p with
  | ok text => exact ⟨fun s hs => by cases hs; rfl, fun e he => by cases he⟩
  | error cause => exact ⟨fun s hs => (by cases hs), fun e he => by cases he; rfl⟩

end Read

/-! ## Writing files -/

/-- A location that has a file, or where one can be made. -/
structure Writable (t : FileTree) (location : Location) : Prop where
  entry : ∃ above name, location = above ++ [name] ∧ t.node? above = some .directory ∧
    (t.node? location = none → Path.IsName name)
  leaf : t.node? location ≠ some .directory

section Files

variable {t u : FileTree} {working location : Location} {p source target : Path} {e : FileError}
variable {content : Bytes} {mode : Nat} {permissions : Option Nat}

/-- **A file that is written is the only change.** -/
theorem Writable.node?_update (h : Writable t location) (mode : Nat) (content : Bytes)
    (x : Location) :
    (t.update (some (.file mode content)) location).node? x =
      if x = location then some (.file mode content) else t.node? x := by
  obtain ⟨above, name, rfl, habove, -⟩ := h.entry
  exact node?_update_leaf habove (fun _ => node?_file) (fun _ => node?_append_eq_none h.leaf) x

theorem Writable.update (h : Writable t location) (mode : Nat) (content : Bytes) :
    Writable (t.update (some (.file mode content)) location) location := by
  obtain ⟨above, name, hlocation, habove, -⟩ := h.entry
  refine ⟨⟨above, name, hlocation, ?_, fun hnone => ?_⟩, ?_⟩
  · rw [h.node?_update, if_neg, habove]
    rw [hlocation]
    simp
  · rw [h.node?_update, if_pos rfl] at hnone
    cases hnone
  · rw [h.node?_update, if_pos rfl]
    simp

/-- A file that is opened for writing is at the end of the way of its path, and can be written. -/
theorem of_openTarget (h : FreeStart t working p)
    (hopen : openTarget t working p = .ok (location, permissions)) :
    (t.wayTo working p).goal = some location ∧ Writable t location ∧
      ∀ mode content, t.node? location = some (.file mode content) → permissions = some mode := by
  rw [openTarget] at hopen
  split at hopen
  · cases hentry : locateEntry t working p <;> rw [hentry] at hopen <;> cases hopen
  · cases hlocate : locate t working true p with
    | error e => rw [hlocate] at hopen; cases hopen
    | ok place =>
      rw [hlocate] at hopen
      cases place with
      | present x found =>
        have hfound := of_locate_present h hlocate
        cases found with
        | file mode content =>
          cases hopen
          have hnode : t.node? location = some (.file mode content) := node?_eq_some hfound.get
          refine ⟨hfound.goal, ⟨?_, by rw [hnode]; simp⟩, fun mode' content' hfile => ?_⟩
          · rcases List.eq_nil_or_concat location with rfl | ⟨above, name, hlocation⟩
            · rw [h.root] at hnode
              cases hnode
            · rw [List.concat_eq_append] at hlocation
              refine ⟨above, name, hlocation, ?_, fun hnone => ?_⟩
              · exact node?_of_node?_append (List.cons_ne_nil name [])
                  (by rw [← hlocation, hnode]; simp)
              · rw [hnode] at hnone
                cases hnone
          · rw [hnode] at hfile
            cases hfile
            rfl
        | link | directory => cases hopen
      | absent above name slash =>
        have hmissing := of_locate_absent h hlocate
        cases slash with
        | false =>
          cases hopen
          refine ⟨hmissing.goal, ⟨⟨above, name, rfl, hmissing.directory, fun _ => hmissing.isName⟩,
            by rw [hmissing.gone]; simp⟩, fun mode content hfile => ?_⟩
          rw [hmissing.gone] at hfile
          cases hfile
        | true => cases hopen

/-- A file was written at the end of the way of a path, and nothing else was changed. -/
structure Wrote (t u : FileTree) (working : Location) (p : Path) (location : Location)
    (mode : Nat) (content : Bytes) : Prop where
  goal : (t.wayTo working p).goal = some location
  writable : Writable t location
  node : ∀ x, u.node? x = if x = location then some (.file mode content) else t.node? x

variable [Disk]

/-- **Writing a file fails before it changes anything, or it writes the file**, of which the end may
be missing if it fails then.  A file that was there keeps its permissions. -/
theorem overwrite_cases (hp : FreeStart t working p) (content : Bytes) :
    (∃ e, overwrite working p content t = .error e t) ∨ ∃ location mode,
      (∀ mode' content', t.node? location = some (.file mode' content') → mode = mode') ∧
      ((∃ u, Wrote t u working p location mode content ∧ overwrite working p content t = .ok () u) ∨
        ∃ e u cut, Disk.Cut content cut ∧ Wrote t u working p location mode cut ∧
          overwrite working p content t = .error e u) := by
  cases hopen : openTarget t working p with
  | error e => exact .inl ⟨e, by rw [overwrite, bind_of_error (answer_of_error hopen)]⟩
  | ok opened =>
    obtain ⟨location, permissions⟩ := opened
    obtain ⟨hgoal, hwritable, hmode⟩ := of_openTarget hp hopen
    rw [overwrite, bind_of_ok (answer_of_ok hopen)]
    dsimp only
    rcases ask_cases (.openFile location) t with ⟨e, -, hask⟩ | hask
    · exact .inl ⟨e, bind_of_error hask⟩
    · have hput : ∀ left, Wrote t (t.update (some (.file (permissions.getD newFileMode) left))
          location) working p location (permissions.getD newFileMode) left := fun left =>
        ⟨hgoal, hwritable, fun x => hwritable.node?_update _ _ x⟩
      refine .inr ⟨location, permissions.getD newFileMode, fun mode content hfile => ?_, ?_⟩
      · rw [hmode mode content hfile]
        rfl
      · rw [bind_of_ok hask]
        rcases write_cases location (permissions.getD newFileMode) content t with
          hwrite | ⟨cut, e, hcut, -, hwrite⟩
        · exact .inl ⟨_, hput content, hwrite⟩
        · exact .inr ⟨e, _, cut, hcut, hput cut, hwrite⟩

theorem overwrite_ok (hp : FreeStart t working p) (h : overwrite working p content t = .ok () u) :
    ∃ location mode, Wrote t u working p location mode content ∧
      ∀ mode' content', t.node? location = some (.file mode' content') → mode = mode' := by
  rcases overwrite_cases hp content with
    ⟨e, he⟩ | ⟨location, mode, hmode, ⟨v, hwrote, hok⟩ | ⟨e, v, cut, -, -, he⟩⟩
  · rw [he] at h
    cases h
  · rw [hok] at h
    cases h
    exact ⟨location, mode, hwrote, hmode⟩
  · rw [he] at h
    cases h

/-- A file whose writing failed is as it was, or what is left of it was written. -/
theorem overwrite_error (hp : FreeStart t working p)
    (h : overwrite working p content t = .error e u) :
    u = t ∨ ∃ location mode cut, Disk.Cut content cut ∧ Wrote t u working p location mode cut ∧
      ∀ mode' content', t.node? location = some (.file mode' content') → mode = mode' := by
  rcases overwrite_cases hp content with
    ⟨e', he⟩ | ⟨location, mode, hmode, ⟨v, -, hok⟩ | ⟨e', v, cut, hcut, hwrote, he⟩⟩
  · rw [he] at h
    cases h
    exact .inl rfl
  · rw [hok] at h
    cases h
  · rw [he] at h
    cases h
    exact .inr ⟨location, mode, cut, hcut, hwrote, hmode⟩

/-- A property that is kept by putting a file where it is opened is kept by writing it, also where
that fails. -/
theorem after_overwrite {P : FileTree → Prop} (ht : P t)
    (hput : ∀ location permissions mode left,
      openTarget t working p = .ok (location, permissions) →
      P (t.update (some (.file mode left)) location)) :
    P ((overwrite working p content).after t) := by
  refine after_bind (by rwa [after_answer]) fun opened u hopen => ?_
  obtain ⟨hopen, rfl⟩ := answer_eq_ok hopen
  refine after_bind (by rwa [after_ask]) fun _ v hask => ?_
  obtain rfl := ask_eq_ok hask
  exact after_write fun left _ => hput opened.1 opened.2 _ left hopen

/-- A property that is kept by putting a file where the target is opened is kept by copying, also
where that fails. -/
theorem after_copyOver {P : FileTree → Prop} (ht : P t)
    (hput : ∀ u there permissions mode left,
      openTarget t working target = .ok (there, permissions) → P u →
      P (u.update (some (.file mode left)) there)) :
    P ((copyOver working source target).after t) := by
  refine after_bind (by rwa [after_answer]) fun found u hfind => ?_
  obtain ⟨-, rfl⟩ := answer_eq_ok hfind
  obtain ⟨here, node⟩ := found
  refine after_bind (by rwa [after_ask]) fun _ v hread => ?_
  obtain rfl := ask_eq_ok hread
  cases node with
  | link | directory => exact ht
  | file mode content =>
    refine after_bind (by rwa [after_answer]) fun opened w hopen => ?_
    obtain ⟨hopen, rfl⟩ := answer_eq_ok hopen
    obtain ⟨there, permissions⟩ := opened
    refine after_bind (by rwa [after_ask]) fun _ x hask => ?_
    obtain rfl := ask_eq_ok hask
    have hempty := hput x there permissions mode [] hopen ht
    refine after_bind hempty fun _ y hplace => ?_
    cases hplace
    refine after_bind (by rwa [after_answer]) fun left z hread => ?_
    obtain ⟨-, rfl⟩ := answer_eq_ok hread
    have hwritten : P ((write there mode left).after (x.update (some (.file mode [])) there)) :=
      after_write fun cut _ => hput _ there permissions mode cut hopen hempty
    refine after_bind hwritten fun _ y hwrite => ?_
    rwa [← Action.after_of_ok hwrite]

/-- Once both files are opened, what is left of the source is written to the target. -/
theorem copyOver_of_opened {here there : Location} {left : Bytes} {found : Nat}
    (hfind : find t working true source = .ok (here, .file mode content))
    (hread : ask (.read here) t = .ok () t)
    (hopen : openTarget t working target = .ok (there, permissions))
    (hask : ask (.openFile there) t = .ok () t)
    (hget : (t.update (some (.file mode [])) there).get? here = some (.file found left)) :
    copyOver working source target t =
      (write there mode left >>= fun _ => pure left.length)
        (t.update (some (.file mode [])) there) := by
  rw [copyOver, bind_of_ok (answer_of_ok hfind)]
  refine (bind_of_ok hread).trans ((bind_of_ok (answer_of_ok hopen)).trans ?_)
  refine (bind_of_ok hask).trans ((bind_of_ok place_eq_ok).trans ?_)
  exact bind_of_ok (answer_of_ok (by rw [hget]))

/-- **Copying a file fails before it changes anything, or it writes the target**, of which the end
may be missing if it fails then.  A file that is copied to itself is emptied. -/
theorem copyOver_cases (hs : FreeStart t working source) (hp : FreeStart t working target) :
    (∃ e, copyOver working source target t = .error e t) ∨
      ∃ here mode content there, find t working true source = .ok (here, .file mode content) ∧
        ((∃ n u, Wrote t u working target there mode (if here = there then [] else content) ∧
            copyOver working source target t = .ok n u) ∨
          ∃ e u cut, Disk.Cut (if here = there then [] else content) cut ∧
            Wrote t u working target there mode cut ∧
            copyOver working source target t = .error e u) := by
  cases hfind : find t working true source with
  | error e => exact .inl ⟨e, by rw [copyOver, bind_of_error (answer_of_error hfind)]⟩
  | ok found =>
    obtain ⟨here, found⟩ := found
    rcases ask_cases (.read here) t with ⟨e, -, hread⟩ | hread
    · refine .inl ⟨e, ?_⟩
      rw [copyOver, bind_of_ok (answer_of_ok hfind)]
      exact bind_of_error hread
    cases found with
    | link | directory =>
      refine .inl ⟨.notRegular, ?_⟩
      rw [copyOver, bind_of_ok (answer_of_ok hfind)]
      exact bind_of_ok hread
    | file mode content =>
      cases hopen : openTarget t working target with
      | error e =>
        refine .inl ⟨e, ?_⟩
        rw [copyOver, bind_of_ok (answer_of_ok hfind)]
        exact (bind_of_ok hread).trans (bind_of_error (answer_of_error hopen))
      | ok opened =>
        obtain ⟨there, permissions⟩ := opened
        rcases ask_cases (.openFile there) t with ⟨e, -, hask⟩ | hask
        · refine .inl ⟨e, ?_⟩
          rw [copyOver, bind_of_ok (answer_of_ok hfind)]
          exact (bind_of_ok hread).trans
            ((bind_of_ok (answer_of_ok hopen)).trans (bind_of_error hask))
        obtain ⟨hgoal, hwritable, -⟩ := of_openTarget hp hopen
        -- between the two steps the target is empty, which only matters if it is the source
        have hnode : (t.update (some (.file mode [])) there).node? here =
            some (.file mode (if here = there then [] else content)) := by
          rw [hwritable.node?_update]
          split
          · rfl
          · exact node?_eq_some (of_find hs hfind).get
        obtain ⟨s, hget, hs⟩ := exists_get?_of_node? hnode
        obtain rfl : s = .file mode (if here = there then [] else content) := by
          cases s <;> simp_all [node]
        refine .inr ⟨here, mode, content, there, rfl, ?_⟩
        rw [copyOver_of_opened hfind hread hopen hask hget]
        generalize (if here = there then [] else content) = left
        have hput : ∀ cut, Wrote t ((t.update (some (.file mode [])) there).update
            (some (.file mode cut)) there) working target there mode cut := fun cut =>
          ⟨hgoal, hwritable, fun x => by
            rw [(hwritable.update mode []).node?_update, hwritable.node?_update]
            split <;> rfl⟩
        rcases write_cases there mode left (t.update (some (.file mode [])) there) with
          hwrite | ⟨cut, e, hcut, -, hwrite⟩
        · exact .inl ⟨left.length, _, hput left, bind_of_ok hwrite⟩
        · exact .inr ⟨e, _, cut, hcut, hput cut, bind_of_error hwrite⟩

end Files

end FileTree
end KernelRegistry
