import KernelRegistry.Proofs.FileTree.Sound

/-!
# What removing does

What is in a directory is removed entry by entry, and the disk may refuse any of the steps.  On a
sound disk the directory is emptied at once, as far as can be seen from outside.

* `FileTree.OnlyRemoved` — nothing was done but to remove what is at or below a location;
  `after_removeEntries` carries this, and anything like it, through the steps.
* `removeEntries_sound` — on a sound disk, removing all entries of a directory empties it.
* `FileTree.Cleared` — nothing is left below a location, and nothing else has changed.
* `removeAll_cases` — **removing what exists at a path clears the place, or it fails after a part
  of it was removed**.
* `removeAll_directory` — a directory is left there only if there was one.
-/

set_option autoImplicit false
namespace KernelRegistry

open Text (Bytes)

namespace FileTree

theorem lastSegment_join (base : Path) {name : Bytes} (h : Path.IsName name) :
    lastSegment (base.join ⟨name⟩) = name := by
  obtain ⟨before, hsegments, -⟩ := Path.segments_join base h
  rw [lastSegment, Path.dropSlashes_join base h, hsegments]
  simp

/-! ## Removing entry by entry -/

/-- Nothing was done but to remove what is at or below a place.  This holds of a removal at each of
its steps, so also of one that the disk stops midway. -/
structure OnlyRemoved (t u : FileTree) (location : Location) : Prop where
  elsewhere : ∀ x, ¬ location <+: x → u.node? x = t.node? x
  left : ∀ x, u.node? x = none ∨ u.node? x = t.node? x

section Entries

variable {t u v : FileTree} {location x : Location} {name : Bytes}

theorem OnlyRemoved.refl (t : FileTree) (location : Location) : OnlyRemoved t t location :=
  ⟨fun _ _ => rfl, fun _ => .inr rfl⟩

theorem OnlyRemoved.trans (h : OnlyRemoved t u location) (h' : OnlyRemoved u v location) :
    OnlyRemoved t v location := by
  refine ⟨fun x hx => (h'.elsewhere x hx).trans (h.elsewhere x hx), fun x => ?_⟩
  rcases h'.left x with hnone | hsame
  · exact .inl hnone
  · rw [hsame]
    exact h.left x

/-- Removing one thing at or below a place is a removal there. -/
theorem onlyRemoved_update (hx : location <+: x) : OnlyRemoved t (t.update none x) location := by
  refine ⟨fun y hy => node?_update_elsewhere fun hxy => hy (hx.trans hxy), fun y => ?_⟩
  by_cases hy : x <+: y
  · by_cases hthere : t.get? x = none
    · rw [update_none_eq_self hthere]
      exact .inr rfl
    rcases List.eq_nil_or_concat x with rfl | ⟨above, name, rfl⟩
    · exact .inr rfl
    rw [List.concat_eq_append] at hthere hy ⊢
    obtain ⟨rest, rfl⟩ := hy
    have habove : t.node? above = some .directory :=
      node?_of_node?_append (List.cons_ne_nil name []) (mt node?_eq_none_iff.1 hthere)
    refine .inl (node?_eq_none_iff.2 ?_)
    rw [List.append_assoc, List.singleton_append, get?_update_append habove]
    rfl
  · exact .inr (node?_update_elsewhere hy)

theorem after_askRemove [Disk] {P : FileTree → Prop} (call : Call)
    (hstep : P t → P (t.update none location)) (ht : P t) :
    P ((ask call >>= fun _ => place location none).after t) := by
  refine after_bind (by rwa [after_ask]) fun _ u hask => ?_
  obtain rfl := ask_eq_ok hask
  exact hstep ht

mutual

/-- A property that removing one thing keeps is kept by removing all that is in something, also
where the disk stops it. -/
theorem after_removeNode [Disk] {P : FileTree → Prop} (location : Location) (node : FileTree)
    (hstep : ∀ x u, location <+: x → P u → P (u.update none x)) {t : FileTree} (ht : P t) :
    P ((removeNode location node).after t) := by
  match node with
  | .directory entries =>
    rw [removeNode]
    refine after_bind (by rwa [after_ask]) fun _ u hread => ?_
    obtain rfl := ask_eq_ok hread
    have hentries := after_removeEntries location entries hstep ht
    refine after_bind hentries fun _ v hok => ?_
    rw [Action.after_of_ok hok] at hentries
    exact after_askRemove _ (hstep location v (List.prefix_refl location)) hentries
  | .file mode content => exact after_askRemove _ (hstep location t (List.prefix_refl location)) ht
  | .link target => exact after_askRemove _ (hstep location t (List.prefix_refl location)) ht

theorem after_removeEntries [Disk] {P : FileTree → Prop} (location : Location)
    (entries : List (Bytes × FileTree))
    (hstep : ∀ x u, location <+: x → P u → P (u.update none x)) {t : FileTree} (ht : P t) :
    P ((removeNode.removeEntries location entries).after t) := by
  match entries with
  | [] => exact ht
  | (name, node) :: rest =>
    have hnode := after_removeNode (location ++ [name]) node
      (fun x u hx => hstep x u ((List.prefix_append location [name]).trans hx)) ht
    rw [removeNode.removeEntries]
    refine after_bind hnode fun _ u hok => ?_
    rw [Action.after_of_ok hok] at hnode
    exact after_removeEntries location rest hstep hnode

end

/-! ### On a sound disk -/

theorem removeNode_directory (location : Location) (entries : List (Bytes × FileTree))
    (t : FileTree) : removeNode location (directory entries) t =
      (removeNode.removeEntries location entries >>= fun _ => place location none) t :=
  rfl

theorem removeEntries_cons (location : Location) (name : Bytes) (node : FileTree)
    (rest : List (Bytes × FileTree)) (t : FileTree) :
    removeNode.removeEntries location ((name, node) :: rest) t =
      (removeNode (location ++ [name]) node >>= fun _ =>
        removeNode.removeEntries location rest) t :=
  rfl

mutual

/-- Removing what is not there does nothing. -/
theorem removeNode_missing (location : Location) (node : FileTree) (t : FileTree)
    (h : t.get? location = none) : removeNode location node t = .ok () t := by
  match node with
  | .directory entries =>
    rw [removeNode_directory, bind_of_ok (removeEntries_missing location entries t h),
      place_eq_ok, update_none_eq_self h]
  | .file mode content => exact congrArg (EStateM.Result.ok ()) (update_none_eq_self h)
  | .link target => exact congrArg (EStateM.Result.ok ()) (update_none_eq_self h)

theorem removeEntries_missing (location : Location) (entries : List (Bytes × FileTree))
    (t : FileTree) (h : t.get? location = none) :
    removeNode.removeEntries location entries t = .ok () t := by
  match entries with
  | [] => rfl
  | (name, node) :: rest =>
    have hmissing : t.get? (location ++ [name]) = none := by rw [get?_append, h]; rfl
    rw [removeEntries_cons, bind_of_ok (removeNode_missing (location ++ [name]) node t hmissing)]
    exact removeEntries_missing location rest t h

end

/-- The entries without those that have the name of another entry. -/
def withoutEntries (names entries : List (Bytes × FileTree)) : List (Bytes × FileTree) :=
  names.foldl (fun left e => removeEntry e.1 left) entries

theorem mem_withoutEntries {names entries : List (Bytes × FileTree)} {e : Bytes × FileTree}
    (h : e ∈ withoutEntries names entries) : e ∈ entries ∧ e.1 ∉ names.map Prod.fst := by
  induction names generalizing entries with
  | nil => exact ⟨h, by simp⟩
  | cons first rest ih =>
    obtain ⟨hmem, hrest⟩ := ih h
    simp only [removeEntry, List.mem_filter] at hmem
    refine ⟨hmem.1, ?_⟩
    rw [List.map_cons, List.mem_cons, not_or]
    exact ⟨by simpa using hmem.2, hrest⟩

theorem withoutEntries_self (entries : List (Bytes × FileTree)) :
    withoutEntries entries entries = [] :=
  List.eq_nil_iff_forall_not_mem.2 fun _ he =>
    (mem_withoutEntries he).2 (List.mem_map_of_mem (mem_withoutEntries he).1)

mutual

/-- **Removing something entry by entry removes it.** -/
theorem removeNode_sound (location : Location) (node : FileTree) (t : FileTree)
    (hne : location ≠ []) (h : t.get? location = some node) :
    removeNode location node t = .ok () (t.update none location) := by
  match node with
  | .directory entries =>
    rw [removeNode_directory,
      bind_of_ok (removeEntries_sound location entries entries t h fun _ => .inl rfl),
      place_eq_ok, update_update _ hne]
  | .file mode content => rfl
  | .link target => rfl

/-- Removing some entries of a directory takes them out of it.  Of two entries with one name, the
second one is gone when its turn comes. -/
theorem removeEntries_sound (location : Location) (names : List (Bytes × FileTree))
    (entries : List (Bytes × FileTree)) (t : FileTree)
    (h : t.get? location = some (directory entries))
    (hnames : ∀ name, child? name entries = child? name names ∨ child? name entries = none) :
    removeNode.removeEntries location names t =
      .ok () (t.update (some (directory (withoutEntries names entries))) location) := by
  match names with
  | [] => rw [withoutEntries, List.foldl_nil, update_self h]; rfl
  | (name, node) :: rest =>
    have hchild : t.get? (location ++ [name]) = child? name entries := by
      rw [get?_append, h, Option.bind_some, get?_directory_cons]
      cases child? name entries <;> simp
    have hremove : removeNode (location ++ [name]) node t =
        .ok () (t.update (some (directory (removeEntry name entries))) location) := by
      rcases hnames name with hthere | hmissing
      · rw [child?, if_pos rfl] at hthere
        rw [removeNode_sound _ node t (by simp) (hchild.trans hthere),
          update_append h (List.cons_ne_nil name [])]
        rfl
      · rw [removeNode_missing _ node t (hchild.trans hmissing), removeEntry_eq_self hmissing,
          update_self h]
    rw [removeEntries_cons, bind_of_ok hremove]
    have hleft : (t.update (some (directory (removeEntry name entries))) location).get? location =
        some (directory (removeEntry name entries)) := by
      rcases List.eq_nil_or_concat location with rfl | ⟨above, last, rfl⟩
      · rfl
      rw [List.concat_eq_append] at h ⊢
      have habove : t.node? above = some .directory :=
        node?_of_node?_append (List.cons_ne_nil last []) (by rw [node?_eq_some h]; simp)
      rw [get?_update_append habove, Option.bind_some, get?_nil]
    rw [removeEntries_sound location rest (removeEntry name entries) _ hleft fun other => ?_]
    · by_cases hnil : location = []
      · subst hnil
        rfl
      · rw [update_update _ hnil]
        rfl
    · rw [child?_removeEntry]
      split
      · exact .inr rfl
      · next hother =>
        have := hnames other
        rwa [child?, if_neg hother] at this

end

/-- **Once all entries of a directory were removed, it is empty.** -/
theorem removeEntries_ok [Disk] {entries : List (Bytes × FileTree)}
    (h : t.get? location = some (.directory entries))
    (hok : removeNode.removeEntries location entries t = .ok () u) :
    u = t.update (some (.directory [])) location := by
  have hsound := (Action.EqOrRefused.removeEntries location entries t).of_ok hok
  rw [removeEntries_sound location entries entries t h fun _ => .inl rfl,
    withoutEntries_self] at hsound
  cases hsound
  rfl

/-- **On a sound disk, the directory at a path is emptied at once**, and removed if the path still
leads there. -/
theorem removeDirectory_apply {working : Location} {p : Path} {entries : List (Bytes × FileTree)}
    (h : t.get? location = some (.directory entries)) :
    removeDirectory working location entries p t =
      match removeEmpty working p (t.update (some (.directory [])) location) with
      | .error .notFound u => .ok () u
      | done => done := by
  have hentries := removeEntries_sound location entries entries t h fun _ => .inl rfl
  rw [withoutEntries_self] at hentries
  exact bind_of_ok (s := t) hentries

end Entries

/-! ## Clearing a place -/

/-- Nothing is left below a location, at most an empty directory is left there, and nothing else
has changed. -/
structure Cleared (t c : FileTree) (destination : Location) : Prop where
  elsewhere : ∀ x, ¬ destination <+: x → c.node? x = t.node? x
  below : ∀ x, destination <+: x → c.node? x = none ∨ x = destination ∧ c.node? x = some .directory

section Removal

variable {t u : FileTree} {working above : Location} {p : Path} {name : Bytes}

theorem cleared_of_update (h : t.node? above = some .directory) :
    Cleared t (t.update none (above ++ [name])) (above ++ [name]) := by
  refine ⟨fun x hx => node?_update_elsewhere hx, fun x hx => .inl ?_⟩
  obtain ⟨rest, rfl⟩ := hx
  rw [node?_eq_none_iff, List.append_assoc, List.singleton_append, get?_update_append h]
  rfl

theorem emptied_of_update (h : t.node? (above ++ [name]) = some .directory) :
    Emptied t (t.update (some (.directory [])) (above ++ [name])) (above ++ [name]) := by
  have habove : t.node? above = some .directory :=
    node?_of_node?_append (List.cons_ne_nil name []) (by rw [h]; simp)
  refine ⟨h, ?_, fun x hx => node?_update_elsewhere hx⟩
  have hput : (t.update (some (.directory [])) (above ++ [name])).get? (above ++ name :: []) =
      (some (FileTree.directory [])).bind (·.get? []) := get?_update_append habove name []
  rwa [Option.bind_some, get?_nil] at hput

theorem Emptied.cleared {destination : Location} (h : Emptied t u destination) :
    Cleared t u destination := by
  refine ⟨h.elsewhere, fun x hx => ?_⟩
  by_cases hne : destination = x
  · exact .inr ⟨hne.symm, hne ▸ h.directory⟩
  · exact .inl (h.inside hx hne)

theorem Cleared.trans {c d : FileTree} {destination : Location} (h : Cleared t c destination)
    (h' : Cleared c d destination) : Cleared t d destination :=
  ⟨fun x hx => (h'.elsewhere x hx).trans (h.elsewhere x hx), h'.below⟩

theorem Emptied.onlyRemoved {destination : Location} (h : Emptied t u destination) :
    OnlyRemoved t u destination := by
  refine ⟨h.elsewhere, fun x => ?_⟩
  by_cases hx : destination <+: x
  · by_cases hne : destination = x
    · subst hne
      exact .inr (h.directory.trans h.before.symm)
    · exact .inl (h.inside hx hne)
  · exact .inr (h.elsewhere x hx)

variable [Disk]

theorem removeEmpty_of_error {e : FileError}
    (hlocate : locate u working false (dropSlashes p) = .error e) :
    removeEmpty working p u = .error e u := by
  rw [removeEmpty, bind_of_error (answer_of_error hlocate)]

theorem removeEmpty_of_empty (hname : Path.IsName name) {location : Location}
    (hlocate : locate u working false (p.join ⟨name⟩) = .ok (.present location (.directory []))) :
    removeEmpty working (p.join ⟨name⟩) u =
      (ask (.removeDirectory location) >>= fun _ => place location none) u := by
  rw [← Path.dropSlashes_join p hname] at hlocate
  rw [removeEmpty, bind_of_ok (answer_of_ok hlocate), lastSegment_join p hname]
  simp only [if_neg hname.notDot, if_neg hname.notDots]

/-- Once everything in the directory at a path was removed, the directory itself is, unless the
path does not lead there any more. -/
theorem removeEmptied_cases (h : FreeStart t working p) (hname : Path.IsName name)
    {location : Location} {entries : List (Bytes × FileTree)}
    (hfind : find t working false (p.join ⟨name⟩) = .ok (location, .directory entries))
    (hempty : Emptied t u location) :
    (∃ e, Disk.Refuses e ∧ removeEmpty working (p.join ⟨name⟩) u = .error e u) ∨
      (Cleared t (u.update none location) location ∧
        removeEmpty working (p.join ⟨name⟩) u = .ok () (u.update none location)) ∨
      removeEmpty working (p.join ⟨name⟩) u = .error .notFound u := by
  obtain ⟨parent, -, rfl, hget⟩ := of_find_join h hname hfind
  have hroot := (hempty.elsewhere [] (by simp)).trans h.root
  have hdirectory := hempty.directory
  rcases locate_join_emptied h hname hfind hroot hempty with hlocate | hlocate
  · rw [removeEmpty_of_empty hname hlocate]
    rcases ask_cases (.removeDirectory (parent ++ [name])) u with ⟨e, he, hask⟩ | hask
    · exact .inl ⟨e, he, bind_of_error hask⟩
    · have hparent := node?_of_node?_append (List.cons_ne_nil name []) (t := u) (a := parent)
        (by rw [hdirectory]; simp)
      exact .inr (.inl ⟨hempty.cleared.trans (cleared_of_update hparent), bind_of_ok hask⟩)
  · rw [← Path.dropSlashes_join p hname] at hlocate
    exact .inr (.inr (removeEmpty_of_error hlocate))

/-- Removing the directory at a path ends with the place cleared, whether the path still leads
there or not once it is empty.  If the disk refuses a part of it, the rest stays. -/
theorem removeDirectory_cases (h : FreeStart t working p) (hname : Path.IsName name)
    {location : Location} {entries : List (Bytes × FileTree)}
    (hfind : find t working false (p.join ⟨name⟩) = .ok (location, .directory entries)) :
    (∃ e u, Disk.Refuses e ∧ OnlyRemoved t u location ∧
        removeDirectory working location entries (p.join ⟨name⟩) t = .error e u) ∨
      ∃ c, Cleared t c location ∧
        removeDirectory working location entries (p.join ⟨name⟩) t = .ok () c := by
  obtain ⟨parent, -, rfl, hget⟩ := of_find_join h hname hfind
  have hempty := emptied_of_update (node?_eq_some hget)
  rcases ask_cases (.read (parent ++ [name])) t with ⟨e, he, hask⟩ | hask
  · exact .inl ⟨e, t, he, .refl t _, bind_of_error hask⟩
  have hremove := removeEntries_sound (parent ++ [name]) entries entries t hget fun _ => .inl rfl
  rw [withoutEntries_self] at hremove
  rcases Action.EqOrRefused.removeEntries (parent ++ [name]) entries t with
    heq | ⟨e, u, he, herror⟩
  · have hentries := heq.trans hremove
    have hrun : removeDirectory working (parent ++ [name]) entries (p.join ⟨name⟩) t =
        match removeEmpty working (p.join ⟨name⟩)
            (t.update (some (.directory [])) (parent ++ [name])) with
        | .error .notFound u => .ok () u
        | done => done := (bind_of_ok hask).trans (bind_of_ok hentries)
    rw [hrun]
    rcases removeEmptied_cases h hname hfind hempty with
      ⟨e, he, herror⟩ | ⟨hcleared, hok⟩ | hgone
    · refine .inl ⟨e, _, he, hempty.onlyRemoved, ?_⟩
      rw [herror]
      cases e <;> first | rfl | exact absurd rfl he.ne_notFound
    · exact .inr ⟨_, hcleared, by rw [hok]⟩
    · exact .inr ⟨_, hempty.cleared, by rw [hgone]⟩
  · have hleft := after_removeEntries (P := fun u => OnlyRemoved t u (parent ++ [name]))
      (parent ++ [name]) entries (fun x u hx hu => hu.trans (onlyRemoved_update hx)) (.refl t _)
    rw [Action.after_of_error herror] at hleft
    exact .inl ⟨e, u, he, hleft, (bind_of_ok hask).trans (bind_of_error herror)⟩

/-- How a removal fails: there is a file and nothing is done, or the disk refuses something after a
part of what was there was removed. -/
inductive RemovalFails (t : FileTree) (location : Location) : FileError → FileTree → Prop
  | isFile : RemovalFails t location .notDirectory t
  | refused {e : FileError} {u : FileTree} (he : Disk.Refuses e) (h : OnlyRemoved t u location) :
      RemovalFails t location e u

theorem RemovalFails.onlyRemoved {location : Location} {e : FileError}
    (h : RemovalFails t location e u) : OnlyRemoved t u location := by
  cases h with
  | isFile => exact .refl t location
  | refused _ h => exact h

theorem RemovalFails.ne_notFound {location : Location} {e : FileError}
    (h : RemovalFails t location e u) : e ≠ .notFound := by
  cases h with
  | isFile => simp
  | refused he _ => exact he.ne_notFound

/-- Removing what a path ends at clears the place, or it fails. -/
theorem removeTree_cases (h : FreeStart t working p) (hname : Path.IsName name)
    {location : Location} {found : FileTree}
    (hfind : find t working false (p.join ⟨name⟩) = .ok (location, found)) :
    ∃ above, (t.wayTo working p).goal = some above ∧ t.node? (above ++ [name]) ≠ none ∧
      ((∃ e u, RemovalFails t (above ++ [name]) e u ∧
          removeTree working (p.join ⟨name⟩) t = .error e u) ∨
        ∃ c, Cleared t c (above ++ [name]) ∧ removeTree working (p.join ⟨name⟩) t = .ok () c) := by
  obtain ⟨above, hgoal, rfl, hget⟩ := of_find_join h hname hfind
  have hthere : t.node? (above ++ [name]) ≠ none := by rw [node?_eq_some hget]; simp
  have habove := node?_of_node?_append (List.cons_ne_nil name []) hthere
  refine ⟨above, hgoal, hthere, ?_⟩
  rw [removeTree, bind_of_ok (answer_of_ok hfind)]
  cases found with
  | file mode content => exact .inl ⟨_, t, .isFile, rfl⟩
  | link target =>
    rcases ask_cases (.unlink (above ++ [name])) t with ⟨e, he, hask⟩ | hask
    · exact .inl ⟨e, t, .refused he (.refl t _), bind_of_error hask⟩
    · exact .inr ⟨_, cleared_of_update habove, bind_of_ok hask⟩
  | directory entries =>
    rcases removeDirectory_cases h hname hfind with ⟨e, u, he, hleft, herror⟩ | hok
    · exact .inl ⟨e, u, .refused he hleft, herror⟩
    · exact .inr hok

/-- **Removing what exists at a path clears the place, or it fails after a part of it was
removed.** -/
theorem removeAll_cases (h : FreeStart t working p) (hname : Path.IsName name)
    (hexists : existsAt t working (p.join ⟨name⟩) = true) :
    ∃ above, (t.wayTo working p).goal = some above ∧ t.node? (above ++ [name]) ≠ none ∧
      ((∃ e u, RemovalFails t (above ++ [name]) e u ∧
          removeAll working (p.join ⟨name⟩) t = .error e u) ∨
        ∃ c, Cleared t c (above ++ [name]) ∧
          removeAll working (p.join ⟨name⟩) t = .ok true c) := by
  rw [existsAt] at hexists
  cases hfollow : find t working true (p.join ⟨name⟩) with
  | error e => rw [hfollow] at hexists; cases hexists
  | ok found =>
    obtain ⟨location, node, hfind⟩ := exists_find_of_follow hfollow
    obtain ⟨above, hgoal, hthere, ⟨e, u, hfails, herror⟩ | ⟨c, hcleared, hok⟩⟩ :=
      removeTree_cases h hname hfind
    · refine ⟨above, hgoal, hthere, .inl ⟨e, u, hfails, ?_⟩⟩
      rw [removeAll, herror]
      cases e <;> first | rfl | exact absurd rfl hfails.ne_notFound
    · exact ⟨above, hgoal, hthere, .inr ⟨c, hcleared, by rw [removeAll, hok]⟩⟩

theorem removeAll_error (h : FreeStart t working p) (hname : Path.IsName name)
    (hexists : existsAt t working (p.join ⟨name⟩) = true) {e : FileError}
    (herror : removeAll working (p.join ⟨name⟩) t = .error e u) :
    ∃ above, (t.wayTo working p).goal = some above ∧ RemovalFails t (above ++ [name]) e u := by
  obtain ⟨above, hgoal, -, ⟨e', u', hfails, herror'⟩ | ⟨c, -, hok⟩⟩ :=
    removeAll_cases h hname hexists
  · rw [herror'] at herror
    cases herror
    exact ⟨above, hgoal, hfails⟩
  · rw [hok] at herror
    cases herror

theorem removeAll_ok (h : FreeStart t working p) (hname : Path.IsName name) {removed : Bool}
    (hexists : existsAt t working (p.join ⟨name⟩) = true)
    (hok : removeAll working (p.join ⟨name⟩) t = .ok removed u) :
    removed = true ∧ ∃ above, (t.wayTo working p).goal = some above ∧
      t.node? (above ++ [name]) ≠ none ∧ Cleared t u (above ++ [name]) := by
  obtain ⟨above, hgoal, hthere, ⟨e, v, -, herror⟩ | ⟨c, hcleared, hremove⟩⟩ :=
    removeAll_cases h hname hexists
  · rw [herror] at hok
    cases hok
  · rw [hremove] at hok
    cases hok
    exact ⟨rfl, above, hgoal, hthere, hcleared⟩

/-- A directory that is left at the place was there before. -/
theorem removeAll_directory (h : FreeStart t working p) (hname : Path.IsName name) {removed : Bool}
    (hok : removeAll working (p.join ⟨name⟩) t = .ok removed u)
    (hgoal : (t.wayTo working p).goal = some above)
    (hleft : u.node? (above ++ [name]) = some .directory) :
    t.node? (above ++ [name]) = some .directory := by
  cases hfind : find t working false (p.join ⟨name⟩) with
  | error e =>
    have hremove : removeTree working (p.join ⟨name⟩) t = .error e t := by
      rw [removeTree, bind_of_error (answer_of_error hfind)]
    rw [removeAll, hremove] at hok
    cases e <;> cases hok
    exact hleft
  | ok found =>
    obtain ⟨above', hgoal', -, ⟨e, v, hfails, herror⟩ | ⟨c, -, hremove⟩⟩ :=
      removeTree_cases h hname hfind
    · rw [removeAll, herror] at hok
      cases e <;> first | exact absurd rfl hfails.ne_notFound | cases hok
    obtain ⟨above'', hgoal'', hlocation, hget⟩ := of_find_join h hname hfind
    obtain rfl : above = above'' := Option.some.inj (hgoal.symm.trans hgoal'')
    obtain ⟨location, found⟩ := found
    obtain rfl : location = above ++ [name] := hlocation
    have hthere := node?_eq_some hget
    rw [removeAll, hremove] at hok
    cases hok
    cases found with
    | directory entries => exact hthere
    | file mode content =>
      rw [removeTree, bind_of_ok (answer_of_ok hfind)] at hremove
      cases hremove
    | link target =>
      rw [removeTree, bind_of_ok (answer_of_ok hfind)] at hremove
      obtain ⟨_, v, hask, hplace⟩ := bind_eq_ok hremove
      obtain rfl := ask_eq_ok hask
      cases hplace
      have habove := node?_of_node?_append (List.cons_ne_nil name []) (by rw [hthere]; simp)
      rw [node?, get?_update_append habove] at hleft
      cases hleft

end Removal

/-- On a sound disk, a removal that fails has found a file and changed nothing. -/
theorem removalFails_sound {t u : FileTree} {location : Location} {e : FileError}
    (h : RemovalFails t location e u) : e = .notDirectory ∧ u = t := by
  cases h with
  | isFile => exact ⟨rfl, rfl⟩
  | refused he => exact absurd he Disk.not_refuses_sound

end FileTree
end KernelRegistry
