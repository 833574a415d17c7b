import Mathlib.Data.List.Induction
import KernelRegistry.Proofs.FileTree.Beforehand
import KernelRegistry.Proofs.FileTree.Filled
import KernelRegistry.Proofs.FileTree.ReadBack

/-!
# Paths that lead somewhere

What a path finds is at the end of its way.  This file is about the other direction: if everything
on the way is there, the path finds what is at its end, and the operations that follow it succeed.

* `FileTree.NamesFit` — the names in a tree are not too long for a file system.
* `walk_append` — **a walk goes on from the directory that its first part leads to**.
* `Leads.congr`, `find_congr` — trees that have the same on the way of a path give the same.
* `LeadsInto.find`, `LeadsInto.locate_of_none` — a path all of which is there, and one name further.
* `LeadsInto.makeDirectories`, `LeadsInto.makeDirectories_join`, `LeadsInto.copyFile` — **nothing is
  refused where a path leads into**, unless names are too long or something else is there.
-/

set_option autoImplicit false
namespace KernelRegistry
namespace FileTree

open Text (Bytes)

/-- No name is too long for a file system. -/
def NamesFit (t : FileTree) : Prop :=
  ∀ above name, t.node? (above ++ [name]) ≠ none → name.length ≤ nameLimit

/-! ## Walks -/

section Walk

variable {t u here found : FileTree} {follow : Bool} {links : Nat} {trail : List Bytes}
variable {pre more segments : List Bytes} {above here' location z : Location} {name : Bytes}

/-- **A walk goes on from the directory that its first part leads to**, if everything on the way is
there.  A link at the end of the first part is followed since the walk goes on. -/
theorem walk_append (ht : t.node? [] = some .directory) (hfits : t.NamesFit)
    (hstands : Stands t trail here)
    (hgoal : (way t.nodeAt links trail.reverse (counting pre)).goal = some z)
    (hz : t.node? z = some .directory)
    (hthere : ∀ y ∈ (way t.nodeAt links trail.reverse (counting pre)).stops, t.node? y ≠ none)
    (hmore : follow = true ∨ more ≠ []) :
    ∃ left trail' here', Stands t trail' here' ∧ trail'.reverse = z ∧
      walk t follow links trail here (pre ++ more) = walk t follow left trail' here' more := by
  have hgoes : ∀ rest : List Bytes, ¬ ((rest ++ more).isEmpty && !follow) = true := by
    intro rest
    rcases hmore with rfl | hmore <;> simp [*]
  induction links, trail, here, pre using walk_induction t true with
  | nil links trail here =>
    rw [counting, List.filter_nil, way_nil] at hgoal
    exact ⟨links, trail, here, hstands, Option.some.inj hgoal, rfl⟩
  | trivial links trail here name rest hname ih =>
    rw [counting_of_trivial hname] at hgoal hthere
    rw [List.cons_append, walk_trivial hname]
    exact ih hstands hgoal hthere
  | up links trail here rest ih =>
    rw [counting_dots, way_dots, dropLast_reverse] at hgoal hthere
    rw [List.cons_append, walk_dots rfl]
    exact ih hstands.up hgoal hthere
  | long links trail here name rest hcounts hdots hlong =>
    rw [counting_cons hcounts] at hthere
    have := hfits _ name (hthere _ (mem_stops_cons hdots ..))
    omega
  | missing links trail here name rest hname hchild =>
    exact absurd (hstands.node?_of_no_child hchild) (hthere _ hname.mem_stops)
  | stay links trail here name rest target hname hchild hfollow =>
    simp at hfollow
  | limit trail here name rest target hname hchild =>
    have hnode := hstands.node?_of_child hchild
    rw [hname.way_link_zero hnode] at hgoal
    cases hgoal
  | link links trail here name rest target hname hchild hfollow ih =>
    have hnode := hstands.node?_of_child hchild
    rw [hname.way_link_succ hnode, ← reverse_linkStart t trail here] at hgoal hthere
    rw [List.cons_append, walk_link_succ hname hchild (hgoes rest), ← List.append_assoc]
    exact ih (hstands.linkStart ht target) hgoal fun y hy => hthere y (List.mem_cons_of_mem _ hy)
  | file links trail here name rest mode content hname hchild =>
    have hnode := hstands.node?_of_child hchild
    rw [hname.way_file hnode] at hgoal
    obtain ⟨-, rfl⟩ : counting rest = [] ∧ trail.reverse ++ [name] = z := by simpa using hgoal
    rw [hnode] at hz
    cases hz
  | enter links trail here name rest entries hname hchild ih =>
    have hnode := hstands.node?_of_child hchild
    rw [hname.way_directory (nodeAt_of_node? hnode), ← List.reverse_cons] at hgoal hthere
    rw [List.cons_append, walk_directory hname hchild]
    exact ih (hstands.push hchild) hgoal fun y hy => hthere y (List.mem_cons_of_mem _ hy)

/-- **A walk finds the same in a tree that has the same on its way.** -/
theorem Leads.congr (h : Leads t true links above segments (.present location found))
    (hsame : ∀ y ∈ (way t.nodeAt links above (counting segments)).stops, u.node? y = t.node? y)
    (hu : u.node? [] = some .directory) (hstands : Stands u trail here)
    (htrail : trail.reverse = above) :
    ∃ found', walk u true links trail here segments = .ok (.present location found') ∧
      found'.node = found.node := by
  generalize hplace : Place.present location found = place at h
  induction h generalizing trail here with
  | done _ hfound =>
    cases hplace
    rw [walk_nil, htrail]
    exact ⟨here, rfl, hstands.directory.trans hfound.symm⟩
  | skip htrivial h ih =>
    rw [counting_of_trivial htrivial] at hsame
    rw [walk_trivial htrivial]
    exact ih hsame hstands htrail hplace
  | up h ih =>
    rw [counting_dots, way_dots] at hsame
    rw [walk_dots (by rfl)]
    exact ih hsame hstands.up (by rw [← dropLast_reverse, htrail]) hplace
  | missing => cases hplace
  | stay _ _ hfollow => cases hfollow
  | link hname hchild hfollow h ih =>
    subst htrail
    rw [hname.way_link_succ hchild] at hsame
    obtain ⟨trail', here', hstands', hstart, hwalk⟩ :=
      hstands.walk_of_link hu hname ((hsame _ List.mem_cons_self).trans hchild) hfollow
    rw [hwalk]
    exact ih (fun y hy => hsame y (List.mem_cons_of_mem _ hy)) hstands' hstart hplace
  | file hname hchild =>
    cases hplace
    subst htrail
    have hnode := node?_eq_some hchild
    rw [hname.way_file hnode] at hsame
    exact ⟨_, hstands.walk_of_file hname ((hsame _ List.mem_cons_self).trans hnode), rfl⟩
  | enter hname hchild h ih =>
    subst htrail
    rw [hname.way_directory (nodeAt_of_node? hchild)] at hsame
    obtain ⟨child, hstands', hwalk⟩ :=
      hstands.walk_of_directory hname ((hsame _ List.mem_cons_self).trans hchild) _
    rw [hwalk]
    exact ih (fun y hy => hsame y (List.mem_cons_of_mem _ hy)) hstands'
      (List.reverse_cons ..) hplace

/-- A name that is reported missing was looked up. -/
theorem Leads.lookedUp {slash : Bool}
    (h : Leads t follow links here' segments (.absent above name slash)) : LookedUp name := by
  generalize hplace : Place.absent above name slash = place at h
  induction h with
  | done | stay | file => cases hplace
  | missing hname => cases hplace; exact hname
  | skip _ _ ih | up _ ih | link _ _ _ _ ih | enter _ _ _ ih => exact ih hplace

end Walk

/-! ## Paths -/

section Paths

variable {t u found : FileTree} {working location z : Location} {follow : Bool} {p q : Path}
variable {name content : Bytes} {mode : Nat} {place : Place}

theorem sound_of_makeDirectory (h : makeDirectory working p t = .ok () u) : p.Sound := by
  obtain ⟨place, v, hentry, -⟩ := bind_eq_ok h
  obtain ⟨hentry, -⟩ := answer_eq_ok hentry
  have hnonempty := (sound_of_locate (locate_of_locateEntry hentry)).nonempty
  rw [locateEntry] at hentry
  split at hentry
  · cases hentry
  next hnul =>
  split at hentry
  · cases hentry
  next hshort =>
  refine ⟨by simpa using hnul, ?_, Nat.lt_of_not_le hshort⟩
  cases hbytes : p.bytes with
  | nil => simp [Path.isEmpty, Path.isAbsolute, dropSlashes, hbytes] at hnonempty
  | cons => simp [Path.isEmpty, hbytes]

/-- The path of a directory that was made is followed. -/
theorem sound_of_makeDirectories (h : FreeStart t working p) (hp : p.isEmpty = false)
    (hok : makeDirectories working p t = .ok () u) : p.Sound := by
  obtain ⟨v, -, hlast⟩ := makeMissing_last _ h hp hok
  rcases ensureDirectory_cases working p v with heq | ⟨w, -, hdirectory, hok'⟩
  · exact sound_of_makeDirectory (heq.symm.trans hlast)
  · obtain ⟨place, hlocate⟩ := locate_of_isDirectoryAt hdirectory
    exact sound_of_locate hlocate

/-- Names that are too long are not made. -/
theorem NamesFit.makeDirectories (ht : t.NamesFit) (h : FreeStart t working p) :
    ((makeDirectories working p).after t).NamesFit := by
  refine makeMissing_after _ h ht fun q u hq hmade hu => ?_
  have hfreeStart := (hmade.freeStart h).at_or_above hq
  rw [ensureDirectory_after]
  rcases makeDirectory_cases hfreeStart with ⟨e, he⟩ | ⟨above, last, slash, hmissing, hlocate, hok⟩
  · rwa [Action.after_of_error he]
  · rw [Action.after_of_ok hok]
    intro parent other hthere
    rw [hmissing.node?_update] at hthere
    split at hthere
    · next heq =>
      obtain rfl := (List.cons.inj (List.append_inj' heq rfl).2).1
      exact Nat.le_of_not_lt (hfreeStart.dropSlashes.leads hlocate).lookedUp.fits
    · exact hu parent other hthere

/-- Every path is followed from a directory. -/
theorem HasWorkplace.exists_stands (ht : HasWorkplace t working) (p : Path) :
    ∃ trail here, Stands t trail here ∧ trail.reverse = start working p ∧
      ∀ (follow : Bool) (q : Path), q.Sound → q.isAbsolute = p.isAbsolute →
        locate t working follow q = walk t follow linkLimit trail here (Path.segments q.bytes) := by
  rcases locate_cases (ht.freeStart p) with hstands | ⟨hgone, -⟩
  · exact hstands
  · rw [ht.node?_start] at hgone
    cases hgone

/-- **A path finds the same in a tree that has the same on its way.** -/
theorem find_congr (ht : HasWorkplace t working) (hu : HasWorkplace u working)
    (hsame : ∀ y ∈ (t.wayTo working p).stops, u.node? y = t.node? y)
    (hfind : find t working true p = .ok (location, found)) :
    ∃ found', find u working true p = .ok (location, found') ∧ found'.node = found.node := by
  have hlocate := locate_of_find hfind
  obtain ⟨trail, here, hstands, htrail, hwalk⟩ := hu.exists_stands p
  obtain ⟨found', hfound', hnode⟩ :=
    ((ht.freeStart p).leads hlocate).congr hsame hu.proper.root hstands htrail
  exact ⟨found', by rw [find, hwalk true p (sound_of_locate hlocate) rfl, hfound'], hnode⟩

/-- A file that is found is found in a tree that has the same on its way. -/
theorem find_file_congr (ht : HasWorkplace t working) (hu : HasWorkplace u working)
    (hsame : ∀ y ∈ (t.wayTo working p).stops, u.node? y = t.node? y)
    (hfind : find t working true p = .ok (location, .file mode content)) :
    find u working true p = .ok (location, .file mode content) := by
  obtain ⟨found', hfind', hnode⟩ := find_congr ht hu hsame hfind
  obtain rfl : found' = .file mode content := by cases found' <;> simp_all [node]
  exact hfind'

end Paths

/-! ## LeadsInto ways -/

section LeadsInto

variable {t : FileTree} {working location z : Location} {follow : Bool} {source p q : Path}
variable {name content : Bytes} {mode : Nat} {pre more : List Bytes}

/-- A directory that is there is ensured without a change. -/
theorem ensureDirectory_of_isDirectoryAt (h : FreeStart t working p)
    (hdirectory : isDirectoryAt t working p = true) : ensureDirectory working p t = .ok () t := by
  rcases makeDirectory_cases h with ⟨e, he⟩ | ⟨above, name, slash, hmissing, -, -⟩
  · rw [ensureDirectory, he]
    exact if_pos hdirectory
  · obtain ⟨x, hgoal, hx⟩ := (reached_of_isDirectoryAt h hdirectory).goal
    obtain rfl : above ++ [name] = x := Option.some.inj (hmissing.goal.symm.trans hgoal)
    rw [hmissing.gone] at hx
    cases hx

/-- Directories that are there are made without a change. -/
theorem makeDirectories_of_isDirectoryAt (h : FreeStart t working p) (hp : p.isEmpty = false)
    (hdirectory : isDirectoryAt t working p = true) : makeDirectories working p t = .ok () t := by
  have hensure := ensureDirectory_of_isDirectoryAt h hdirectory
  rw [makeDirectories_of_ensured hp fun u hu => ?_, hensure]
  rw [hensure] at hu
  cases hu

/-- A file is copied if it is found and the target can be opened. -/
theorem exists_copyOver_of_opened {permissions : Option Nat}
    (hfind : find t working true source = .ok (location, .file mode content))
    (hopen : openTarget t working p = .ok (z, permissions)) :
    ∃ count u, copyOver working source p t = .ok count u := by
  rw [copyOver, bind_of_ok (answer_of_ok hfind)]
  dsimp only
  rw [bind_of_ok (ask_sound _ t), bind_of_ok (answer_of_ok hopen)]
  dsimp only
  rw [bind_of_ok (ask_sound _ t), bind_of_ok place_eq_ok]
  cases hget : (t.update (some (.file mode [])) z).get? location with
  | none => exact ⟨_, _, (bind_of_ok (answer_of_ok (by rw [hget]))).trans rfl⟩
  | some left =>
    cases left with
    | file => exact ⟨_, _, (bind_of_ok (answer_of_ok (by rw [hget]))).trans rfl⟩
    | link | directory => exact ⟨_, _, (bind_of_ok (answer_of_ok (by rw [hget]))).trans rfl⟩

namespace LeadsInto

theorem of_follows_nil (h : LeadsInto t working p z) (hq : Path.Follows p [] q) :
    LeadsInto t working q z := by
  have hway := wayTo_of_follows_nil t working hq
  exact ⟨hway ▸ h.goal, h.directory, hway ▸ h.present⟩

/-- A name in the directory that a path leads into. -/
theorem join (h : LeadsInto t working p z) (hname : Path.IsName name)
    (hnode : t.node? (z ++ [name]) = some .directory) :
    LeadsInto t working (p.join ⟨name⟩) (z ++ [name]) := by
  have hway := wayTo_join hname h.goal (nodeAt_of_node? h.directory) fun target => by
    rw [nodeAt_of_node? hnode]
    simp
  refine ⟨by rw [hway], hnode, fun y hy => ?_⟩
  rw [hway] at hy
  rcases List.mem_append.1 hy with hy | hy
  · exact h.present y hy
  · rw [List.mem_singleton.1 hy, hnode]
    simp

/-- Names below the directory that a path leads into. -/
theorem within {below : Location} (h : LeadsInto t working p z)
    (hbelow : ∀ n ∈ below, Path.IsName n)
    (hnode : t.node? (z ++ below) = some .directory) :
    LeadsInto t working (p.within below) (z ++ below) := by
  induction below using List.reverseRecOn with
  | nil => rwa [Path.within_nil, List.append_nil]
  | append_singleton below last ih =>
    rw [← List.append_assoc] at hnode ⊢
    rw [Path.within_concat]
    have habove : t.node? (z ++ below) = some .directory :=
      node?_of_node?_append (List.cons_ne_nil last []) (by rw [hnode]; simp)
    exact (ih (fun n hn => hbelow n (List.mem_append_left _ hn)) habove).join
      (hbelow last (by simp)) hnode

variable (ht : HasWorkplace t working) (hfits : t.NamesFit)
include ht hfits

/-- A path that goes on from one that leads into a directory is followed from there. -/
theorem locate_further (h : LeadsInto t working p z) (hq : q.Sound)
    (habs : q.isAbsolute = p.isAbsolute) (hsegments : Path.segments q.bytes = pre ++ more)
    (hpre : counting pre = p.names) (hmore : follow = true ∨ more ≠ []) :
    ∃ left trail here, Stands t trail here ∧ trail.reverse = z ∧
      locate t working follow q = walk t follow left trail here more := by
  obtain ⟨trail, here, hstands, htrail, hlocate⟩ := ht.exists_stands p
  have hgoal := h.goal
  have hpresent := h.present
  rw [wayTo, ← htrail, ← hpre] at hgoal hpresent
  obtain ⟨left, trail', here', hstands', htrail', hwalk⟩ :=
    walk_append ht.proper.root hfits hstands hgoal h.directory hpresent hmore
  exact ⟨left, trail', here', hstands', htrail', by rw [hlocate follow q hq habs, hsegments, hwalk]⟩

/-- **A path that leads into a directory finds it.** -/
theorem find (h : LeadsInto t working p z) (hp : p.Sound) :
    ∃ entries, FileTree.find t working true p = .ok (z, .directory entries) := by
  obtain ⟨left, trail, here, hstands, htrail, hlocate⟩ :=
    h.locate_further ht hfits hp rfl (List.append_nil _).symm rfl (.inl rfl)
  obtain ⟨entries, rfl⟩ := exists_directory_of_node hstands.directory
  rw [walk_nil, htrail] at hlocate
  exact ⟨entries, by rw [FileTree.find, hlocate]⟩

theorem isDirectoryAt (h : LeadsInto t working p z) (hp : p.Sound) :
    isDirectoryAt t working p = true := by
  obtain ⟨entries, hfind⟩ := h.find ht hfits hp
  rw [FileTree.isDirectoryAt, hfind]
  rfl

/-- **If a path leads into a directory, there is nothing to make for it.** -/
theorem makeDirectories (h : LeadsInto t working p z) (hp : p.Sound) :
    makeDirectories working p t = .ok () t :=
  makeDirectories_of_isDirectoryAt (ht.freeStart p) hp.nonempty (h.isDirectoryAt ht hfits hp)

variable (h : LeadsInto t working p z) (hname : Path.IsName name) (hsound : (p.join ⟨name⟩).Sound)
include h hname hsound

/-- Nothing has to be made above a name in the directory that a path leads into. -/
theorem makeParents : makeParents working (p.join ⟨name⟩) t = .ok () t := by
  rw [FileTree.makeParents]
  cases hq : (p.join ⟨name⟩).parent? with
  | none => rfl
  | some q =>
    have hfollows : Path.Follows p [] q := ((Path.Follows.refl p).join hname).parent? hq
    cases hempty : q.isEmpty with
    | true => exact if_pos hempty
    | false => exact (h.of_follows_nil hfollows).makeDirectories ht hfits (hsound.parent? hq hempty)

variable (hfit : name.length ≤ nameLimit)
include hfit

theorem locate_join (follow : Bool) : ∃ left trail here, Stands t trail here ∧ trail.reverse = z ∧
    LookedUp name ∧
    locate t working follow (p.join ⟨name⟩) = walk t follow left trail here [name] := by
  obtain ⟨pre, hpre, hcounting⟩ := Path.segments_join p hname
  obtain ⟨left, trail, here, hstands, htrail, hlocate⟩ :=
    h.locate_further ht hfits hsound
      (Path.isAbsolute_join (Path.isAbsolute_eq_false_of_isName hname))
      hpre hcounting (.inr (List.cons_ne_nil name []))
  exact ⟨left, trail, here, hstands, htrail,
    ⟨by simp [hname.not_isTrivial], hname.notDots, Nat.not_lt.2 hfit⟩, hlocate⟩

/-- **A name that is missing where a path leads into is found missing.** -/
theorem locate_of_none (hgone : t.node? (z ++ [name]) = none) (follow : Bool) :
    locate t working follow (p.join ⟨name⟩) = .ok (.absent z name false) := by
  obtain ⟨left, trail, here, hstands, rfl, hlooked, hlocate⟩ :=
    h.locate_join ht hfits hname hsound hfit follow
  rw [hstands.node?_child, Option.map_eq_none_iff] at hgone
  rw [hlocate, walk_none hlooked hgone]
  rfl

/-- **A file where a path leads into is found.** -/
theorem locate_of_file (hnode : t.node? (z ++ [name]) = some (.file mode content)) (follow : Bool) :
    locate t working follow (p.join ⟨name⟩) =
      .ok (.present (z ++ [name]) (.file mode content)) := by
  obtain ⟨left, trail, here, hstands, rfl, hlooked, hlocate⟩ :=
    h.locate_join ht hfits hname hsound hfit follow
  rw [hlocate, hstands.walk_of_file hlooked hnode]

/-- **A directory that is missing where a path leads into is made.** -/
theorem makeDirectories_join (hnode : t.node? (z ++ [name]) = none ∨
    t.node? (z ++ [name]) = some .directory) :
    ∃ u, FileTree.makeDirectories working (p.join ⟨name⟩) t = .ok () u := by
  rcases hnode with hgone | hnode
  · have hmake : makeDirectory working (p.join ⟨name⟩) t =
        .ok () (t.update (some (.directory [])) (z ++ [name])) := by
      have hentry := (locateEntry_of_dropSlashes (Path.dropSlashes_join p hname)).trans
        (h.locate_of_none ht hfits hname hsound hfit hgone false)
      rw [makeDirectory, bind_of_ok (answer_of_ok hentry)]
      rfl
    have hensure : ensureDirectory working (p.join ⟨name⟩) t =
        .ok () (t.update (some (.directory [])) (z ++ [name])) := by
      rw [ensureDirectory, hmake]
    refine ⟨_, (makeDirectories_of_ensured hsound.nonempty fun u hu => ?_).trans hensure⟩
    rw [hensure] at hu
    cases hu
  · exact ⟨t, (h.join hname hnode).makeDirectories ht hfits hsound⟩

/-- **A file is copied to a name where a path leads into**, unless something else than a file is
there. -/
theorem copyFile
    (hfree : t.node? (z ++ [name]) = none ∨
      ∃ mode content, t.node? (z ++ [name]) = some (.file mode content))
    (hfind : FileTree.find t working true source = .ok (location, .file mode content)) :
    ∃ count u, copyFile working source (p.join ⟨name⟩) t = .ok count u := by
  have hopen : ∃ permissions,
      openTarget t working (p.join ⟨name⟩) = .ok (z ++ [name], permissions) := by
    rw [openTarget, if_neg (Path.endsIn_join p hname).getLast?_ne]
    rcases hfree with hgone | ⟨mode, content, hnode⟩
    · rw [h.locate_of_none ht hfits hname hsound hfit hgone]
      exact ⟨none, rfl⟩
    · rw [h.locate_of_file ht hfits hname hsound hfit hnode]
      exact ⟨some mode, rfl⟩
  obtain ⟨permissions, hopen⟩ := hopen
  rw [FileTree.copyFile, bind_of_ok (h.makeParents ht hfits hname hsound)]
  exact exists_copyOver_of_opened hfind hopen

end LeadsInto

end LeadsInto

end FileTree
end KernelRegistry
