import KernelRegistry.Proofs.FileTree.Ancestors
import KernelRegistry.Proofs.FileTree.Removal
import KernelRegistry.Proofs.FileTree.Copy
import KernelRegistry.Proofs.Text.Utf8

/-!
# Reading what was written

A file that was written is read back through the same path, wherever that leads.  Nothing is asked
of the file tree but that its root and the directory to work in are directories; so this file also
says that no operation puts a file in place of a directory.

* `FileTree.Keeps` — directories stay directories; copying and writing keep them.
* `FileTree.Shrunk` — nothing is there that was not there before; removing only does that.
* `copyTree_freeStart` — what is written into a copy starts from a directory.
* `Leads.wrote` — a path that a file was written to leads to that file.
* `writeFile_textAt` — **a text that was written is read back**.
-/

set_option autoImplicit false
namespace KernelRegistry
namespace FileTree

open Text (Bytes)

/-! ## Directories stay -/

/-- Directories stay directories, so a path that starts from one still does. -/
def Keeps (t u : FileTree) : Prop := ∀ x, t.node? x = some .directory → u.node? x = some .directory

/-- Nothing is there that was not there before, and the root stays. -/
structure Shrunk (t c : FileTree) : Prop where
  root : c.node? [] = t.node? []
  node : ∀ x n, c.node? x = some n → t.node? x = some n

section Keeps

variable {b t u c : FileTree} {working location : Location} {p source target : Path} {name : Bytes}
variable {stops : List Location} {mode : Nat} {content : Bytes} {listing : Listing}

/-- A path that is joined to another one starts where that one starts, or at the root. -/
theorem start_join (working : Location) (p q : Path) :
    start working (p.join q) = start working p ∨ start working (p.join q) = [] := by
  by_cases h : q.isAbsolute = true
  · right
    rw [Path.join, if_pos h, start, if_pos h]
  · left
    rw [start, start, Path.isAbsolute_join (Bool.not_eq_true _ ▸ h)]

namespace Keeps

theorem refl (t : FileTree) : Keeps t t := fun _ h => h

theorem trans (h : Keeps b t) (h' : Keeps t u) : Keeps b u := fun x hx => h' x (h x hx)

theorem freeStart (h : Keeps b t) (hroot : b.node? [] = some .directory)
    (hstart : b.node? (start working p) = some .directory) : FreeStart t working p := by
  refine ⟨h [] hroot, fun n hn => ?_⟩
  rw [h _ hstart] at hn
  exact (Option.some.inj hn).symm

end Keeps

theorem Made.keeps (h : Made stops t u) : Keeps t u := fun x hx => h.same x _ hx

theorem Wrote.keeps (h : Wrote t u working p location mode content) : Keeps t u := by
  intro x hx
  rw [h.node, if_neg, hx]
  rintro rfl
  exact h.writable.leaf hx

/-- A directory that something is joined to the path of is still where a path may start. -/
theorem node?_start_join (hroot : b.node? [] = some .directory)
    (hstart : b.node? (start working p) = some .directory) (q : Path) :
    b.node? (start working (p.join q)) = some .directory := by
  rcases start_join working p q with h | h
  · rw [h, hstart]
  · rw [h, hroot]

variable [Disk]

theorem copyFile_keeps (hs : FreeStart t working source) (hp : FreeStart t working p) :
    Keeps t ((copyFile working source p).after t) := by
  have hmade := makeParents_made hp
  refine after_bind hmade.keeps fun _ v hok => ?_
  rw [Action.after_of_ok hok] at hmade
  rcases copyOver_cases (hmade.freeStart hs) (hmade.freeStart hp) with
    ⟨e, he⟩ | ⟨here, mode, content, there, -, ⟨n, w, hwrote, hok'⟩ | ⟨e, w, cut, -, hwrote, he⟩⟩
  · rw [Action.after_of_error he]
    exact hmade.keeps
  · rw [Action.after_of_ok hok']
    exact hmade.keeps.trans hwrote.keeps
  · rw [Action.after_of_error he]
    exact hmade.keeps.trans hwrote.keeps

/-- Copying what is in a directory keeps directories if copying the directories in it does. -/
theorem Keeps.copyEntries (hroot : b.node? [] = some .directory) {depth : Nat}
    (hinner : ∀ {source target : Path} {t : FileTree}, Keeps b t →
      b.node? (start working source) = some .directory →
      b.node? (start working target) = some .directory →
      Keeps b ((copyNested listing working depth source target).after t))
    (h : Keeps b t) (hsource : b.node? (start working source) = some .directory)
    (htarget : b.node? (start working target) = some .directory) :
    Keeps b ((FileTree.copyEntries listing working depth source target).after t) := by
  refine after_copyEntries h fun _ _ last isDirectory _ w hw => ?_
  have hsource' := node?_start_join hroot hsource ⟨last⟩
  have htarget' := node?_start_join hroot htarget ⟨last⟩
  cases isDirectory with
  | true => exact hinner hw hsource' htarget'
  | false =>
    exact hw.trans (copyFile_keeps (hw.freeStart hroot hsource') (hw.freeStart hroot htarget'))

/-- **Copying a directory keeps directories**, also where it fails. -/
theorem Keeps.copyNested (hroot : b.node? [] = some .directory) (depth : Nat) (h : Keeps b t)
    (hsource : b.node? (start working source) = some .directory)
    (htarget : b.node? (start working target) = some .directory) :
    Keeps b ((FileTree.copyNested listing working depth source target).after t) := by
  induction depth generalizing source target t with
  | zero => exact h
  | succ depth ih =>
    have hmade := h.trans (makeDirectories_made (h.freeStart hroot htarget)).keeps
    rw [copyNested_succ]
    refine after_bind hmade fun _ u hok => ?_
    rw [Action.after_of_ok hok] at hmade
    exact hmade.copyEntries hroot ih hsource htarget

/-- **What is written into a copy starts from a directory.** -/
theorem copyTree_freeStart {count : Nat} (hsource : FreeStart t working source)
    (htarget : FreeStart t working target) (hempty : target.isEmpty = false)
    (hcopy : copyTree listing working source target t = .ok count u) (q : Path) :
    FreeStart u working (target.join q) := by
  obtain ⟨depth, hdepth⟩ : ∃ depth, pathLimit = depth + 1 := ⟨4095, rfl⟩
  rw [copyTree, hdepth, copyNested_succ] at hcopy
  obtain ⟨_, b, hmake, hentries⟩ := bind_eq_ok hcopy
  have hmade := makeDirectories_made htarget
  rw [Action.after_of_ok hmake] at hmade
  have hroot := hmade.same _ _ hsource.root
  have hstart := makeDirectories_start htarget hempty hmake
  -- the source was read, so that it starts from a directory as well
  have hstart' : b.node? (start working source) = some .directory := by
    obtain ⟨_, v, hread, -⟩ := bind_eq_ok hentries
    obtain ⟨rfl, location, entries, hfind, -⟩ := readDirectory_eq_ok hread
    obtain ⟨n, hn⟩ := Option.ne_none_iff_exists'.1
      (node?_start_of_locate (locate_of_find hfind))
    rw [hn, (hmade.freeStart hsource).start n hn]
  have hkeeps : Keeps b ((FileTree.copyEntries listing working depth source target).after b) :=
    (Keeps.refl b).copyEntries hroot (fun ht => ht.copyNested hroot depth) hstart' hstart
  rw [Action.after_of_ok hentries] at hkeeps
  exact hkeeps.freeStart hroot (node?_start_join hroot hstart q)

end Keeps

/-! ## Removing puts nothing there -/

section Shrunk

variable {t u c : FileTree} {working location above : Location} {p q : Path} {name : Bytes}

namespace Shrunk

theorem refl (t : FileTree) : Shrunk t t := ⟨rfl, fun _ _ h => h⟩

theorem trans (h : Shrunk t u) (h' : Shrunk u c) : Shrunk t c :=
  ⟨h'.root.trans h.root, fun x n hx => h.node x n (h'.node x n hx)⟩

theorem freeStart (h : Shrunk t c) (hp : FreeStart t working p) : FreeStart c working p :=
  ⟨h.root.trans hp.root, fun n hn => hp.start n (h.node _ n hn)⟩

end Shrunk

/-- Removing what is at a location leaves the rest. -/
theorem shrunk_of_removed (location : Location) : Shrunk t (t.update none location) := by
  have hleft := (onlyRemoved_update (t := t) (List.prefix_refl location)).left
  refine ⟨(hleft []).resolve_left (by simp [node?]), fun x n hx => ?_⟩
  rcases hleft x with hnone | hsame
  · rw [hnone] at hx
    cases hx
  · exact hsame.symm.trans hx

/-- Removing entry by entry makes nothing new. -/
theorem Shrunk.removeEntries [Disk] (h : Shrunk t u) (location : Location)
    (entries : List (Bytes × FileTree)) :
    Shrunk t ((removeNode.removeEntries location entries).after u) :=
  after_removeEntries location entries (fun x _ _ hv => hv.trans (shrunk_of_removed x)) h

variable [Disk]

theorem Shrunk.removeEmpty (h : Shrunk t u) :
    Shrunk t ((FileTree.removeEmpty working p).after u) := by
  refine after_bind (by rwa [after_answer]) fun place v hlocate => ?_
  obtain ⟨-, rfl⟩ := answer_eq_ok hlocate
  cases place with
  | absent => exact h
  | present location node =>
    dsimp only
    split
    · exact h
    split
    · exact h
    split
    · exact after_askRemove _ (fun hv => hv.trans (shrunk_of_removed location)) h
    · exact h
    · exact h

theorem removeTree_shrunk (working : Location) (p : Path) (t : FileTree) :
    Shrunk t ((removeTree working p).after t) := by
  refine after_bind (by rw [after_answer]; exact .refl t) fun found u hfind => ?_
  obtain ⟨-, rfl⟩ := answer_eq_ok hfind
  obtain ⟨location, found⟩ := found
  cases found with
  | file => exact .refl u
  | link => exact after_askRemove _ (fun hv => hv.trans (shrunk_of_removed location)) (.refl u)
  | directory entries =>
    refine after_bind (by rw [after_ask]; exact .refl u) fun _ v hask => ?_
    obtain rfl := ask_eq_ok hask
    have hentries := (Shrunk.refl v).removeEntries location entries
    refine after_bind hentries fun _ w hok => ?_
    rw [Action.after_of_ok hok] at hentries
    have hlast : Shrunk v ((FileTree.removeEmpty working p).after w) := hentries.removeEmpty
    simp only [Action.after] at hlast ⊢
    cases hremove : FileTree.removeEmpty working p w with
    | ok a x => rwa [hremove] at hlast
    | error e x =>
      rw [hremove] at hlast
      cases e <;> exact hlast

/-- **Removing puts nothing there**, wherever the path leads and also where it fails. -/
theorem removeAll_shrunk (working : Location) (p : Path) (t : FileTree) :
    Shrunk t ((removeAll working p).after t) := by
  have hremove := removeTree_shrunk working p t
  rw [Action.after] at hremove ⊢
  rw [removeAll]
  cases hresult : removeTree working p t with
  | ok a u => rwa [hresult] at hremove
  | error e u =>
    rw [hresult] at hremove
    cases e <;> exact hremove

end Shrunk

/-! ## Writing and reading -/

/-- A file is opened at the location of a place: one that is there, or one that is made.
Directories are not opened, and neither is a missing name with a slash behind it. -/
inductive Opens : Place → Location → Prop
  | present (location : Location) (mode : Nat) (content : Bytes) :
      Opens (.present location (.file mode content)) location
  | absent (above : Location) (name : Bytes) : Opens (.absent above name false) (above ++ [name])

section Written

variable {t u here : FileTree} {working location above : Location} {p : Path} {place : Place}
variable {mode links : Nat} {content name : Bytes} {trail segments : List Bytes} {follow : Bool}

theorem Stands.walk_of_file (h : Stands t trail here) (hname : LookedUp name)
    (hchild : t.node? (trail.reverse ++ [name]) = some (.file mode content)) :
    walk t follow links trail here [name] =
      .ok (.present (trail.reverse ++ [name]) (.file mode content)) := by
  obtain ⟨s, hs, hnode⟩ := exists_get?_of_node? hchild
  obtain rfl : s = .file mode content := by cases s <;> simp_all [node]
  rw [h.get?_child] at hs
  rw [walk_file hname hs]
  rfl

/-- **A path that a file was written to leads to that file.** -/
theorem Leads.wrote (h : Leads t true links above segments place) (hopens : Opens place location)
    (hplain : ∀ n, t.node? location = some n → ∃ mode content, n = .file mode content)
    (hu : ∀ x, u.node? x = if x = location then some (.file mode content) else t.node? x)
    (hroot : u.node? [] = some .directory) (hstands : Stands u trail here)
    (htrail : trail.reverse = above) :
    walk u true links trail here segments = .ok (.present location (.file mode content)) := by
  -- what the walk came through is neither missing nor a file
  have hsame : ∀ {x n}, t.node? x = some n → (∀ mode content, n ≠ .file mode content) →
      u.node? x = some n := by
    intro x n hx hn
    rw [hu, if_neg, hx]
    rintro rfl
    obtain ⟨mode, content, rfl⟩ := hplain n hx
    exact hn mode content rfl
  have hthere : u.node? location = some (.file mode content) := by rw [hu, if_pos rfl]
  induction h generalizing trail here with
  | done hget hfound => cases hopens; cases hfound
  | skip htrivial h ih =>
    rw [walk_trivial htrivial]
    exact ih hopens hstands htrail
  | up h ih =>
    rw [walk_dots (by rfl)]
    exact ih hopens hstands.up (by rw [← dropLast_reverse, htrail])
  | @missing _ _ _ rest hname hhere hchild hrest =>
    cases rest with
    | nil =>
      cases hopens
      subst htrail
      exact hstands.walk_of_file hname hthere
    | cons => cases hopens
  | stay _ _ hfollow => cases hfollow
  | link hname hchild hfollow h ih =>
    subst htrail
    obtain ⟨trail', here', hstands', hstart, hwalk⟩ :=
      hstands.walk_of_link hroot hname (hsame hchild (by simp)) hfollow
    rw [hwalk]
    exact ih hopens hstands' hstart
  | file hname hchild =>
    cases hopens
    subst htrail
    exact hstands.walk_of_file hname hthere
  | enter hname hchild h ih =>
    subst htrail
    obtain ⟨child, hchild', hwalk⟩ :=
      hstands.walk_of_directory hname (hsame hchild (by simp)) _
    rw [hwalk]
    exact ih hopens hchild' (List.reverse_cons ..)

/-- A file is opened where one is, or where nothing is. -/
theorem openTarget_eq_ok {permissions : Option Nat}
    (h : openTarget t working p = .ok (location, permissions)) :
    ∃ place, locate t working true p = .ok place ∧ Opens place location := by
  rw [openTarget] at h
  split at h
  · cases hentry : locateEntry t working p <;> rw [hentry] at h <;> cases h
  cases hlocate : locate t working true p with
  | error e => rw [hlocate] at h; cases h
  | ok place =>
    refine ⟨place, rfl, ?_⟩
    rw [hlocate] at h
    cases place with
    | present x found =>
      cases found with
      | file mode content => cases h; exact .present ..
      | link | directory => cases h
    | absent above name slash =>
      cases slash with
      | false => cases h; exact .absent ..
      | true => cases h

/-- Anything at a place that is opened for writing is a file. -/
theorem Opens.file_of_node? (h : FreeStart t working p)
    (hlocate : locate t working true p = .ok place)
    (hopens : Opens place location) {n : Node} (hn : t.node? location = some n) :
    ∃ mode content, n = .file mode content := by
  cases hopens with
  | present _ mode content =>
    rw [node?_eq_some (h.leads hlocate).get?] at hn
    exact ⟨mode, content, (Option.some.inj hn).symm⟩
  | absent above name =>
    rw [(of_locate_absent h hlocate).gone] at hn
    cases hn

/-- The way of a path that was opened leads to the file after it was written. -/
theorem locate_wrote (h : FreeStart t working p) (hlocate : locate t working true p = .ok place)
    (hopens : Opens place location)
    (hu : ∀ x, u.node? x = if x = location then some (.file mode content) else t.node? x) :
    locate u working true p = .ok (.present location (.file mode content)) := by
  have hleads := h.leads hlocate
  have hplain : ∀ n, t.node? location = some n → ∃ mode content, n = .file mode content :=
    fun n hn => hopens.file_of_node? h hlocate hn
  have hkeeps : ∀ {x}, t.node? x = some .directory → u.node? x = some .directory := by
    intro x hx
    rw [hu, if_neg, hx]
    rintro rfl
    obtain ⟨mode, content, hfile⟩ := hplain _ hx
    cases hfile
  obtain ⟨here, hhere, -⟩ := walk_of_locate hlocate
  obtain ⟨entries, hentries⟩ := exists_directory_of_node? (hkeeps (h.node?_start hhere))
  rw [locate_of_sound (sound_of_locate hlocate), hentries]
  exact hleads.wrote hopens hplain hu (hkeeps h.root) (.of_get? hentries rfl)
    (List.reverse_reverse _)

/-- A file whose content is that of a text has the text. -/
theorem textAt_of_find {text : String}
    (h : find t working true p = .ok (location, .file mode (Text.encode text))) :
    t.textAt working p = .ok text := by
  have hbytes : t.bytesAt working p = .ok (Text.encode text) := by
    rw [bytesAt, h]
    rfl
  simp only [textAt, hbytes, bind, Except.bind, Text.decode?_encode]
  rfl

variable [Disk]

theorem find_overwrite (h : FreeStart t working p)
    (hok : overwrite working p content t = .ok () u) :
    ∃ location mode, find u working true p = .ok (location, .file mode content) := by
  obtain ⟨⟨location, permissions⟩, v, hopen, hopened⟩ := bind_eq_ok hok
  obtain ⟨hopen, rfl⟩ := answer_eq_ok hopen
  obtain ⟨_, w, hask, hwrite⟩ := bind_eq_ok hopened
  obtain rfl := ask_eq_ok hask
  obtain ⟨place, hlocate, hopens⟩ := openTarget_eq_ok hopen
  obtain ⟨-, hwritable, -⟩ := of_openTarget h hopen
  obtain rfl := write_eq_ok hwrite
  have hread := locate_wrote h hlocate hopens
    (hwritable.node?_update (permissions.getD newFileMode) content)
  exact ⟨location, permissions.getD newFileMode, by rw [find, hread]⟩

/-- **A text that was written is read back**, through the path that it was written to. -/
theorem writeFile_textAt {text : String} (h : FreeStart t working p)
    (hok : writeFile working p (Text.encode text) t = .ok () u) :
    u.textAt working p = .ok text := by
  obtain ⟨_, v, hparents, hwrite⟩ := bind_eq_ok hok
  have hmade := makeParents_made h
  rw [Action.after_of_ok hparents] at hmade
  obtain ⟨location, mode, hfind⟩ := find_overwrite (hmade.freeStart h) hwrite
  exact textAt_of_find hfind

end Written

end FileTree
end KernelRegistry
