import KernelRegistry.FileTree.Copy
import KernelRegistry.Proofs.FileTree.Actions

/-!
# What succeeds on any disk

A disk can only stop an operation, it cannot lead it astray: as long as nothing is refused, an
operation does what it does on a sound disk.  The only place where an operation goes on after a
call that failed is where it makes directories, and there it asks the tree whether one is there; so
the lemma to prove first is that a directory that is missing is not found there.

* `isDirectoryAt_of_missing` — a path whose entry is missing leads to no directory.
* `EqOrRefused.copyTree`, `EqOrRefused.writeFile`, `EqOrRefused.removeAll` — an operation does what
  it does on a sound disk, or the disk refuses something.
-/

set_option autoImplicit false
namespace KernelRegistry
namespace FileTree

open Text (Bytes)

/-! ## A directory that is missing -/

section Missing

variable {root here : FileTree} {links : Nat} {trail segments : List Bytes} {above : Location}
variable {name : Bytes} {slash : Bool} {working : Location} {p : Path}

/-- A name that is missing is missing as well where links are followed, and where slashes come after
it. -/
theorem walk_of_absent (follow : Bool) {more : List Bytes} (hmore : more.all (·.isEmpty) = true)
    (hwalk : walk root false links trail here segments = .ok (.absent above name slash)) :
    ∃ slash, walk root follow links trail here (segments ++ more) =
      .ok (.absent above name slash) := by
  -- a link in front of something else is followed, whatever comes after that
  have hgoes : ∀ {rest : List Bytes}, ¬ (rest.isEmpty && !false) = true →
      ¬ ((rest ++ more).isEmpty && !follow) = true := by
    intro rest hrest
    cases rest with
    | nil => simp at hrest
    | cons => simp
  induction links, trail, here, segments using walk_induction root false with
  | nil =>
    rw [walk_nil] at hwalk
    cases hwalk
  | trivial links trail here name rest htrivial ih =>
    rw [walk_trivial htrivial] at hwalk
    rw [List.cons_append, walk_trivial htrivial]
    exact ih hwalk
  | up links trail here rest ih =>
    rw [walk_dots rfl] at hwalk
    rw [List.cons_append, walk_dots rfl]
    exact ih hwalk
  | long links trail here name rest hcounts hdots hlong =>
    rw [walk_long hcounts hdots hlong] at hwalk
    cases hwalk
  | missing links trail here name rest hname hchild =>
    rw [walk_none hname hchild] at hwalk
    split at hwalk
    · next hrest =>
      cases hwalk
      rw [List.cons_append, walk_none hname hchild, if_pos]
      · exact ⟨_, rfl⟩
      · rw [List.all_append, hrest, hmore]
        rfl
    · cases hwalk
  | stay links trail here name rest target hname hchild hfollow =>
    rw [walk_stay hname hchild hfollow] at hwalk
    cases hwalk
  | limit trail here name rest target hname hchild hfollow =>
    rw [walk_link_zero hname hchild hfollow] at hwalk
    cases hwalk
  | link links trail here name rest target hname hchild hfollow ih =>
    rw [walk_link_succ hname hchild hfollow] at hwalk
    rw [List.cons_append, walk_link_succ hname hchild (hgoes hfollow), ← List.append_assoc]
    exact ih hwalk
  | file links trail here name rest mode content hname hchild =>
    rw [walk_file hname hchild] at hwalk
    split at hwalk <;> cases hwalk
  | enter links trail here name rest entries hname hchild ih =>
    rw [walk_directory hname hchild] at hwalk
    rw [List.cons_append, walk_directory hname hchild]
    exact ih hwalk

/-- A path whose entry is missing leads to no directory. -/
theorem isDirectoryAt_of_missing
    (hentry : locateEntry root working p = .ok (.absent above name slash)) :
    isDirectoryAt root working p = false := by
  obtain ⟨here, hhere, hwalk⟩ := walk_of_locate (locate_of_locateEntry hentry)
  obtain ⟨habs, slashes, hall, hbytes⟩ := Path.dropSlashes_append p
  obtain ⟨more, hmore, hsegments⟩ :=
    Path.segments_append_of_all_slash (FileTree.dropSlashes p).bytes hall
  obtain ⟨slash', hwalk'⟩ := walk_of_absent true hmore hwalk
  rw [← hsegments, ← hbytes] at hwalk'
  have hstart : start working (FileTree.dropSlashes p) = start working p := by
    rw [start, start, habs]
  rw [hstart] at hhere hwalk'
  cases hdirectory : isDirectoryAt root working p with
  | false => rfl
  | true =>
    obtain ⟨location, found, hfind, -⟩ := exists_find_of_isDirectoryAt hdirectory
    have hlocate := locate_of_find hfind
    rw [locate_of_sound (sound_of_locate hlocate), hhere] at hlocate
    have habsent := hwalk'.symm.trans hlocate
    cases habsent

end Missing

/-! ## Operations -/

namespace Action.EqOrRefused

variable [disk : Disk] {α : Type} {working : Location} {t : FileTree}

/-- One call, and then no other. -/
theorem ask_bind (call : Call) (next : Unit → Action α) (t : FileTree) :
    EqOrRefused (FileTree.ask call >>= next) (@FileTree.ask Disk.sound call >>= next) t :=
  (ask call t).bind fun _ u _ => refl _ u

/-- If a directory is not made because the disk refuses it, there is none. -/
theorem makeDirectory_refused (working : Location) (p : Path) (t : FileTree) :
    FileTree.makeDirectory working p t = @FileTree.makeDirectory Disk.sound working p t ∨
      ∃ e, Disk.Refuses e ∧ isDirectoryAt t working p = false ∧
        FileTree.makeDirectory working p t = .error e t := by
  cases hentry : locateEntry t working p with
  | error e =>
    exact .inl ((makeDirectory_of_error hentry).trans
      (@makeDirectory_of_error _ _ _ Disk.sound _ hentry).symm)
  | ok place =>
    cases place with
    | present =>
      exact .inl ((makeDirectory_of_present hentry).trans
        (@makeDirectory_of_present _ _ _ Disk.sound _ _ hentry).symm)
    | absent above name slash =>
      rw [makeDirectory_of_absent hentry, @makeDirectory_of_absent _ _ _ Disk.sound _ _ _ hentry]
      rcases ask_cases (.makeDirectory (above ++ [name])) t with ⟨e, he, hask⟩ | hask
      · exact .inr ⟨e, he, isDirectoryAt_of_missing hentry, bind_of_error hask⟩
      · exact .inl (bind_of_ok hask)

theorem ensureDirectory_apply (working : Location) (p : Path) (t : FileTree) :
    FileTree.ensureDirectory working p t =
      match FileTree.makeDirectory working p t with
      | .error e root => if isDirectoryAt root working p then .ok () root else .error e root
      | made => made :=
  rfl

theorem ensureDirectory (working : Location) (p : Path) (t : FileTree) :
    EqOrRefused (FileTree.ensureDirectory working p)
      (@FileTree.ensureDirectory Disk.sound working p) t := by
  rcases makeDirectory_refused working p t with heq | ⟨e, he, hdirectory, herror⟩
  · exact .inl (by rw [ensureDirectory_apply, heq, @ensureDirectory_apply Disk.sound])
  · refine .inr ⟨e, t, he, ?_⟩
    rw [ensureDirectory_apply, herror]
    exact if_neg (by simp [hdirectory])

theorem makeMissing_succ (steps : Nat) {p : Path} (hempty : ¬ p.isEmpty = true) :
    FileTree.makeMissing working (steps + 1) p t =
      match FileTree.ensureDirectory working p t with
      | .error .notFound root =>
        match p.parent? with
        | some parent =>
          (FileTree.makeMissing working steps parent >>= fun _ =>
            FileTree.ensureDirectory working p) root
        | none => .error .notFound root
      | done => done :=
  if_neg hempty

theorem makeMissing (working : Location) (steps : Nat) (p : Path) (t : FileTree) :
    EqOrRefused (FileTree.makeMissing working steps p)
      (@FileTree.makeMissing Disk.sound working steps p) t := by
  induction steps generalizing p t with
  | zero => exact refl _ t
  | succ steps ih =>
    by_cases hempty : p.isEmpty = true
    · exact .inl ((if_pos hempty).trans (if_pos hempty).symm)
    rw [EqOrRefused, makeMissing_succ steps hempty, @makeMissing_succ Disk.sound _ _ steps _ hempty]
    rcases ensureDirectory working p t with heq | ⟨e, u, he, herror⟩
    · rw [heq]
      split
      · next u hensure =>
        cases p.parent? with
        | none => exact .inl rfl
        | some parent => exact (ih parent u).bind fun _ v _ => ensureDirectory working p v
      · exact .inl rfl
    · refine .inr ⟨e, u, he, ?_⟩
      rw [herror]
      cases e <;> first | rfl | exact absurd rfl he.ne_notFound

theorem makeDirectories (working : Location) (p : Path) (t : FileTree) :
    EqOrRefused (FileTree.makeDirectories working p)
      (@FileTree.makeDirectories Disk.sound working p) t :=
  makeMissing working _ p t

theorem makeParents (working : Location) (p : Path) (t : FileTree) :
    EqOrRefused (FileTree.makeParents working p)
      (@FileTree.makeParents Disk.sound working p) t := by
  have happly : ∀ [Disk], FileTree.makeParents working p =
      match p.parent? with
      | some parent => FileTree.makeDirectories working parent
      | none => pure () := rfl
  rw [happly, @happly Disk.sound]
  cases p.parent? with
  | none => exact refl _ t
  | some parent => exact makeDirectories working parent t

theorem overwrite (working : Location) (p : Path) (content : Bytes) (t : FileTree) :
    EqOrRefused (FileTree.overwrite working p content)
      (@FileTree.overwrite Disk.sound working p content) t :=
  (refl _ t).bind fun _ u _ => (ask _ u).bind fun _ v _ => write _ _ _ v

/-- **A file is written as on a sound disk, or the disk refuses something.** -/
theorem writeFile (working : Location) (p : Path) (content : Bytes) (t : FileTree) :
    EqOrRefused (FileTree.writeFile working p content)
      (@FileTree.writeFile Disk.sound working p content) t :=
  (makeParents working p t).bind fun _ u _ => overwrite working p content u

theorem copyOver (working : Location) (source target : Path) (t : FileTree) :
    EqOrRefused (FileTree.copyOver working source target)
      (@FileTree.copyOver Disk.sound working source target) t :=
  (refl _ t).bind fun found u _ => (ask _ u).bind fun _ v _ => by
    obtain ⟨here, node⟩ := found
    cases node with
    | link | directory => exact refl _ v
    | file mode content =>
      exact (refl _ v).bind fun _ w _ => (ask _ w).bind fun _ x _ => (refl _ x).bind fun _ y _ =>
        (refl _ y).bind fun _ z _ => (write _ _ _ z).bind fun _ _ _ => refl _ _

theorem copyFile (working : Location) (source target : Path) (t : FileTree) :
    EqOrRefused (FileTree.copyFile working source target)
      (@FileTree.copyFile Disk.sound working source target) t :=
  (makeParents working target t).bind fun _ u _ => copyOver working source target u

theorem readDirectory (listing : Listing) (working : Location) (p : Path) (t : FileTree) :
    EqOrRefused (FileTree.readDirectory listing working p)
      (@FileTree.readDirectory Disk.sound listing working p) t :=
  (refl _ t).bind fun found u _ => by
    obtain ⟨location, node⟩ := found
    cases node with
    | file | link => exact refl _ u
    | directory entries => exact ask_bind _ _ u

theorem copyNested (listing : Listing) (working : Location) (depth : Nat) (source target : Path)
    (t : FileTree) : EqOrRefused (FileTree.copyNested listing working depth source target)
      (@FileTree.copyNested Disk.sound listing working depth source target) t := by
  induction depth generalizing source target t with
  | zero => exact refl _ t
  | succ depth ih =>
    refine (makeDirectories working target t).bind fun _ u _ =>
      (readDirectory listing working source u).bind fun entries v _ =>
        foldlM (fun count entry w => ?_) v
    obtain ⟨name, isDirectory⟩ := entry
    cases isDirectory with
    | true => exact (ih _ _ w).bind fun _ _ _ => refl _ _
    | false => exact (copyFile working _ _ w).bind fun _ _ _ => refl _ _

theorem readText (working : Location) (p : Path) (t : FileTree) :
    EqOrRefused (FileTree.readText working p) (@FileTree.readText Disk.sound working p) t :=
  (refl _ t).bind fun _ u _ => ask_bind _ _ u

/-- **A directory is copied as on a sound disk, or the disk refuses something.** -/
theorem copyTree (listing : Listing) (working : Location) (source target : Path) (t : FileTree) :
    EqOrRefused (FileTree.copyTree listing working source target)
      (@FileTree.copyTree Disk.sound listing working source target) t :=
  copyNested listing working pathLimit source target t

mutual

theorem removeNode (location : Location) (node : FileTree) (t : FileTree) :
    EqOrRefused (FileTree.removeNode location node)
      (@FileTree.removeNode Disk.sound location node) t := by
  match node with
  | .directory entries =>
    exact (ask _ t).bind fun _ u _ => (removeEntries location entries u).bind fun _ v _ =>
      ask_bind _ _ v
  | .file mode content => exact ask_bind _ _ t
  | .link target => exact ask_bind _ _ t

theorem removeEntries (location : Location) (entries : List (Bytes × FileTree)) (t : FileTree) :
    EqOrRefused (FileTree.removeNode.removeEntries location entries)
      (@FileTree.removeNode.removeEntries Disk.sound location entries) t := by
  match entries with
  | [] => exact refl _ t
  | (name, node) :: rest =>
    exact (removeNode (location ++ [name]) node t).bind fun _ u _ => removeEntries location rest u

end

theorem removeEmpty (working : Location) (p : Path) (t : FileTree) :
    EqOrRefused (FileTree.removeEmpty working p) (@FileTree.removeEmpty Disk.sound working p) t :=
  (refl _ t).bind fun place u _ => by
    cases place with
    | absent => exact refl _ u
    | present location node =>
      dsimp only
      split
      · exact refl _ u
      split
      · exact refl _ u
      split
      · exact ask_bind _ _ u
      · exact refl _ u
      · exact refl _ u

theorem removeDirectory (working location : Location) (entries : List (Bytes × FileTree)) (p : Path)
    (t : FileTree) : EqOrRefused (FileTree.removeDirectory working location entries p)
      (@FileTree.removeDirectory Disk.sound working location entries p) t :=
  (ask _ t).bind fun _ u _ => (removeEntries location entries u).bind fun _ v _ => by
    refine (removeEmpty working p v).recover (fun removed =>
      match removed with
      | .error .notFound root => .ok () root
      | done => done) rfl rfl fun e w he => ?_
    cases e <;> first | rfl | exact absurd rfl he.ne_notFound

theorem removeTree (working : Location) (p : Path) (t : FileTree) :
    EqOrRefused (FileTree.removeTree working p) (@FileTree.removeTree Disk.sound working p) t :=
  (refl _ t).bind fun found u _ => by
    obtain ⟨location, node⟩ := found
    cases node with
    | file => exact refl _ u
    | link => exact ask_bind _ _ u
    | directory entries => exact removeDirectory working location entries p u

theorem removeAll_apply (working : Location) (p : Path) (t : FileTree) :
    FileTree.removeAll working p t =
      match FileTree.removeTree working p t with
      | .ok () root => .ok true root
      | .error .notFound root => .ok false root
      | .error e root => .error e root :=
  rfl

/-- **What is at a path is removed as on a sound disk, or the disk refuses something.** -/
theorem removeAll (working : Location) (p : Path) (t : FileTree) :
    EqOrRefused (FileTree.removeAll working p) (@FileTree.removeAll Disk.sound working p) t := by
  rcases removeTree working p t with heq | ⟨e, u, he, herror⟩
  · exact .inl (by rw [removeAll_apply, heq, @removeAll_apply Disk.sound])
  · refine .inr ⟨e, u, he, ?_⟩
    rw [removeAll_apply, herror]
    cases e <;> first | rfl | exact absurd rfl he.ne_notFound

end Action.EqOrRefused

end FileTree
end KernelRegistry
