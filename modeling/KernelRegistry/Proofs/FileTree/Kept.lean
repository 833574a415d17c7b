import KernelRegistry.Proofs.FileTree.Ancestors
import KernelRegistry.Proofs.FileTree.Copy

/-!
# What copying keeps

Copying puts nothing else anywhere than empty directories and files.

* `FileTree.Leaf` — an empty directory or a file; `makeDirectories_kept` and `copyFile_kept` say
  that what holds whenever one is put somewhere holds after the operations.
* `FileTree.isDistinct` — every directory has different names; copying keeps it.
* `FileTree.HasWorkplace` — a proper tree with a directory to work in; copying keeps it.
* `FileTree.HasWorkplace.copyNested` — **the same for a whole copy**, also where it fails.
-/

set_option autoImplicit false
namespace KernelRegistry
namespace FileTree

open Text (Bytes)

/-! ## Putting something somewhere -/

/-- An empty directory or a file.  Copying never puts anything larger into a tree at once, and no
link. -/
inductive Leaf : FileTree → Prop
  | directory : Leaf (directory [])
  | file (mode : Nat) (content : Bytes) : Leaf (file mode content)

section Put

variable [Disk] {P : FileTree → Prop} {t : FileTree} {working : Location} {p source target : Path}
variable (hput : ∀ t s x, P t → Leaf s → P (t.update (some s) x))
include hput

theorem ensureDirectory_kept (ht : P t) : P ((ensureDirectory working p).after t) := by
  rw [ensureDirectory_after]
  exact after_makeDirectory ht fun _ _ _ _ => hput t _ _ ht .directory

theorem makeMissing_kept (steps : Nat) (ht : P t) : P ((makeMissing working steps p).after t) := by
  induction steps generalizing p t with
  | zero => exact ht
  | succ steps ih =>
    rcases makeMissing_cases working steps p t with ⟨-, hok⟩ | heq | ⟨u, q, hensure, -, heq⟩
    · rwa [Action.after_of_ok hok]
    · rw [Action.after, heq]
      exact ensureDirectory_kept hput ht
    · have hu : P ((ensureDirectory working p).after t) := ensureDirectory_kept hput ht
      rw [Action.after_of_error hensure] at hu
      rw [Action.after, heq]
      refine after_bind (ih hu) fun _ v hok => ensureDirectory_kept hput ?_
      exact Action.after_of_ok hok ▸ ih hu

/-- **What every put keeps, making directories keeps**, also where it fails. -/
theorem makeDirectories_kept (ht : P t) : P ((makeDirectories working p).after t) :=
  makeMissing_kept hput _ ht

theorem makeParents_kept (ht : P t) : P ((makeParents working p).after t) := by
  rw [makeParents]
  split
  · exact makeDirectories_kept hput ht
  · exact ht

theorem copyOver_kept (ht : P t) : P ((copyOver working source target).after t) :=
  after_copyOver ht fun u there _ mode left _ hu => hput u _ there hu (.file mode left)

/-- **What every put keeps, copying a file keeps**, also where it fails. -/
theorem copyFile_kept (ht : P t) : P ((copyFile working source target).after t) := by
  have hparents : P ((makeParents working target).after t) := makeParents_kept hput ht
  refine after_bind hparents fun _ u hok => copyOver_kept hput ?_
  exact Action.after_of_ok hok ▸ hparents

end Put

section Copy

variable [Disk] {P : FileTree → Prop} {t : FileTree} {working : Location} {source target : Path}
variable {listing : Listing}

/-- **What making directories and copying files keeps, copying a directory keeps**, also where it
fails. -/
theorem copyNested_kept (hmake : ∀ t p, P t → P ((makeDirectories working p).after t))
    (hcopy : ∀ t p q, P t → P ((copyFile working p q).after t)) (depth : Nat) (ht : P t) :
    P ((copyNested listing working depth source target).after t) := by
  induction depth generalizing source target t with
  | zero => exact ht
  | succ depth ih =>
    have hmade := hmake t target ht
    rw [copyNested_succ]
    refine after_bind hmade fun _ u hok => ?_
    rw [Action.after_of_ok hok] at hmade
    refine after_copyEntries hmade fun _ _ name isDirectory _ w hw => ?_
    cases isDirectory with
    | true => exact ih hw
    | false => exact hcopy w (source.join ⟨name⟩) (target.join ⟨name⟩) hw

end Copy

/-! ## Different names -/

/-- Names are different in every directory, which a list of entries does not ensure by itself. -/
def isDistinct : FileTree → Bool
  | directory entries => decide (entries.map Prod.fst).Nodup && inner entries
  | _ => true
where
  inner : List (Bytes × FileTree) → Bool
    | [] => true
    | (_, child) :: rest => child.isDistinct && inner rest

section Distinct

variable {t s : FileTree} {x : Location} {name : Bytes} {entries : List (Bytes × FileTree)}
variable {listing : Listing}

theorem isDistinct_inner_iff :
    isDistinct.inner entries = true ↔ ∀ e ∈ entries, e.2.isDistinct = true := by
  induction entries with
  | nil => simp [isDistinct.inner]
  | cons e es ih =>
    obtain ⟨name, child⟩ := e
    rw [isDistinct.inner, Bool.and_eq_true, ih, List.forall_mem_cons]

theorem isDistinct_directory_iff : (directory entries).isDistinct = true ↔
    (entries.map Prod.fst).Nodup ∧ ∀ e ∈ entries, e.2.isDistinct = true := by
  rw [isDistinct, Bool.and_eq_true, decide_eq_true_eq, isDistinct_inner_iff]

theorem Leaf.isDistinct (h : Leaf s) : s.isDistinct = true := by
  cases h <;> rfl

theorem mem_of_child? (h : child? name entries = some s) : (name, s) ∈ entries := by
  induction entries with
  | nil => cases h
  | cons e es ih =>
    rw [child?] at h
    split at h
    · next hname =>
      cases h
      exact hname ▸ List.mem_cons_self
    · exact List.mem_cons_of_mem _ (ih h)

/-- Trees in a tree of different names have different names as well. -/
theorem isDistinct_get? (ht : t.isDistinct = true) (h : t.get? x = some s) :
    s.isDistinct = true := by
  induction x generalizing t with
  | nil => exact Option.some.inj h ▸ ht
  | cons name rest ih =>
    cases t with
    | file | link => cases h
    | directory entries =>
      rw [get?_directory_cons] at h
      obtain ⟨child, hchild, h⟩ := Option.bind_eq_some_iff.1 h
      exact ih ((isDistinct_directory_iff.1 ht).2 _ (mem_of_child? hchild)) h

theorem mem_setEntry {e : Bytes × FileTree} (h : e ∈ setEntry name s entries) :
    e = (name, s) ∨ e ∈ entries := by
  induction entries with
  | nil => exact .inl (List.mem_singleton.1 h)
  | cons first rest ih =>
    rw [setEntry] at h
    split at h <;> rcases List.mem_cons.1 h with rfl | h
    · exact .inl rfl
    · exact .inr (List.mem_cons_of_mem _ h)
    · exact .inr List.mem_cons_self
    · exact (ih h).imp_right (List.mem_cons_of_mem _)

theorem nodup_setEntry (h : (entries.map Prod.fst).Nodup) :
    ((setEntry name s entries).map Prod.fst).Nodup := by
  induction entries with
  | nil => exact List.nodup_cons.2 ⟨List.not_mem_nil, List.nodup_nil⟩
  | cons first rest ih =>
    rw [List.map_cons, List.nodup_cons] at h
    rw [setEntry]
    split
    · next hname => exact List.nodup_cons.2 ⟨hname ▸ h.1, h.2⟩
    · next hname =>
      refine List.nodup_cons.2 ⟨fun hmem => ?_, ih h.2⟩
      obtain ⟨e, he, hfirst⟩ := List.mem_map.1 hmem
      rcases mem_setEntry he with rfl | he
      · exact hname hfirst.symm
      · exact h.1 (hfirst ▸ List.mem_map_of_mem he)

theorem isDistinct_setEntry (ht : (directory entries).isDistinct = true)
    (hs : s.isDistinct = true) : (directory (setEntry name s entries)).isDistinct = true := by
  rw [isDistinct_directory_iff] at ht ⊢
  refine ⟨nodup_setEntry ht.1, fun e he => ?_⟩
  rcases mem_setEntry he with rfl | he
  · exact hs
  · exact ht.2 e he

/-- **Putting something somewhere keeps names different.** -/
theorem isDistinct_update (ht : t.isDistinct = true) (hs : s.isDistinct = true) (x : Location) :
    (t.update (some s) x).isDistinct = true := by
  induction x generalizing t with
  | nil => exact hs
  | cons name rest ih =>
    cases t with
    | file | link => cases rest <;> exact ht
    | directory entries =>
      cases rest with
      | nil => exact isDistinct_setEntry ht hs
      | cons next rest =>
        rw [update_cons_cons]
        split
        · next child hchild =>
          exact isDistinct_setEntry ht
            (ih ((isDistinct_directory_iff.1 ht).2 _ (mem_of_child? hchild)))
        · exact ht

/-- The names in a directory are listed once. -/
theorem nodup_names (h : (directory entries).isDistinct = true) :
    (directory entries).names.Nodup :=
  (names_perm entries).nodup_iff.2 (isDistinct_directory_iff.1 h).1

/-- No name is listed twice. -/
theorem nodup_listNames (hlisting : listing.Exact) (ht : t.isDistinct = true)
    (hget : t.get? x = some (.directory entries)) :
    ((listNames listing x entries).map Prod.fst).Nodup := by
  rw [((listNames_perm hlisting x entries).map Prod.fst).nodup_iff, List.map_map]
  exact (List.map_id _).symm ▸ nodup_names (isDistinct_get? ht hget)

variable [Disk]

theorem makeDirectories_isDistinct (ht : t.isDistinct = true) (working : Location) (p : Path) :
    ((makeDirectories working p).after t).isDistinct = true :=
  makeDirectories_kept (P := fun u => u.isDistinct = true)
    (fun _ _ x hu hs => isDistinct_update hu hs.isDistinct x) ht

theorem makeParents_isDistinct (ht : t.isDistinct = true) (working : Location) (p : Path) :
    ((makeParents working p).after t).isDistinct = true :=
  makeParents_kept (P := fun u => u.isDistinct = true)
    (fun _ _ x hu hs => isDistinct_update hu hs.isDistinct x) ht

theorem copyFile_isDistinct (ht : t.isDistinct = true) (working : Location) (p q : Path) :
    ((copyFile working p q).after t).isDistinct = true :=
  copyFile_kept (P := fun u => u.isDistinct = true)
    (fun _ _ x hu hs => isDistinct_update hu hs.isDistinct x) ht

theorem copyNested_isDistinct (ht : t.isDistinct = true) (listing : Listing) (working : Location)
    (depth : Nat) (source target : Path) :
    ((copyNested listing working depth source target).after t).isDistinct = true :=
  copyNested_kept (P := fun u => u.isDistinct = true)
    (fun _ p hu => makeDirectories_isDistinct hu working p)
    (fun _ p q hu => copyFile_isDistinct hu working p q) depth ht

end Distinct

/-! ## A directory to work in -/

/-- A proper tree with a directory to work in.  The source and the target of a copy are seen from
this directory, so it has to stay while things are copied. -/
structure HasWorkplace (t : FileTree) (working : Location) : Prop where
  proper : t.Proper
  working : t.node? working = some .directory

section HasWorkplace

variable {t u : FileTree} {working location : Location} {p source target : Path} {mode : Nat}
variable {content : Bytes} {stops : List Location} {listing : Listing} {depth : Nat}

/-- Every path starts from a directory. -/
theorem HasWorkplace.freeStart (h : HasWorkplace t working) (p : Path) : FreeStart t working p :=
  .of_working h.proper.root (fun _ hn => Option.some.inj (hn.symm.trans h.working)) p

theorem HasWorkplace.node?_start (h : HasWorkplace t working) (p : Path) :
    t.node? (start working p) = some .directory := by
  rw [start]
  split
  · exact h.proper.root
  · exact h.working

theorem Made.hasWorkplace (h : Made stops t u) (ht : HasWorkplace t working) :
    HasWorkplace u working :=
  ⟨h.proper ht.proper, h.same _ _ ht.working⟩

theorem Wrote.proper (h : Wrote t u working p location mode content) (ht : t.Proper) :
    u.Proper := by
  obtain ⟨above, name, hlocation, -, hname⟩ := h.writable.entry
  refine ⟨?_, fun parent last hlast => ?_⟩
  · rw [h.node, if_neg, ht.root]
    rintro rfl
    simp at hlocation
  · rw [h.node] at hlast
    split at hlast
    · next heq =>
      rw [hlocation] at heq
      obtain ⟨rfl, hlast'⟩ := List.append_inj' heq rfl
      obtain rfl : last = name := (List.cons.inj hlast').1
      by_cases hnone : t.node? location = none
      · exact hname hnone
      · exact ht.names parent last (hlocation ▸ hnone)
    · exact ht.names parent last hlast

theorem Wrote.hasWorkplace (h : Wrote t u working p location mode content)
    (ht : HasWorkplace t working) :
    HasWorkplace u working := by
  refine ⟨h.proper ht.proper, ?_⟩
  rw [h.node, if_neg, ht.working]
  rintro rfl
  exact h.writable.leaf ht.working

/-- Everything that is listed has a name, and something with that name was there. -/
theorem HasWorkplace.listed (h : HasWorkplace t working) (hlisting : listing.Exact)
    {entries : List (Bytes × FileTree)}
    (hfind : find t working true source = .ok (location, .directory entries)) {last : Bytes}
    {isDirectory : Bool} (hentry : (last, isDirectory) ∈ listNames listing location entries) :
    Path.IsName last ∧ ∃ child, t.get? (location ++ [last]) = some child ∧
      child.isDirectory = isDirectory := by
  obtain ⟨child, hchild, hisDirectory⟩ :=
    (mem_listNames_iff hlisting (of_find (h.freeStart source) hfind).get).1 hentry
  exact ⟨h.proper.names location last (by rw [node?_eq_some hchild]; simp), child, hchild,
    hisDirectory⟩

variable [Disk]

theorem HasWorkplace.makeDirectories (h : HasWorkplace t working) (p : Path) :
    HasWorkplace ((FileTree.makeDirectories working p).after t) working :=
  (makeDirectories_made (h.freeStart p)).hasWorkplace h

theorem HasWorkplace.copyFile (h : HasWorkplace t working) (source target : Path) :
    HasWorkplace ((FileTree.copyFile working source target).after t) working := by
  have hmade := (makeParents_made (h.freeStart target)).hasWorkplace h
  refine after_bind (P := fun u => HasWorkplace u working) hmade fun _ u hok => ?_
  rw [Action.after_of_ok hok] at hmade
  rcases copyOver_cases (hmade.freeStart source) (hmade.freeStart target) with
    ⟨e, he⟩ | ⟨here, mode, content, there, -, ⟨n, w, hwrote, hok'⟩ | ⟨e, w, cut, -, hwrote, he⟩⟩
  · rwa [Action.after_of_error he]
  · rw [Action.after_of_ok hok']
    exact hwrote.hasWorkplace hmade
  · rw [Action.after_of_error he]
    exact hwrote.hasWorkplace hmade

theorem HasWorkplace.copyNested (h : HasWorkplace t working) (depth : Nat) (source target : Path) :
    HasWorkplace ((FileTree.copyNested listing working depth source target).after t) working :=
  copyNested_kept (P := fun u => HasWorkplace u working) (fun _ p hu => hu.makeDirectories p)
    (fun _ p q hu => hu.copyFile p q) depth h

end HasWorkplace

end FileTree
end KernelRegistry
