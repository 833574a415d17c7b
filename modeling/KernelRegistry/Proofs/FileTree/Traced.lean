import Mathlib.Data.List.Infix
import KernelRegistry.Proofs.FileTree.Further
import KernelRegistry.Proofs.FileTree.Kept

/-!
# The calls that copying a directory makes

Copying a directory calls itself for each directory in it.  How often it does is seen from a copy
that writes its calls down, which does what copying does otherwise.

* `Traced` — actions that write calls down; `erase` forgets them.
* `copyTraced` — copying that writes its calls down; `erase_copyTraced` says that it is copying.
* `calls` — the calls that copying makes, in their order.
* `copyNested_eq_copyTree` — **how deep a copy may be nested is never what stops it**: the limit of
  paths is reached first.
* `copyTraced_congr`, `calls_of_le` — a copy with few calls is not stopped by that at all, and where
  calls may be nested deeper, the same calls are made, and maybe more.
-/

set_option autoImplicit false
namespace KernelRegistry
namespace FileTree

open Text (Bytes)

/-! ## Writing calls down -/

/-- The sources and targets of calls. -/
abbrev Calls := List (Path × Path)

/-- An action that writes calls down. -/
abbrev Traced := EStateM FileError (FileTree × Calls)

/-- An action that makes no calls. -/
def untraced {α : Type} (action : Action α) : Traced α := fun s =>
  match action s.1 with
  | .ok a t => .ok a (t, s.2)
  | .error e t => .error e (t, s.2)

/-- Writes a call down. -/
def note (source target : Path) : Traced Unit := fun s => .ok () (s.1, s.2 ++ [(source, target)])

/-- The outcome without the calls. -/
def erase {α : Type} : EStateM.Result FileError (FileTree × Calls) α →
    EStateM.Result FileError FileTree α
  | .ok a s => .ok a s.1
  | .error e s => .error e s.1

/-- The tree and the calls that an action leaves, also where it fails. -/
def Traced.after {α : Type} (action : Traced α) (s : FileTree × Calls) : FileTree × Calls :=
  match action s with
  | .ok _ s' => s'
  | .error _ s' => s'

section Copying

variable [Disk]

/-- Copies a directory, and writes down the calls for the directories in it. -/
def copyTraced (listing : Listing) (working : Location) :
    (depth : Nat) → (source target : Path) → Traced Nat
  | 0, _, _ => throw .nameTooLong
  | depth + 1, source, target => do
    untraced (makeDirectories working target)
    let entries ← untraced (readDirectory listing working source)
    entries.foldlM
      (fun count (name, isDirectory) => do
        let inner := Path.mk name
        if isDirectory then
          note (source.join inner) (target.join inner)
          let copied ← copyTraced listing working depth (source.join inner) (target.join inner)
          return count + copied
        else
          let _ ← untraced (copyFile working (source.join inner) (target.join inner))
          return count + 1)
      0

/-- The copy of one entry of a directory, with its calls. -/
def copyEntryTraced (listing : Listing) (working : Location) (depth : Nat) (source target : Path)
    (count : Nat) : Bytes × Bool → Traced Nat
  | (name, true) => do
    note (source.join ⟨name⟩) (target.join ⟨name⟩)
    let copied ← copyTraced listing working depth (source.join ⟨name⟩) (target.join ⟨name⟩)
    return count + copied
  | (name, false) => do
    let _ ← untraced (copyFile working (source.join ⟨name⟩) (target.join ⟨name⟩))
    return count + 1

/-- The copy of a directory once the target is there, with its calls. -/
def copyEntriesTraced (listing : Listing) (working : Location) (depth : Nat)
    (source target : Path) : Traced Nat := do
  let entries ← untraced (readDirectory listing working source)
  entries.foldlM (copyEntryTraced listing working depth source target) 0

theorem copyTraced_succ (listing : Listing) (working : Location) (depth : Nat)
    (source target : Path) :
    copyTraced listing working (depth + 1) source target =
      (do
        untraced (makeDirectories working target)
        copyEntriesTraced listing working depth source target) := by
  have hentry : (fun (count : Nat) (entry : Bytes × Bool) =>
      if entry.2 = true then do
        note (source.join ⟨entry.1⟩) (target.join ⟨entry.1⟩)
        let copied ← copyTraced listing working depth (source.join ⟨entry.1⟩)
          (target.join ⟨entry.1⟩)
        return count + copied
      else do
        let _ ← untraced (copyFile working (source.join ⟨entry.1⟩) (target.join ⟨entry.1⟩))
        return count + 1) = copyEntryTraced listing working depth source target := by
    funext count entry
    obtain ⟨name, isDirectory⟩ := entry
    cases isDirectory <;> rfl
  rw [copyTraced, copyEntriesTraced, ← hentry]

/-- The calls that copying makes. -/
def calls (listing : Listing) (working : Location) (depth : Nat) (source target : Path)
    (t : FileTree) : Calls :=
  ((copyTraced listing working depth source target).after (t, [])).2

end Copying

/-! ## Forgetting the calls -/

section Erase

variable {α β : Type} {s : FileTree × Calls} {action : Traced α} {plain : Action α}
variable {next : α → Traced β} {next' : α → Action β}

theorem erase_untraced (plain : Action α) (s : FileTree × Calls) :
    erase (untraced plain s) = plain s.1 := by
  rw [untraced]
  cases plain s.1 <;> rfl

theorem erase_bind (h : ∀ s, erase (action s) = plain s.1)
    (hnext : ∀ a s, erase (next a s) = next' a s.1) (s : FileTree × Calls) :
    erase ((action >>= next) s) = (plain >>= next') s.1 := by
  have hs := h s
  cases haction : action s with
  | ok a s' =>
    rw [haction] at hs
    rw [bind_of_ok haction, bind_of_ok hs.symm]
    exact hnext a s'
  | error e s' =>
    rw [haction] at hs
    rw [bind_of_error haction, bind_of_error hs.symm]
    rfl

theorem erase_foldlM {γ : Type} {f : β → γ → Traced β} {f' : β → γ → Action β}
    (h : ∀ b c s, erase (f b c s) = f' b c s.1) (l : List γ) (b : β) (s : FileTree × Calls) :
    erase (l.foldlM f b s) = l.foldlM f' b s.1 := by
  induction l generalizing b s with
  | nil => rfl
  | cons c l ih =>
    rw [List.foldlM_cons, List.foldlM_cons]
    exact erase_bind (h b c) (fun b s => ih b s) s

/-- **Writing the calls down changes nothing else.** -/
theorem erase_copyTraced [Disk] (listing : Listing) (working : Location) (depth : Nat)
    (source target : Path) (s : FileTree × Calls) :
    erase (copyTraced listing working depth source target s) =
      copyNested listing working depth source target s.1 := by
  induction depth generalizing source target s with
  | zero => rfl
  | succ depth ih =>
    rw [copyTraced, copyNested]
    refine erase_bind (erase_untraced _) (fun _ s => ?_) s
    refine erase_bind (erase_untraced _) (fun entries s => ?_) s
    refine erase_foldlM (fun count entry s => ?_) _ _ s
    obtain ⟨name, isDirectory⟩ := entry
    cases isDirectory with
    | true => exact erase_bind (ih _ _) (fun _ _ => rfl) _
    | false => exact erase_bind (erase_untraced _) (fun _ _ => rfl) s

theorem after_fst (h : ∀ s, erase (action s) = plain s.1) (s : FileTree × Calls) :
    (action.after s).1 = plain.after s.1 := by
  rw [Traced.after, Action.after, ← h s]
  cases action s <;> rfl

end Erase

/-! ## How deep a copy is nested -/

section Fold

variable {σ α β : Type} {P : σ → Prop} {s : σ} {l : List α} {init : β}

theorem bind_congr {γ : Type} {action action' : EStateM FileError σ α}
    {next next' : α → EStateM FileError σ γ} (h : action s = action' s)
    (hnext : ∀ a s', action s = .ok a s' → next a s' = next' a s') :
    (action >>= next) s = (action' >>= next') s := by
  cases haction : action s with
  | ok a s' =>
    rw [bind_of_ok haction, bind_of_ok (h.symm.trans haction)]
    exact hnext a s' haction
  | error e s' => rw [bind_of_error haction, bind_of_error (h.symm.trans haction)]

/-- Steps over a list are the same if each of them is, wherever what they keep holds. -/
theorem foldlM_congr {f g : β → α → EStateM FileError σ β} (hs : P s)
    (hstep : ∀ a ∈ l, ∀ b s, P s → f b a s = g b a s ∧ ∀ c s', f b a s = .ok c s' → P s') :
    l.foldlM f init s = l.foldlM g init s := by
  induction l generalizing s init with
  | nil => rfl
  | cons a rest ih =>
    obtain ⟨hfirst, hkept⟩ := hstep a List.mem_cons_self init s hs
    rw [List.foldlM_cons, List.foldlM_cons]
    exact bind_congr hfirst fun c s' hok =>
      ih (hkept c s' hok) fun a' ha' => hstep a' (List.mem_cons_of_mem _ ha')

end Fold

section Depth

variable {listing : Listing} {working : Location} {source target : Path} {name : Bytes}
variable {depth depth' : Nat} {t u : FileTree}

theorem length_lt_join (source : Path) (hname : Path.IsName name) :
    source.bytes.length < (source.join ⟨name⟩).bytes.length := by
  have hpos := List.length_pos_iff.2 hname.nonempty
  rw [Path.join, if_neg (by simp [Path.isAbsolute_eq_false_of_isName hname])]
  split <;> simp only [List.length_append, List.length_cons] <;> omega

/-- A copy that is nested this deep is stopped by the limit of paths first: every call makes its
paths longer. -/
structure Deep (depth : Nat) (source : Path) : Prop where
  pos : 0 < depth
  limit : source.isEmpty = true ∨ pathLimit < depth + source.bytes.length

theorem Deep.join (h : Deep (depth + 1) source) (hsound : source.Sound)
    (hname : Path.IsName name) : Deep depth (source.join ⟨name⟩) := by
  have hlimit := h.limit.resolve_left (by simp [hsound.nonempty])
  have hshort := hsound.fits
  have hlonger := length_lt_join source hname
  exact ⟨by omega, .inr (by omega)⟩

/-- **The limit of paths is reached before a copy is nested too deep.** -/
theorem copyNested_congr [Disk] (hlisting : listing.Exact) (ht : HasWorkplace t working)
    (h : Deep depth source) (h' : Deep depth' source) :
    copyNested listing working depth source target t =
      copyNested listing working depth' source target t := by
  induction depth generalizing depth' source target t with
  | zero => exact absurd h.pos (Nat.lt_irrefl 0)
  | succ depth ih =>
    obtain ⟨depth', rfl⟩ := Nat.exists_eq_add_of_lt h'.pos
    rw [Nat.zero_add] at h' ⊢
    have hmade := ht.makeDirectories target
    rw [copyNested_succ, copyNested_succ]
    refine bind_congr rfl fun _ v hok => ?_
    rw [Action.after_of_ok hok] at hmade
    refine bind_congr rfl fun listed w hread => ?_
    obtain ⟨rfl, location, entries, hfind, rfl⟩ := readDirectory_eq_ok hread
    have hsound := sound_of_locate (locate_of_find hfind)
    refine foldlM_congr (P := fun u => HasWorkplace u working) hmade
      fun entry hentry count x hx => ?_
    obtain ⟨last, isDirectory⟩ := entry
    have hlast := (hmade.listed hlisting hfind hentry).1
    cases isDirectory with
    | true =>
      refine ⟨bind_congr (ih hx (h.join hsound hlast) (h'.join hsound hlast)) fun _ _ _ => rfl,
        fun c y hcopy => ?_⟩
      obtain ⟨copied, z, hcopied, hreturn⟩ := bind_eq_ok hcopy
      cases hreturn
      exact Action.after_of_ok hcopied ▸ hx.copyNested depth _ _
    | false =>
      refine ⟨rfl, fun c y hcopy => ?_⟩
      obtain ⟨copied, z, hcopied, hreturn⟩ := bind_eq_ok hcopy
      cases hreturn
      exact Action.after_of_ok hcopied ▸ hx.copyFile _ _

/-- **How deep a copy may be nested is never what stops it.** -/
theorem copyNested_eq_copyTree [Disk] (hlisting : listing.Exact) (ht : HasWorkplace t working)
    (hdepth : pathLimit ≤ depth) :
    copyNested listing working depth source target t =
      copyTree listing working source target t := by
  have hdeep : ∀ depth, pathLimit ≤ depth → Deep depth source := by
    intro depth hdepth
    refine ⟨Nat.lt_of_lt_of_le (by decide) hdepth, ?_⟩
    cases hempty : source.isEmpty with
    | true => exact .inl rfl
    | false =>
      have := List.length_pos_iff.2 (List.isEmpty_eq_false_iff.1 hempty)
      exact .inr (by omega)
  exact copyNested_congr hlisting ht (hdeep depth hdepth) (hdeep pathLimit (Nat.le_refl _))

end Depth

/-! ## Few calls -/

namespace Traced

variable {α β : Type} {action : Traced α} {next : α → Traced β} {s s' : FileTree × Calls} {a : α}
variable {e : FileError} {plain : Action α}

theorem after_of_ok (h : action s = .ok a s') : action.after s = s' := by
  rw [after, h]

theorem after_of_error (h : action s = .error e s') : action.after s = s' := by
  rw [after, h]

/-- To know something after two steps, know it after the first one, and after the second one if the
first one succeeds. -/
theorem after_bind {P : FileTree × Calls → Prop} (hfirst : P (action.after s))
    (hnext : ∀ a s', action s = .ok a s' → P ((next a).after s')) :
    P ((action >>= next).after s) := by
  cases haction : action s with
  | ok a s' =>
    have := hnext a s' haction
    rwa [after, bind_of_ok haction]
  | error e s' =>
    rw [after_of_error haction] at hfirst
    rwa [after_of_error (bind_of_error haction)]

/-- A property that every step keeps holds after all of them, also where one fails. -/
theorem after_foldlM {P : FileTree × Calls → Prop} {f : β → α → Traced β} {l : List α} {init : β}
    (hs : P s) (hstep : ∀ a ∈ l, ∀ b s, P s → P ((f b a).after s)) :
    P (Traced.after (l.foldlM f init) s) := by
  induction l generalizing s init with
  | nil => exact hs
  | cons a rest ih =>
    have hfirst := hstep a List.mem_cons_self init s hs
    rw [List.foldlM_cons]
    refine after_bind hfirst fun c s' hok => ?_
    rw [after_of_ok hok] at hfirst
    exact ih hfirst fun a' ha' => hstep a' (List.mem_cons_of_mem _ ha')

theorem after_untraced (plain : Action α) (s : FileTree × Calls) :
    (untraced plain).after s = (plain.after s.1, s.2) := by
  rw [after, Action.after, untraced]
  cases plain s.1 <;> rfl

theorem untraced_eq_ok (h : untraced plain s = .ok a s') :
    plain s.1 = .ok a s'.1 ∧ s'.2 = s.2 := by
  rw [untraced] at h
  cases hplain : plain s.1 with
  | ok b t =>
    rw [hplain] at h
    cases h
    exact ⟨rfl, rfl⟩
  | error e t =>
    rw [hplain] at h
    cases h

/-- Reading a directory changes nothing. -/
theorem readDirectory_eq_ok [Disk] {listing : Listing} {working : Location} {source : Path}
    {listed : List (Bytes × Bool)}
    (h : untraced (readDirectory listing working source) s = .ok listed s') :
    s' = s ∧ ∃ location entries,
      find s.1 working true source = .ok (location, .directory entries) ∧
      listed = listNames listing location entries := by
  obtain ⟨hread, hcalls⟩ := untraced_eq_ok h
  obtain ⟨htree, hfound⟩ := FileTree.readDirectory_eq_ok hread
  exact ⟨Prod.ext htree hcalls, hfound⟩

/-- A value that is returned afterwards changes nothing. -/
theorem after_bind_pure (action : Traced α) (f : α → β) (s : FileTree × Calls) :
    (action >>= fun a => pure (f a) : Traced β).after s = action.after s := by
  cases haction : action s with
  | ok a s' => rw [after, bind_of_ok haction, after_of_ok haction]; rfl
  | error e s' => rw [after_of_error haction, after_of_error (bind_of_error haction)]

end Traced

section Few

variable [Disk] {listing : Listing} {working : Location} {source target : Path} {depth depth' : Nat}
variable {t : FileTree} {s : FileTree × Calls} {name : Bytes} {count : Nat}

theorem after_copyEntryTraced_directory (listing : Listing) (working : Location) (depth : Nat)
    (source target : Path) (count : Nat) (name : Bytes) (s : FileTree × Calls) :
    (copyEntryTraced listing working depth source target count (name, true)).after s =
      (copyTraced listing working depth (source.join ⟨name⟩) (target.join ⟨name⟩)).after
        (s.1, s.2 ++ [(source.join ⟨name⟩, target.join ⟨name⟩)]) :=
  Traced.after_bind_pure (copyTraced listing working depth _ _) (count + ·) _

theorem after_copyEntryTraced_file (listing : Listing) (working : Location) (depth : Nat)
    (source target : Path) (count : Nat) (name : Bytes) (s : FileTree × Calls) :
    (copyEntryTraced listing working depth source target count (name, false)).after s =
      ((copyFile working (source.join ⟨name⟩) (target.join ⟨name⟩)).after s.1, s.2) :=
  (Traced.after_bind_pure (untraced (copyFile working _ _)) (fun _ => count + 1) s).trans
    (Traced.after_untraced _ s)

omit [Disk] in
theorem Traced.foldlM_grows {α β : Type} {f : β → α → Traced β} {l : List α} {init : β}
    (hgrows : ∀ a b s, s.2 <+: ((f b a).after s).2) :
    s.2 <+: (Traced.after (l.foldlM f init) s).2 :=
  Traced.after_foldlM (P := fun s' => s.2 <+: s'.2) (List.prefix_refl _)
    fun a _ b _ hs => hs.trans (hgrows a b _)

/-- A step over an entry keeps the calls that were written down if copying a directory does. -/
theorem copyEntryTraced_grows_of
    (hinner : ∀ {source target : Path} {s : FileTree × Calls},
      s.2 <+: ((copyTraced listing working depth source target).after s).2)
    (entry : Bytes × Bool) :
    s.2 <+: ((copyEntryTraced listing working depth source target count entry).after s).2 := by
  obtain ⟨name, isDirectory⟩ := entry
  cases isDirectory with
  | true =>
    rw [after_copyEntryTraced_directory]
    exact List.IsPrefix.trans (List.prefix_append _ _) (hinner (s := (_, _)))
  | false =>
    rw [after_copyEntryTraced_file]

theorem copyEntriesTraced_grows_of
    (hinner : ∀ {source target : Path} {s : FileTree × Calls},
      s.2 <+: ((copyTraced listing working depth source target).after s).2) :
    s.2 <+: ((copyEntriesTraced listing working depth source target).after s).2 := by
  refine Traced.after_bind (P := fun s' => s.2 <+: s'.2) ?_ fun listed v hread => ?_
  · rw [Traced.after_untraced]
  · rw [(Traced.readDirectory_eq_ok hread).1]
    exact Traced.foldlM_grows fun entry _ _ => copyEntryTraced_grows_of hinner entry

/-- Calls that were written down stay. -/
theorem copyTraced_grows :
    s.2 <+: ((copyTraced listing working depth source target).after s).2 := by
  induction depth generalizing source target s with
  | zero => exact List.prefix_refl _
  | succ depth ih =>
    rw [copyTraced_succ]
    refine Traced.after_bind (P := fun s' => s.2 <+: s'.2)
      (by rw [Traced.after_untraced]) fun _ u hmade => ?_
    rw [← (Traced.untraced_eq_ok hmade).2]
    exact copyEntriesTraced_grows_of ih

theorem copyEntryTraced_grows (entry : Bytes × Bool) :
    s.2 <+: ((copyEntryTraced listing working depth source target count entry).after s).2 :=
  copyEntryTraced_grows_of copyTraced_grows entry

theorem copyEntriesTraced_grows :
    s.2 <+: ((copyEntriesTraced listing working depth source target).after s).2 :=
  copyEntriesTraced_grows_of copyTraced_grows

section Fold

variable {α β : Type} {f g : β → α → Traced β} {l : List α} {init : β}

omit [Disk] in
/-- Steps over a list are the same if each of them is that stays below a number of calls. -/
theorem Traced.foldlM_congr (least limit : Nat) (hgrows : ∀ a b s, s.2 <+: ((f b a).after s).2)
    (hstep : ∀ a ∈ l, ∀ b s, least ≤ s.2.length → ((f b a).after s).2.length < limit →
      g b a s = f b a s)
    (hleast : least ≤ s.2.length) (hlimit : (Traced.after (l.foldlM f init) s).2.length < limit) :
    l.foldlM g init s = l.foldlM f init s := by
  induction l generalizing s init with
  | nil => rfl
  | cons a rest ih =>
    have hfirst : ((f init a).after s).2.length < limit := by
      refine Nat.lt_of_le_of_lt (List.IsPrefix.length_le ?_) hlimit
      rw [List.foldlM_cons]
      refine Traced.after_bind (P := fun s' => ((f init a).after s).2 <+: s'.2)
        (List.prefix_refl _) fun b s' hok => ?_
      rw [Traced.after_of_ok hok]
      exact Traced.foldlM_grows hgrows
    rw [List.foldlM_cons, List.foldlM_cons]
    refine bind_congr (hstep a List.mem_cons_self init s hleast hfirst) fun b s' hok => ?_
    rw [hstep a List.mem_cons_self init s hleast hfirst] at hok
    have hgrown := (hgrows a init s).length_le
    rw [Traced.after_of_ok hok] at hgrown
    refine ih (fun a' ha' => hstep a' (List.mem_cons_of_mem _ ha')) (Nat.le_trans hleast hgrown) ?_
    rwa [List.foldlM_cons, Traced.after, bind_of_ok hok] at hlimit

end Fold

/-- **A copy that makes fewer calls than it may be nested deep is not stopped by that.** -/
theorem copyTraced_congr (hdepth : depth ≤ depth')
    (hfew : ((copyTraced listing working depth source target).after s).2.length <
      s.2.length + depth) :
    copyTraced listing working depth' source target s =
      copyTraced listing working depth source target s := by
  induction depth generalizing depth' source target s with
  | zero => exact absurd hfew (Nat.lt_irrefl _)
  | succ depth ih =>
    obtain ⟨depth', rfl⟩ := Nat.exists_eq_add_of_le' (Nat.le_trans (by omega) hdepth : 1 ≤ depth')
    rw [copyTraced_succ] at hfew ⊢
    rw [copyTraced_succ]
    refine bind_congr rfl fun _ u hmade => ?_
    rw [Traced.after, bind_of_ok hmade] at hfew
    have hcalls := (Traced.untraced_eq_ok hmade).2
    refine bind_congr rfl fun listed v hread => ?_
    obtain ⟨rfl, -⟩ := Traced.readDirectory_eq_ok hread
    refine Traced.foldlM_congr s.2.length (s.2.length + (depth + 1))
      (fun entry _ _ => copyEntryTraced_grows entry) (fun entry _ count w hleast hlimit => ?_)
      (Nat.le_of_eq (by rw [hcalls])) ?_
    · obtain ⟨name, isDirectory⟩ := entry
      cases isDirectory with
      | false => rfl
      | true =>
        rw [after_copyEntryTraced_directory] at hlimit
        refine bind_congr rfl fun _ x hnote => bind_congr (ih (by omega) ?_) fun _ _ _ => rfl
        cases hnote
        refine Nat.lt_of_lt_of_le hlimit ?_
        rw [List.length_append, List.length_singleton]
        omega
    · have := hfew
      rwa [copyEntriesTraced, bind_of_ok hread] at this

/-! ### More calls where more are allowed -/

/-- A step does the same as another one, or it fails after the first of the other one's calls.  A
copy that may be nested less deep is related in this way to one that may be nested deeper. -/
def Traced.CutShort {α : Type} (f g : Traced α) (s : FileTree × Calls) : Prop :=
  g s = f s ∨ ∃ e s', f s = .error e s' ∧ s'.2 <+: (g.after s).2

section Cut

variable {α β : Type} {f g : Traced α}

omit [Disk] in
theorem Traced.CutShort.bind {next next' : α → Traced β} (h : Traced.CutShort f g s)
    (hnext : ∀ a s', f s = .ok a s' → Traced.CutShort (next a) (next' a) s')
    (hgrows : ∀ a s', s'.2 <+: ((next' a).after s').2) :
    Traced.CutShort (f >>= next) (g >>= next') s := by
  rcases h with hsame | ⟨e, s', herror, hcalls⟩
  · cases hf : f s with
    | error e s' =>
      exact .inl ((bind_of_error (hsame.trans hf)).trans (bind_of_error hf).symm)
    | ok a s' =>
      rw [Traced.CutShort, bind_of_ok hf, Traced.after, bind_of_ok (hsame.trans hf)]
      exact hnext a s' hf
  · refine .inr ⟨e, s', bind_of_error herror, hcalls.trans ?_⟩
    refine Traced.after_bind (P := fun u => (g.after s).2 <+: u.2) (List.prefix_refl _)
      fun a u hok => ?_
    rw [Traced.after_of_ok hok]
    exact hgrows a u

omit [Disk] in
theorem Traced.CutShort.foldlM {f g : β → α → Traced β} {l : List α} {init : β}
    (hstep : ∀ a b s, Traced.CutShort (f b a) (g b a) s)
    (hgrows : ∀ a b s, s.2 <+: ((g b a).after s).2) :
    Traced.CutShort (l.foldlM f init) (l.foldlM g init) s := by
  induction l generalizing s init with
  | nil => exact .inl rfl
  | cons a rest ih =>
    rw [List.foldlM_cons, List.foldlM_cons]
    exact (hstep a init s).bind (fun _ _ _ => ih) fun b s' => Traced.foldlM_grows hgrows

end Cut

/-- **Where calls may be nested deeper, the same calls are made, and maybe more.** -/
theorem copyTraced_cutShort (hdepth : depth ≤ depth') :
    Traced.CutShort (copyTraced listing working depth source target)
      (copyTraced listing working depth' source target) s := by
  induction depth generalizing depth' source target s with
  | zero => exact .inr ⟨.nameTooLong, s, rfl, copyTraced_grows⟩
  | succ depth ih =>
    obtain ⟨depth', rfl⟩ := Nat.exists_eq_add_of_le' (Nat.le_trans (by omega) hdepth : 1 ≤ depth')
    rw [copyTraced_succ, copyTraced_succ]
    refine .bind (.inl rfl) (fun _ u _ =>
      .bind (.inl rfl) (fun listed v _ => ?_) fun listed v => ?_)
      fun _ u => ?_
    · refine .foldlM (fun entry count w => ?_) fun entry _ _ => copyEntryTraced_grows entry
      obtain ⟨name, isDirectory⟩ := entry
      cases isDirectory with
      | false => exact .inl rfl
      | true =>
        refine .bind (.inl rfl) (fun _ x _ => .bind (ih (by omega)) (fun _ _ _ => .inl rfl)
          fun _ _ => List.prefix_refl _) fun _ x => ?_
        exact Traced.after_bind_pure (copyTraced listing working depth' _ _) (count + ·) x ▸
          copyTraced_grows
    · exact Traced.foldlM_grows fun entry _ _ => copyEntryTraced_grows entry
    · exact copyEntriesTraced_grows

theorem calls_of_le (hdepth : depth ≤ depth') (t : FileTree) :
    calls listing working depth source target t <+:
      calls listing working depth' source target t := by
  have hcut : Traced.CutShort (copyTraced listing working depth source target)
      (copyTraced listing working depth' source target) (t, []) := copyTraced_cutShort hdepth
  rcases hcut with hsame | ⟨e, s', herror, hcalls⟩
  · rw [calls, calls, Traced.after, Traced.after, hsame]
  · rwa [calls, Traced.after_of_error herror]

end Few

end FileTree
end KernelRegistry
