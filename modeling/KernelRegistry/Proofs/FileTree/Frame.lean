import KernelRegistry.Proofs.FileTree.Agree
import KernelRegistry.Proofs.FileTree.Ancestors
import KernelRegistry.Proofs.FileTree.Removal

/-!
# What an operation leaves alone

An operation whose path leads to a place or below it changes nothing beside that place, not even the
order in which something is kept in a directory there.

* `FileTree.Reaches` — a path leads to a place or below it, and nothing else is missing on its way.
* `AgreeOff.makeDirectories_put`, `AgreeOff.copyFile_put`, `AgreeOff.writeFile_put`,
  `AgreeOff.removeAll_put` — the operations.
-/

set_option autoImplicit false
namespace KernelRegistry
namespace FileTree

open Text (Bytes)

/-- A path leads to a place or below it, and nothing else is missing on its way. -/
structure Reaches (t : FileTree) (working : Location) (p : Path) (place : Location) : Prop where
  stops : ∀ x ∈ (t.wayTo working p).stops, t.node? x = none → place <+: x
  goal : ∀ x, (t.wayTo working p).goal = some x → place <+: x

section Put

variable {b t u : FileTree} {working place above : Location} {p q source : Path} {name : Bytes}
variable {stops : List Location}

theorem Reaches.made (h : Reaches t working p place) (hmade : Made stops t u) :
    Reaches u working p place := by
  refine ⟨fun x hx hgone => ?_, fun x hx => h.goal x (hmade.wayTo working p ▸ hx)⟩
  refine h.stops x (hmade.wayTo working p ▸ hx) ?_
  by_cases hnone : t.node? x = none
  · exact hnone
  · exact absurd hgone (hmade.ne_none hnone)

theorem Reaches.parent? (h : Reaches t working p place) (hq : p.parent? = some q) :
    ∀ x ∈ (t.wayTo working q).stops, t.node? x = none → place <+: x :=
  fun x hx => h.stops x (stops_subset_of_parent? t working hq hx)

variable [Disk]

/-- **Directories that are made at or below a place leave alone what is beside it.** -/
theorem AgreeOff.makeDirectories_put (h : AgreeOff place b t) (hp : FreeStart t working p)
    (hstops : ∀ x ∈ (t.wayTo working p).stops, t.node? x = none → place <+: x) :
    AgreeOff place b ((FileTree.makeDirectories working p).after t) := by
  refine makeMissing_after _ hp h fun q u hq hmade hu => ?_
  rw [ensureDirectory_after]
  rcases makeDirectory_cases ((hmade.freeStart hp).at_or_above hq) with
    ⟨e, he⟩ | ⟨above, name, slash, hmissing, -, hok⟩
  · rwa [Action.after_of_error he]
  rw [Action.after_of_ok hok]
  refine hu.put (hstops _ ?_ ?_)
  · have hmem := hmissing.mem
    rw [hmade.wayTo] at hmem
    rcases hq with rfl | hq
    · exact hmem
    · exact stops_subset_of_above hq hmem
  · by_cases hnone : t.node? (above ++ [name]) = none
    · exact hnone
    · exact absurd hmissing.gone (hmade.ne_none hnone)

theorem AgreeOff.makeParents_put (h : AgreeOff place b t) (hp : FreeStart t working p)
    (hreaches : Reaches t working p place) :
    AgreeOff place b ((FileTree.makeParents working p).after t) := by
  rw [FileTree.makeParents]
  split
  · next parent hparent =>
    exact h.makeDirectories_put (hp.parent? hparent) (hreaches.parent? hparent)
  · exact h

/-- **A file that is written at or below a place leaves alone what is beside it.** -/
theorem AgreeOff.writeFile_put (h : AgreeOff place b t) (hp : FreeStart t working p)
    (hreaches : Reaches t working p place) (content : Bytes) :
    AgreeOff place b ((FileTree.writeFile working p content).after t) := by
  have hmade := makeParents_made hp
  have hparents := h.makeParents_put hp hreaches
  refine after_bind hparents fun _ u hok => ?_
  rw [Action.after_of_ok hok] at hmade hparents
  exact after_overwrite hparents fun location _ _ _ hopen =>
    hparents.put ((hreaches.made hmade).goal location (of_openTarget (hmade.freeStart hp) hopen).1)

theorem AgreeOff.copyOver_put (h : AgreeOff place b t) (hp : FreeStart t working p)
    (hreaches : Reaches t working p place) :
    AgreeOff place b ((FileTree.copyOver working source p).after t) :=
  after_copyOver h fun _ there _ _ _ hopen hu =>
    hu.put (hreaches.goal there (of_openTarget hp hopen).1)

/-- **A file that is copied to a place or below it leaves alone what is beside it.** -/
theorem AgreeOff.copyFile_put (h : AgreeOff place b t) (hp : FreeStart t working p)
    (hreaches : Reaches t working p place) :
    AgreeOff place b ((FileTree.copyFile working source p).after t) := by
  have hmade := makeParents_made hp
  have hparents := h.makeParents_put hp hreaches
  refine after_bind hparents fun _ u hok => ?_
  rw [Action.after_of_ok hok] at hmade hparents
  exact hparents.copyOver_put (hmade.freeStart hp) (hreaches.made hmade)

end Put

/-! ## Removal -/

section Remove

variable [Disk] {b t : FileTree} {working above : Location} {p : Path} {name : Bytes}

/-- **What is removed entry by entry at or below a place leaves alone what is beside it.** -/
theorem AgreeOff.removeEntries_put {place : Location} (h : AgreeOff place b t)
    (entries : List (Bytes × FileTree)) :
    AgreeOff place b ((removeNode.removeEntries place entries).after t) :=
  after_removeEntries place entries (fun _ _ hx hu => hu.put hx) h

variable (h : AgreeOff (above ++ [name]) b t) (hp : FreeStart t working p)
    (hname : Path.IsName name)
variable (hgoal : (t.wayTo working p).goal = some above)
include h hp hname hgoal

/-- **Removing what is at a place leaves alone what is beside it.** -/
theorem AgreeOff.removeAll_put :
    AgreeOff (above ++ [name]) b ((FileTree.removeAll working (p.join ⟨name⟩)).after t) := by
  have hremove : AgreeOff (above ++ [name]) b
      ((FileTree.removeTree working (p.join ⟨name⟩)).after t) := by
    refine after_bind (by rwa [after_answer]) fun found u hfind => ?_
    obtain ⟨hfind, rfl⟩ := answer_eq_ok hfind
    obtain ⟨location, found⟩ := found
    obtain ⟨parent, hparent, rfl, hget⟩ := of_find_join hp hname hfind
    obtain rfl : above = parent := Option.some.inj (hgoal.symm.trans hparent)
    cases found with
    | file mode content => exact h
    | link target => exact after_askRemove _ (fun hu => hu.put (List.prefix_refl _)) h
    | directory entries =>
      refine after_bind (by rwa [after_ask]) fun _ v hask => ?_
      obtain rfl := ask_eq_ok hask
      have hentries := h.removeEntries_put entries
      refine after_bind hentries fun _ w hok => ?_
      rw [Action.after_of_ok hok] at hentries
      -- by then the directory is empty, so it is known where the path leads
      have hempty := emptied_of_update (node?_eq_some hget)
      rw [← removeEntries_ok hget hok] at hempty
      have hlast := removeEmptied_cases hp hname hfind hempty
      rcases hlast with ⟨e, he, herror⟩ | ⟨-, hremoved⟩ | hgone
      · simp only [Action.after, herror]
        cases e <;> exact hentries
      · simp only [Action.after, hremoved]
        exact hentries.put (List.prefix_refl _)
      · simp only [Action.after, hgone]
        exact hentries
  rw [Action.after] at hremove ⊢
  rw [FileTree.removeAll]
  generalize FileTree.removeTree working _ t = r at hremove ⊢
  cases r with
  | ok a u => exact hremove
  | error e u => cases e <;> exact hremove

end Remove

end FileTree
end KernelRegistry
