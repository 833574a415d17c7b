import KernelRegistry.Proofs.FileTree.Kept

/-!
# Trees that are filled

What copying does to a tree, wherever it does it: directories are made where nothing was, files are
written where nothing or a file was.  A way may end earlier afterwards, since a file may have come
in between, but it never leads anywhere else.

* `FileTree.Filled` — directories and links stay, files stay files, and there are no new links.
* `Filled.stops`, `Filled.goal` — **a way afterwards is the first part of the way before**.
* `Filled.endsAt` — a path that ends at something afterwards ended there before.
* `Made.filled`, `Wrote.filled` — making directories and writing files fill a tree.
* `copyFile_filled`, `copyNested_filled` — **copying fills a tree**; `copyFile_directory` — copying
  a file to a directory that is there makes no directory.
-/

set_option autoImplicit false
namespace KernelRegistry
namespace FileTree

open Text (Bytes)

/-! ## Ways -/

section Way

variable {view other : Location → Node} {links : Nat} {here x : Location} {names : List Bytes}

/-- **A way that meets files in place of directories ends there.** -/
theorem way_filled
    (hdirectory : ∀ x, view x = .directory →
      other x = .directory ∨ ∃ mode content, other x = .file mode content)
    (hlink : ∀ x target, view x = .link target → other x = .link target)
    (hfile : ∀ x mode content, view x = .file mode content →
      ∃ mode content, other x = .file mode content) :
    (way other links here names).stops <+: (way view links here names).stops ∧
      ∀ z, (way other links here names).goal = some z →
        (way view links here names).goal = some z := by
  induction links, here, names using way_induction view with
  | nil =>
    rw [way_nil, way_nil]
    exact ⟨List.prefix_refl _, fun z hz => hz⟩
  | up links here rest ih =>
    rw [way_dots, way_dots]
    exact ih
  | directory links here name rest hname hview ih =>
    rw [way_directory hname hview]
    rcases hdirectory _ hview with hother | ⟨mode, content, hother⟩
    · rw [way_directory hname hother]
      exact ⟨List.cons_prefix_cons.2 ⟨rfl, ih.1⟩, ih.2⟩
    · rw [way_file hname hother]
      refine ⟨List.cons_prefix_cons.2 ⟨rfl, List.nil_prefix⟩, fun z hz => ?_⟩
      obtain ⟨rfl, rfl⟩ : rest = [] ∧ here ++ [name] = z := by simpa using hz
      rw [Way.goal_via, way_nil]
  | file links here name rest mode content hname hview =>
    obtain ⟨mode', content', hother⟩ := hfile _ _ _ hview
    rw [way_file hname hview, way_file hname hother]
    exact ⟨List.prefix_refl _, fun z hz => hz⟩
  | limit here name rest target hname hview =>
    rw [way_link_zero hname hview, way_link_zero hname (hlink _ _ hview)]
    exact ⟨List.prefix_refl _, fun z hz => hz⟩
  | link links here name rest target hname hview ih =>
    rw [way_link_succ hname hview, way_link_succ hname (hlink _ _ hview)]
    exact ⟨List.cons_prefix_cons.2 ⟨rfl, ih.1⟩, ih.2⟩

/-- A way that starts in directories ends at a directory or at a file. -/
theorem not_link_of_goal (hhere : ∀ part, part <+: here → view part = .directory)
    (hgoal : (way view links here names).goal = some x) (target : Bytes) :
    view x ≠ .link target := by
  induction links, here, names using way_induction view with
  | nil links here =>
    rw [way_nil] at hgoal
    obtain rfl := Option.some.inj hgoal
    rw [hhere here (List.prefix_refl _)]
    simp
  | up links here rest ih =>
    rw [way_dots] at hgoal
    exact ih (fun part hpart => hhere part (hpart.trans (List.dropLast_prefix here))) hgoal
  | directory links here name rest hname hview ih =>
    rw [way_directory hname hview] at hgoal
    refine ih (fun part hpart => ?_) hgoal
    rcases List.prefix_concat_iff.1 hpart with rfl | hpart
    · exact hview
    · exact hhere part hpart
  | file links here name rest mode content hname hview =>
    rw [way_file hname hview] at hgoal
    obtain ⟨rfl, rfl⟩ : rest = [] ∧ here ++ [name] = x := by simpa using hgoal
    rw [hview]
    simp
  | limit here name rest target' hname hview =>
    rw [way_link_zero hname hview] at hgoal
    cases hgoal
  | link links here name rest target' hname hview ih =>
    rw [way_link_succ hname hview] at hgoal
    refine ih (fun part hpart => ?_) hgoal
    rw [start] at hpart
    split at hpart
    · exact List.prefix_nil.1 hpart ▸ hhere [] List.nil_prefix
    · exact hhere part hpart

end Way

/-! ## Filling -/

/-- Directories and links stay, files stay files, and there are no new links.  So the links that a
path can follow are the same before and after a copy, wherever it writes. -/
structure Filled (t u : FileTree) : Prop where
  directory : ∀ x, t.node? x = some .directory → u.node? x = some .directory
  link : ∀ x target, t.node? x = some (.link target) → u.node? x = some (.link target)
  file : ∀ x mode content, t.node? x = some (.file mode content) →
    ∃ mode content, u.node? x = some (.file mode content)
  noLink : ∀ x target, u.node? x = some (.link target) → t.node? x = some (.link target)

/-- Everything on the way of a path is there. -/
def WayThere (t : FileTree) (working : Location) (p : Path) : Prop :=
  ∀ x ∈ (t.wayTo working p).stops, t.node? x ≠ none

section Filled

variable {t u v : FileTree} {working x location : Location} {p q source target : Path}
variable {places : List Location} {mode : Nat} {content : Bytes}

namespace Filled

theorem of_same (h : ∀ x, u.node? x = t.node? x) : Filled t u := by
  refine ⟨fun x hx => (h x).trans hx, fun x target hx => (h x).trans hx,
    fun x mode content hx => ⟨mode, content, (h x).trans hx⟩, fun x target hx => ?_⟩
  rwa [h] at hx

theorem refl (t : FileTree) : Filled t t := of_same fun _ => rfl

theorem trans (h : Filled t u) (h' : Filled u v) : Filled t v := by
  refine ⟨fun x hx => h'.directory x (h.directory x hx),
    fun x target hx => h'.link x target (h.link x target hx), fun x mode content hx => ?_,
    fun x target hx => h.noLink x target (h'.noLink x target hx)⟩
  obtain ⟨mode', content', hu⟩ := h.file x mode content hx
  exact h'.file x mode' content' hu

theorem ne_none (h : Filled t u) (hx : t.node? x ≠ none) : u.node? x ≠ none := by
  obtain ⟨n, hn⟩ := Option.ne_none_iff_exists'.1 hx
  cases n with
  | directory => rw [h.directory x hn]; simp
  | link target => rw [h.link x target hn]; simp
  | file mode content =>
    obtain ⟨mode', content', hu⟩ := h.file x mode content hn
    rw [hu]
    simp

/-- A directory was one before, or it was not there. -/
theorem directory_or_none (h : Filled t u) (hx : u.node? x = some .directory) :
    t.node? x = some .directory ∨ t.node? x = none := by
  cases ht : t.node? x with
  | none => exact .inr rfl
  | some n =>
    cases n with
    | directory => exact .inl rfl
    | link target =>
      rw [h.link x target ht] at hx
      cases hx
    | file mode content =>
      obtain ⟨mode', content', hu⟩ := h.file x mode content ht
      rw [hu] at hx
      cases hx

theorem way (h : Filled t u) (working : Location) (p : Path) :
    (u.wayTo working p).stops <+: (t.wayTo working p).stops ∧
      ∀ z, (u.wayTo working p).goal = some z → (t.wayTo working p).goal = some z := by
  refine way_filled (fun x hx => ?_) (fun x target hx => ?_) fun x mode content hx => ?_
  · cases hu : u.node? x with
    | none => exact .inl (nodeAt_of_none hu)
    | some n =>
      rw [nodeAt_of_node? hu]
      cases n with
      | directory => exact .inl rfl
      | file mode content => exact .inr ⟨mode, content, rfl⟩
      | link target =>
        rw [nodeAt_of_node? (h.noLink x target hu)] at hx
        cases hx
  all_goals
    cases ht : t.node? x with
    | none =>
      rw [nodeAt_of_none ht] at hx
      cases hx
    | some n =>
      rw [nodeAt_of_node? ht] at hx
      subst hx
      first
      | exact nodeAt_of_node? (h.link x _ ht)
      | obtain ⟨mode', content', hu⟩ := h.file x _ _ ht
        exact ⟨mode', content', nodeAt_of_node? hu⟩

/-- **A way afterwards is the first part of the way before.** -/
theorem stops (h : Filled t u) (working : Location) (p : Path) :
    (u.wayTo working p).stops ⊆ (t.wayTo working p).stops :=
  (h.way working p).1.subset

/-- **A way that has an end afterwards had the same end before.** -/
theorem goal (h : Filled t u) (hgoal : (u.wayTo working p).goal = some x) :
    (t.wayTo working p).goal = some x :=
  (h.way working p).2 x hgoal

theorem wayThere (h : Filled t u) (hp : WayThere t working p) : WayThere u working p :=
  fun x hx => h.ne_none (hp x (h.stops working p hx))

theorem endsAt (h : Filled t u) (hends : EndsAt u working p x) : EndsAt t working p x := by
  refine ⟨h.goal hends.goal, h.stops working p hends.mem, fun base name hname hp => ?_⟩
  obtain ⟨above, hgoal, hx⟩ := hends.join base name hname hp
  exact ⟨above, h.goal hgoal, hx⟩

end Filled

/-- A place that something is made for is on the way. -/
theorem MadeFor.mem (h : MadeFor t working p x) : x ∈ (t.wayTo working p).stops := by
  obtain ⟨q, rfl | hq, hends⟩ := h
  · exact hends.mem
  · exact stops_subset_of_above hq hends.mem

/-- A name that is missing in a directory which is there is made for itself only. -/
theorem MadeFor.endsAt_join {name : Bytes} (hname : Path.IsName name)
    (h : MadeFor t working (p.join ⟨name⟩) x) (hp : WayThere t working p) (hx : t.node? x = none) :
    EndsAt t working (p.join ⟨name⟩) x := by
  obtain ⟨q, rfl | hq, hends⟩ := h
  · exact hends
  · exact absurd hx (hp x (stops_subset_of_above_join hname hq hends.mem))

/-! ## What fills a tree -/

theorem Made.filled (h : Made places t u) : Filled t u := by
  refine ⟨fun x => h.same x _, fun x target => h.same x _,
    fun x mode content hx => ⟨mode, content, h.same x _ hx⟩, fun x target hx => ?_⟩
  cases ht : t.node? x with
  | none =>
    have := (h.new x ht (by rw [hx]; simp)).2.1
    rw [hx] at this
    cases this
  | some n => rw [← hx, h.same x n ht]

theorem HasWorkplace.nodeAt_part (h : HasWorkplace t working) (p : Path) {part : Location}
    (hpart : part <+: start working p) : t.nodeAt part = .directory := by
  exact nodeAt_of_part (h.node?_start p) hpart

theorem Wrote.filled (h : Wrote t u working p location mode content) (ht : HasWorkplace t working) :
    Filled t u := by
  have hnoLink : ∀ target, t.node? location ≠ some (.link target) := fun target hlink =>
    not_link_of_goal (fun part => ht.nodeAt_part p) h.goal target (nodeAt_of_node? hlink)
  have hother : ∀ {x n}, t.node? x = some n → x ≠ location → u.node? x = some n := by
    intro x n hx hne
    rw [h.node, if_neg hne, hx]
  refine ⟨fun x hx => hother hx ?_, fun x target hx => hother hx ?_, fun x mode' content' hx => ?_,
    fun x target hx => ?_⟩
  · rintro rfl
    exact h.writable.leaf hx
  · rintro rfl
    exact hnoLink target hx
  · rw [h.node]
    split
    · exact ⟨mode, content, rfl⟩
    · exact ⟨mode', content', hx⟩
  · rw [h.node] at hx
    split at hx
    · cases hx
    · exact hx

/-- No directory is there that was not there before. -/
theorem Wrote.directory (h : Wrote t u working p location mode content)
    (hx : u.node? x = some .directory) : t.node? x = some .directory := by
  rw [h.node] at hx
  split at hx
  · cases hx
  · exact hx

variable [Disk]

/-- Nothing is made above a path if the way of its parent is there. -/
theorem makeParents_same (ht : HasWorkplace t working)
    (hparent : ∀ q, target.parent? = some q → WayThere t working q) (x : Location) :
    ((makeParents working target).after t).node? x = t.node? x := by
  rw [makeParents]
  cases hq : target.parent? with
  | some q => exact (makeDirectories_made (ht.freeStart q)).node?_eq (hparent q hq) x
  | none => rfl

/-- **Copying a file fills a tree**, also where it fails. -/
theorem copyFile_filled (ht : HasWorkplace t working) (source target : Path) :
    Filled t ((copyFile working source target).after t) := by
  have hmade := makeParents_made (ht.freeStart target)
  refine after_bind (P := Filled t) hmade.filled fun _ u hok => ?_
  rw [Action.after_of_ok hok] at hmade
  have hu := hmade.hasWorkplace ht
  rcases copyOver_cases (hu.freeStart source) (hu.freeStart target) with
    ⟨e, he⟩ | ⟨here, mode, content, there, -, ⟨n, w, hwrote, hok'⟩ | ⟨e, w, cut, -, hwrote, he⟩⟩
  · rw [Action.after_of_error he]
    exact hmade.filled
  · rw [Action.after_of_ok hok']
    exact hmade.filled.trans (hwrote.filled hu)
  · rw [Action.after_of_error he]
    exact hmade.filled.trans (hwrote.filled hu)

/-- **Copying a file to a directory that is there makes no directory.** -/
theorem copyFile_directory (ht : HasWorkplace t working)
    (hparent : ∀ q, target.parent? = some q → WayThere t working q)
    (hx : ((copyFile working source target).after t).node? x = some .directory) :
    t.node? x = some .directory := by
  have hsame := makeParents_same ht hparent
  have hmade := (makeParents_made (ht.freeStart target)).hasWorkplace ht
  revert hx
  refine after_bind (P := fun u => u.node? x = some .directory → t.node? x = some .directory)
    (fun hx => (hsame x).symm.trans hx) fun _ u hok => ?_
  rw [Action.after_of_ok hok] at hsame hmade
  rcases copyOver_cases (hmade.freeStart source) (hmade.freeStart target) with
    ⟨e, he⟩ | ⟨here, mode, content, there, -, ⟨n, w, hwrote, hok'⟩ | ⟨e, w, cut, -, hwrote, he⟩⟩
  · rw [Action.after_of_error he]
    exact fun hx => (hsame x).symm.trans hx
  · rw [Action.after_of_ok hok']
    exact fun hx => (hsame x).symm.trans (hwrote.directory hx)
  · rw [Action.after_of_error he]
    exact fun hx => (hsame x).symm.trans (hwrote.directory hx)

/-- A path that led to a directory is not copied as a file. -/
theorem copyFile_ne_ok (hfilled : Filled t u) (hu : HasWorkplace u working)
    (hgoal : (t.wayTo working source).goal = some x) (hx : t.node? x = some .directory) {n : Nat} :
    copyFile working source target u ≠ .ok n v := by
  intro hok
  obtain ⟨_, w, hparents, hcopy⟩ := bind_eq_ok hok
  have hmade := makeParents_made (hu.freeStart target)
  rw [Action.after_of_ok hparents] at hmade
  have hw := hmade.hasWorkplace hu
  have hfilled' := hfilled.trans hmade.filled
  rcases copyOver_cases (hw.freeStart source) (hw.freeStart target) with
    ⟨e, he⟩ | ⟨here, mode, content, there, hfind, -⟩
  · rw [he] at hcopy
    cases hcopy
  · have hfound := of_find (hw.freeStart source) hfind
    obtain rfl : x = here := Option.some.inj (hgoal.symm.trans (hfilled'.goal hfound.goal))
    have hfile := node?_eq_some hfound.get
    rw [hfilled'.directory x hx] at hfile
    cases hfile

/-- **Copying a directory fills a tree**, also where it fails. -/
theorem copyNested_filled (ht : HasWorkplace t working) (listing : Listing) (depth : Nat)
    (source target : Path) :
    Filled t ((copyNested listing working depth source target).after t) :=
  have hkept : HasWorkplace ((copyNested listing working depth source target).after t) working ∧
      Filled t ((copyNested listing working depth source target).after t) :=
    copyNested_kept (P := fun u => HasWorkplace u working ∧ Filled t u)
    (fun _ p ⟨hu, hfilled⟩ => ⟨hu.makeDirectories p,
      hfilled.trans (makeDirectories_made (hu.freeStart p)).filled⟩)
    (fun _ p q ⟨hu, hfilled⟩ => ⟨hu.copyFile p q, hfilled.trans (copyFile_filled hu p q)⟩)
    depth ⟨ht, .refl t⟩
  hkept.2

end Filled

end FileTree
end KernelRegistry
