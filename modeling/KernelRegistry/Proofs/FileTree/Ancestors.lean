import KernelRegistry.Proofs.FileTree.Actions

/-!
# The directories above a path

Making the directories that a path is missing makes each of them for the path itself or for a path
above it, which is more than that they are on its way: nothing that a link at the end of the path
leads to is made.

* `Path.Above` — a path that is left when components are taken off the end of another one.
* `makeMissing_after` — what holds after each directory that is ensured holds after all of them.
* `FileTree.MadeFor` — a place at which the path ends, or one above it.
* `makeDirectories_new` — **only such places are made**.
* `makeDirectories_ok` — if nothing had to be made, the directory was there.
-/

set_option autoImplicit false
namespace KernelRegistry

open Text (Bytes)

/-- `q` is left when components are taken off the end of a path.  The directories that a path is
missing are looked for in this way. -/
inductive Path.Above (q : Path) : Path → Prop
  | parent {p : Path} (h : p.parent? = some q) : Above q p
  | above {p parent : Path} (h : p.parent? = some parent) (habove : Above q parent) : Above q p

namespace FileTree

section Above

variable {t u v : FileTree} {working x : Location} {p q : Path} {name : Bytes}
variable {stops : List Location}

theorem wayTo_of_follows_nil (t : FileTree) (working : Location) (h : Path.Follows p [] q) :
    t.wayTo working q = t.wayTo working p := by
  rw [wayTo, wayTo, start_of_follows h, h.names, List.append_nil]

theorem wayTo_of_follows_join (t : FileTree) (working : Location) (hname : Path.IsName name)
    (h : Path.Follows p [name] q) : t.wayTo working q = t.wayTo working (p.join ⟨name⟩) :=
  wayTo_of_follows_nil t working (h.of_join hname)

/-- A path above another one comes to no other places. -/
theorem stops_subset_of_above (h : Path.Above q p) :
    (t.wayTo working q).stops ⊆ (t.wayTo working p).stops := by
  induction h with
  | parent h => exact stops_subset_of_parent? t working h
  | above h _ ih => exact List.Subset.trans ih (stops_subset_of_parent? t working h)

theorem stops_subset_of_above_join (hname : Path.IsName name)
    (h : Path.Above q (p.join ⟨name⟩)) :
    (t.wayTo working q).stops ⊆ (t.wayTo working p).stops := by
  have hparent : ∀ {parent : Path}, (p.join ⟨name⟩).parent? = some parent →
      t.wayTo working parent = t.wayTo working p := fun h =>
    wayTo_of_follows_nil t working (((Path.Follows.refl p).join hname).parent? h)
  cases h with
  | parent h => rw [hparent h]; exact List.Subset.refl _
  | above h habove => rw [← hparent h]; exact stops_subset_of_above habove

theorem FreeStart.above (h : FreeStart t working p) (hq : Path.Above q p) :
    FreeStart t working q := by
  induction hq with
  | parent hq => exact h.parent? hq
  | above hq _ ih => exact ih (h.parent? hq)

theorem FreeStart.at_or_above (h : FreeStart t working p) (hq : q = p ∨ Path.Above q p) :
    FreeStart t working q := by
  rcases hq with rfl | hq
  · exact h
  · exact h.above hq

theorem existsAt_of_isDirectoryAt (h : isDirectoryAt t working p = true) :
    existsAt t working p = true := by
  obtain ⟨location, found, hfind, -⟩ := exists_find_of_isDirectoryAt h
  rw [existsAt, hfind]
  rfl

theorem locate_of_isDirectoryAt (h : isDirectoryAt t working p = true) :
    ∃ place, locate t working true p = .ok place := by
  obtain ⟨location, found, hfind, -⟩ := exists_find_of_isDirectoryAt h
  exact ⟨_, locate_of_find hfind⟩

/-- A path leads nowhere if the directory is missing that it starts from. -/
theorem node?_start_of_locate {follow : Bool} {place : Place}
    (hlocate : locate t working follow p = .ok place) : t.node? (start working p) ≠ none := by
  obtain ⟨here, hhere, -⟩ := walk_of_locate hlocate
  rw [node?_eq_some hhere]
  simp

/-! ### Places that are made -/

/-- A path ends at a place on its way.  If it ends in a name, then that is the name of the place in
the directory that the path without it leads to. -/
structure EndsAt (t : FileTree) (working : Location) (p : Path) (x : Location) : Prop where
  goal : (t.wayTo working p).goal = some x
  mem : x ∈ (t.wayTo working p).stops
  join : ∀ base name, Path.IsName name → p = base.join ⟨name⟩ →
    ∃ above, (t.wayTo working base).goal = some above ∧ x = above ++ [name]

/-- The path, or a path above it, ends at a place.  No other place can get a directory when those of
the path are made. -/
def MadeFor (t : FileTree) (working : Location) (p : Path) (x : Location) : Prop :=
  ∃ q, (q = p ∨ Path.Above q p) ∧ EndsAt t working q x

theorem Made.endsAt (h : Made stops t u) (hends : EndsAt u working p x) :
    EndsAt t working p x := by
  obtain ⟨hgoal, hmem, hjoin⟩ := hends
  simp only [h.wayTo] at hgoal hmem hjoin
  exact ⟨hgoal, hmem, hjoin⟩

/-- A tree is the same, or something new is there.  An operation that only makes directories does
one of the two, so one that made nothing new changed nothing. -/
def SameOrNew (t u : FileTree) : Prop := u = t ∨ ∃ x, t.node? x = none ∧ u.node? x ≠ none

theorem SameOrNew.trans (h : SameOrNew t u) (hu : Made stops u v) (h' : SameOrNew u v) :
    SameOrNew t v := by
  rcases h with rfl | ⟨x, hgone, hnew⟩
  · exact h'
  · exact .inr ⟨x, hgone, hu.ne_none hnew⟩

/-! ## Making what is missing -/

variable [Disk]

/-- **What holds after each directory that is ensured holds after all of them.**  They are those of
the path and of paths above it. -/
theorem makeMissing_after {P : FileTree → Prop} (steps : Nat) (h : FreeStart t working p) (ht : P t)
    (hstep : ∀ q u, q = p ∨ Path.Above q p → Made (t.wayTo working p).stops t u → P u →
      P ((ensureDirectory working q).after u)) :
    P ((makeMissing working steps p).after t) := by
  induction steps generalizing p t with
  | zero => exact ht
  | succ steps ih =>
    rcases makeMissing_cases working steps p t with ⟨-, hok⟩ | heq | ⟨u, q, hensure, hq, heq⟩
    · rw [Action.after_of_ok hok]
      exact ht
    · rw [Action.after, heq]
      exact hstep p t (.inl rfl) (Made.refl _ t) ht
    -- the directory is ensured twice, before and after those of the parent
    have hfirst := ensureDirectory_made h
    have hu := hstep p t (.inl rfl) (Made.refl _ t) ht
    rw [Action.after_of_error hensure] at hfirst hu
    have hfreeStart := (hfirst.freeStart h).parent? hq
    have hmono : ∀ {v}, Made (u.wayTo working q).stops u v → Made (t.wayTo working p).stops t v :=
      fun hv => hfirst.trans <| hv.mono <|
        hfirst.wayTo working q ▸ stops_subset_of_parent? t working hq
    have hparent := ih hfreeStart hu fun q' v hq' hv hP => by
      refine hstep q' v (.inr ?_) (hmono hv) hP
      rcases hq' with rfl | habove
      · exact .parent hq
      · exact .above hq habove
    have hmade := makeMissing_made steps hfreeStart
    rw [Action.after, heq]
    refine after_bind hparent fun a v hok => ?_
    rw [Action.after_of_ok hok] at hparent hmade
    exact hstep p v (.inl rfl) (hmono hmade) hparent

/-! ## Where directories are made -/

theorem makeDirectory_new (h : FreeStart t working p) (hgone : t.node? x = none) :
    ((makeDirectory working p).after t).node? x = none ∨ EndsAt t working p x := by
  rcases makeDirectory_cases h with ⟨e, he⟩ | ⟨above, name, slash, hmissing, hlocate, hok⟩
  · rw [Action.after_of_error he]
    exact .inl hgone
  rw [Action.after_of_ok hok, hmissing.node?_update]
  by_cases hx : x = above ++ [name]
  · subst hx
    refine .inr ⟨hmissing.goal, hmissing.mem, fun base last hlast hp => ?_⟩
    subst hp
    rw [Path.dropSlashes_join base hlast] at hlocate
    exact of_locate_join (h.of_join hlast) hlast hlocate
  · exact .inl (by rwa [if_neg hx])

theorem ensureDirectory_after (working : Location) (p : Path) (t : FileTree) :
    (ensureDirectory working p).after t = (makeDirectory working p).after t := by
  rcases ensureDirectory_cases working p t with heq | ⟨u, hafter, -, hok⟩
  · rw [Action.after, heq]
    rfl
  · rw [Action.after_of_ok hok, hafter]

theorem ensureDirectory_new (h : FreeStart t working p) (hgone : t.node? x = none) :
    ((ensureDirectory working p).after t).node? x = none ∨ EndsAt t working p x := by
  rw [ensureDirectory_after]
  exact makeDirectory_new h hgone

/-- **A directory that is made for a path is at its end or at the end of a path above it.** -/
theorem makeDirectories_new (h : FreeStart t working p) (hgone : t.node? x = none) :
    ((makeDirectories working p).after t).node? x = none ∨ MadeFor t working p x := by
  refine makeMissing_after (P := fun u => u.node? x = none ∨ MadeFor t working p x) _ h
    (.inl hgone) fun q u hq hmade hu => ?_
  rcases hu with hgone | hmadeFor
  · refine (ensureDirectory_new ((hmade.freeStart h).at_or_above hq) hgone).imp_right
      fun hends => ?_
    exact ⟨q, hq, hmade.endsAt hends⟩
  · exact .inr hmadeFor

/-! ## Where nothing had to be made -/

theorem ensureDirectory_sameOrNew (h : FreeStart t working p) :
    SameOrNew t ((ensureDirectory working p).after t) := by
  rw [ensureDirectory_after]
  rcases makeDirectory_cases h with ⟨e, he⟩ | ⟨above, name, slash, hmissing, -, hok⟩
  · rw [Action.after_of_error he]
    exact .inl rfl
  · rw [Action.after_of_ok hok]
    refine .inr ⟨above ++ [name], hmissing.gone, ?_⟩
    rw [hmissing.node?_update, if_pos rfl]
    simp

theorem makeDirectories_sameOrNew (h : FreeStart t working p) :
    SameOrNew t ((makeDirectories working p).after t) :=
  makeMissing_after _ h (.inl rfl) fun _ _ hq hmade hu =>
    have hfreeStart := (hmade.freeStart h).at_or_above hq
    hu.trans (ensureDirectory_made hfreeStart) (ensureDirectory_sameOrNew hfreeStart)

/-- The last thing that is done for a path is to ensure its directory. -/
theorem makeMissing_last (steps : Nat) (h : FreeStart t working p) (hp : p.isEmpty = false)
    (hok : makeMissing working steps p t = .ok () u) :
    ∃ v, Made (t.wayTo working p).stops t v ∧ ensureDirectory working p v = .ok () u := by
  cases steps with
  | zero => cases hok
  | succ steps =>
    rcases makeMissing_cases working steps p t with ⟨hempty, -⟩ | heq | ⟨v, q, hensure, hq, heq⟩
    · rw [hp] at hempty
      cases hempty
    · exact ⟨t, Made.refl _ t, heq.symm.trans hok⟩
    · have hfirst := ensureDirectory_made h
      rw [Action.after_of_error hensure] at hfirst
      obtain ⟨a, w, hparent, hlast⟩ := bind_eq_ok (heq.symm.trans hok)
      have hmade := makeMissing_made steps ((hfirst.freeStart h).parent? hq)
      rw [Action.after_of_ok hparent, hfirst.wayTo] at hmade
      exact ⟨w, hfirst.trans (hmade.mono (stops_subset_of_parent? t working hq)), hlast⟩

/-- A directory that is ensured was there, or something new is. -/
theorem ensureDirectory_ok (h : FreeStart t working p)
    (hok : ensureDirectory working p t = .ok () u) :
    isDirectoryAt u working p = true ∨ ∃ x, t.node? x = none ∧ u.node? x ≠ none := by
  rcases ensureDirectory_cases working p t with heq | ⟨v, -, hdirectory, hok'⟩
  · rcases makeDirectory_cases h with ⟨e, he⟩ | ⟨above, name, slash, hmissing, -, hmake⟩
    · rw [heq, he] at hok
      cases hok
    · rw [heq, hmake] at hok
      cases hok
      refine .inr ⟨above ++ [name], hmissing.gone, ?_⟩
      rw [hmissing.node?_update, if_pos rfl]
      simp
  · rw [hok'] at hok
    cases hok
    exact .inl hdirectory

/-- **If making the directories of a path made nothing, its directory was there.** -/
theorem makeDirectories_ok (h : FreeStart t working p) (hp : p.isEmpty = false)
    (hok : makeDirectories working p t = .ok () u)
    (hnew : ∀ x, t.node? x = none → u.node? x = none) : isDirectoryAt t working p = true := by
  have hsameOrNew := makeDirectories_sameOrNew h
  obtain ⟨v, hmade, hlast⟩ := makeMissing_last _ h hp hok
  rw [Action.after_of_ok hok] at hsameOrNew
  obtain rfl : u = t := hsameOrNew.resolve_right fun ⟨x, hgone, hx⟩ => hx (hnew x hgone)
  rcases ensureDirectory_ok (hmade.freeStart h) hlast with hdirectory | ⟨x, hgone, hx⟩
  · exact hdirectory
  · exact absurd hgone (hmade.ne_none hx)

/-! ## Where a path starts -/

/-- The directories of a path are not made if the directory is missing that it starts from. -/
theorem makeDirectories_start (h : FreeStart t working p) (hp : p.isEmpty = false)
    (hok : makeDirectories working p t = .ok () u) :
    u.node? (start working p) = some .directory := by
  obtain ⟨v, hmade, hlast⟩ := makeMissing_last _ h hp hok
  have hv := hmade.freeStart h
  have hensured := ensureDirectory_made hv
  rw [Action.after_of_ok hlast] at hensured
  have hu := hensured.freeStart hv
  suffices hthere : u.node? (start working p) ≠ none by
    obtain ⟨n, hn⟩ := Option.ne_none_iff_exists'.1 hthere
    rw [hn, hu.start n hn]
  rcases ensureDirectory_cases working p v with heq | ⟨w, -, hdirectory, hok'⟩
  · rcases makeDirectory_cases hv with ⟨e, he⟩ | ⟨above, name, slash, -, hlocate, -⟩
    · rw [heq, he] at hlast
      cases hlast
    · have := node?_start_of_locate hlocate
      rw [start_of_follows (Path.Follows.refl p).dropSlashes] at this
      exact hensured.ne_none this
  · rw [hok'] at hlast
    cases hlast
    obtain ⟨place, hlocate⟩ := locate_of_isDirectoryAt hdirectory
    exact node?_start_of_locate hlocate

end Above

end FileTree
end KernelRegistry
