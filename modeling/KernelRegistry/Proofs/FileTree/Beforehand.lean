import KernelRegistry.Proofs.FileTree.Ancestors
import KernelRegistry.Proofs.FileTree.Further

/-!
# Making the parent beforehand

Two directories with the same parent do not notice which of them is made first: the directories that
the parent is missing are made with the first one, and where that fails it fails in the same way for
the second one.

The exception is a path that comes through a directory that is still missing, and out of it again to
something that is no directory.  Once the missing directory was made, that is another obstacle.

* `FileTree.Passable` — behind what is missing on the way of a path are only directories.
* `makeDirectories_eq` — the directories of a path are those of its parent and one more.
* `makeDirectories_again` — **what fails to be made fails in the same way again**.
* `makeDirectories_beforehand` — **a directory is made as it is after its parent was made**.
-/

set_option autoImplicit false
namespace KernelRegistry
namespace FileTree

open Text (Bytes)

/-- Behind what is missing on the way of a path, whatever is there is a directory.  Without this,
making what is missing would bring a path to a file or a link that it did not come to before. -/
def Passable (t : FileTree) (working : Location) (p : Path) : Prop :=
  (t.wayTo working p).stops.Pairwise fun x y => t.node? x = none → t.nodeAt y = .directory

section Beforehand

variable {t u v : FileTree} {working location : Location} {p q : Path} {last name : Bytes}
variable {e : FileError} {j k : Nat}

/-! ## One directory more -/

/-- Further steps than the bytes of the path are never taken. -/
theorem makeMissing_congr (hk : p.bytes.length < k) (hj : p.bytes.length < j) :
    makeMissing working k p = makeMissing working j p := by
  induction k generalizing p j with
  | zero => exact absurd hk (Nat.not_lt_zero _)
  | succ k ih =>
    obtain ⟨j, rfl⟩ : ∃ i, j = i + 1 := ⟨j - 1, by omega⟩
    cases hq : p.parent? with
    | none =>
      simp only [makeMissing, hq]
      rfl
    | some q =>
      have := Path.length_parent?_lt hq
      have hparent : makeMissing working k q = makeMissing working j q := ih (by omega) (by omega)
      simp only [makeMissing, hq, hparent]
      rfl

/-- **The directories of a path are those of its parent and one more**, if the parent is missing. -/
theorem makeDirectories_eq (working : Location) (hp : p.isEmpty = false) (t : FileTree) :
    makeDirectories working p t =
      match ensureDirectory working p t with
      | .error .notFound u =>
        match p.parent? with
        | some q => (makeDirectories working q >>= fun _ => ensureDirectory working p) u
        | none => .error .notFound u
      | done => done := by
  have hparent : ∀ q, p.parent? = some q →
      makeMissing working p.bytes.length q = makeDirectories working q := by
    intro q hq
    have := Path.length_parent?_lt hq
    exact makeMissing_congr (by omega) (by omega)
  have hnonempty : ¬ p.isEmpty = true := by simp [hp]
  refine (if_neg hnonempty).trans ?_
  cases ensureDirectory working p t with
  | ok => rfl
  | error e u =>
    cases e with
    | notFound =>
      cases hq : p.parent? with
      | none => rfl
      | some q =>
        exact congrArg (fun made : Action Unit => (made >>= fun _ => ensureDirectory working p) u)
          (hparent q hq)
    | _ => rfl

theorem makeDirectories_of_notFound (hp : p.isEmpty = false) (hq : p.parent? = some q)
    (hensure : ensureDirectory working p t = .error .notFound t) :
    makeDirectories working p t =
      (makeDirectories working q >>= fun _ => ensureDirectory working p) t := by
  rw [makeDirectories_eq working hp, hensure]
  simp only [hq]

theorem makeDirectories_of_ensured (hp : p.isEmpty = false)
    (hensure : ∀ u, ensureDirectory working p t ≠ .error .notFound u) :
    makeDirectories working p t = ensureDirectory working p t := by
  rw [makeDirectories_eq working hp]
  split
  · next hnot => exact absurd hnot (hensure _)
  · rfl

theorem makeDirectories_of_error (hp : p.isEmpty = false)
    (hensure : ensureDirectory working p t = .error e t) (hnot : e ≠ .notFound) :
    makeDirectories working p t = .error e t := by
  rw [makeDirectories_of_ensured hp fun u hu => hnot ?_, hensure]
  rw [hensure] at hu
  exact (EStateM.Result.error.inj hu).1

/-! ## Why a directory cannot be made -/

/-- A directory that cannot be ensured is found to be something else, or its path is stopped. -/
theorem ensureDirectory_error (hlast : p.EndsIn last)
    (herror : ensureDirectory working p t = .error e u) :
    u = t ∧ isDirectoryAt t working p = false ∧ (locate t working false p = .error e ∨
      e = .exists ∧
        ∃ location found, locate t working false p = .ok (.present location found)) := by
  have hentry : locateEntry t working p = locate t working false p :=
    locateEntry_of_dropSlashes hlast.dropSlashes
  have hfailed : ∀ e', makeDirectory working p t = .error e' t →
      u = t ∧ isDirectoryAt t working p = false ∧ e' = e := by
    intro e' hmake
    rw [ensureDirectory, hmake] at herror
    cases hdirectory : isDirectoryAt t working p with
    | true => simp only [hdirectory, if_true] at herror; cases herror
    | false =>
      simp only [hdirectory, Bool.false_eq_true, if_false] at herror
      cases herror
      exact ⟨rfl, rfl, rfl⟩
  cases hlocate : locate t working false p with
  | error e' =>
    obtain ⟨hu, hdirectory, rfl⟩ := hfailed e' (by
      rw [makeDirectory, bind_of_error (answer_of_error (hentry.trans hlocate))])
    exact ⟨hu, hdirectory, .inl rfl⟩
  | ok place =>
    cases place with
    | present location found =>
      obtain ⟨hu, hdirectory, rfl⟩ := hfailed .exists (by
        rw [makeDirectory, bind_of_ok (answer_of_ok (hentry.trans hlocate))]
        rfl)
      exact ⟨hu, hdirectory, .inr ⟨rfl, location, found, rfl⟩⟩
    | absent above name slash =>
      rw [ensureDirectory, makeDirectory,
        bind_of_ok (answer_of_ok (hentry.trans hlocate))] at herror
      cases herror

/-- A directory is not ensured where its path is stopped. -/
theorem ensureDirectory_of_locate (hlast : p.EndsIn last)
    (hlocate : locate t working false p = .error e) :
    ensureDirectory working p t = .error e t := by
  have hmake : makeDirectory working p t = .error e t := by
    have hentry := (locateEntry_of_dropSlashes hlast.dropSlashes).trans hlocate
    rw [makeDirectory, bind_of_error (answer_of_error hentry)]
  have hdirectory : ¬ isDirectoryAt t working p = true := by
    intro hdirectory
    obtain ⟨location, found, hfind, -⟩ := exists_find_of_isDirectoryAt hdirectory
    obtain ⟨x, node, hfind'⟩ := exists_find_of_follow hfind
    rw [locate_of_find hfind'] at hlocate
    cases hlocate
  rw [ensureDirectory, hmake]
  exact if_neg hdirectory

/-- A directory whose path is stopped by something missing is made in two steps. -/
theorem makeDirectories_of_locate (hlast : p.EndsIn last) (hp : p.isEmpty = false)
    (hq : p.parent? = some q) (hlocate : locate t working false p = .error .notFound) :
    makeDirectories working p t =
      (makeDirectories working q >>= fun _ => ensureDirectory working p) t :=
  makeDirectories_of_notFound hp hq (ensureDirectory_of_locate hlast hlocate)

/-- The parent of a path that ends in a segment that counts is followed by that segment. -/
theorem follows_parent? (hlast : p.EndsIn last) (hq : p.parent? = some q) :
    Path.Follows q [last] p := by
  obtain ⟨hnames, habs⟩ := Path.names_parent? hq
  obtain ⟨pre, hpre⟩ := hlast.segments_eq
  have hp : p.names = pre.filter (!Path.isTrivial ·) ++ [last] := by
    rw [Path.names, hpre, List.filter_append, List.filter_cons_of_pos (by simp [hlast.2])]
    rfl
  exact ⟨by rw [hnames, hp, List.dropLast_concat], habs.symm⟩

/-- **A path that goes on from one that cannot be made fails like that one.** -/
theorem makeDirectories_of_obstacle (h : FreeStart t working p) (hp : p.Sound)
    (hlast : p.EndsIn last)
    (hq : p.parent? = some q) (hsound : q.Sound) {e' : FileError}
    (hstop : obstacle (locate t working false q) = some e')
    (hfail : makeDirectories working q t = .error e t) (hqlast : q.EndsIn name) :
    locate t working false p = .error e' ∧ makeDirectories working p t = .error e t := by
  have hlocate : locate t working false p = .error e' :=
    locate_of_obstacle (h.parent? hq) hsound hp hstop (follows_parent? hlast hq)
      (List.cons_ne_nil last [])
  refine ⟨hlocate, ?_⟩
  by_cases hnot : e' = .notFound
  · subst hnot
    rw [makeDirectories_of_locate hlast hp.nonempty hq hlocate, bind_of_error hfail]
  · have hensured := ensureDirectory_of_locate hlast hlocate
    rw [makeDirectories_of_error hp.nonempty hensured hnot]
    -- the parent is stopped by the same
    cases hlocate' : locate t working false q with
    | error e'' =>
      rw [hlocate'] at hstop
      obtain rfl := Option.some.inj hstop
      have hensured' := ensureDirectory_of_locate hqlast hlocate'
      rw [makeDirectories_of_error hsound.nonempty hensured' hnot] at hfail
      exact hfail
    | ok place =>
      rw [hlocate'] at hstop
      cases place with
      | present => cases hstop
      | absent => exact absurd (Option.some.inj hstop).symm hnot

/-! ## Failing again -/

theorem Passable.of_directories (h : ∀ x ∈ (t.wayTo working p).stops, t.nodeAt x = .directory) :
    Passable t working p :=
  List.pairwise_of_forall_mem_list fun _ _ y hy _ => h y hy

theorem Passable.parent? (h : Passable t working p) (hq : p.parent? = some q) :
    Passable t working q :=
  List.Pairwise.sublist (stops_prefix_of_parent? t working hq).sublist h

/-- Behind something missing, a path comes to a directory with its last name. -/
theorem Passable.nodeAt_last (h : Passable t working p) (hfollows : Path.Follows q [last] p)
    (hgoal : (t.wayTo working q).goal = some location) (hdirectory : t.nodeAt location = .directory)
    (hdots : last ≠ dots) (hgone : ∃ x ∈ (t.wayTo working q).stops, t.node? x = none) :
    t.nodeAt (location ++ [last]) = .directory := by
  obtain ⟨left, hway⟩ := wayTo_of_follows hfollows hgoal hdirectory
  rw [Passable, hway] at h
  obtain ⟨x, hx, hgone⟩ := hgone
  exact (List.pairwise_append.1 h).2.2 x hx _ (mem_stops_cons hdots ..) hgone

/-- If making directories has changed a place, it is one that was missing on the way. -/
theorem exists_stop_of_changed (h : FreeStart t working p)
    (hchanged : (makeDirectories working p).after t ≠ t) :
    ∃ x ∈ (t.wayTo working p).stops, t.node? x = none := by
  obtain ⟨x, hgone, hnew⟩ := (makeDirectories_sameOrNew h).resolve_left hchanged
  exact ⟨x, ((makeDirectories_made h).new x hgone hnew).1, hgone⟩

theorem ends_of_changed (h : FreeStart t working p) (hp : p.Tidy)
    (hchanged : (makeDirectories working p).after t ≠ t) : ∃ last, p.EndsIn last := by
  refine hp.resolve_left fun hnames => ?_
  obtain ⟨x, hx, -⟩ := exists_stop_of_changed h hchanged
  rw [wayTo, hnames, way_nil] at hx
  cases hx

section Parent

variable (h : FreeStart t working p) (hp : p.Sound) (hlast : p.EndsIn last)
variable (hq : p.parent? = some q) (hqlast : q.EndsIn name)
variable (hmake : makeDirectories working q t = .ok () v)
include h hp hlast hq hqlast hmake

/-- After its parent was made, a path is not stopped by something missing. -/
theorem locate_ne_notFound : locate v working false p ≠ .error .notFound := by
  intro hlocate
  have hqg := h.parent? hq
  have hmade := makeDirectories_made hqg
  rw [Action.after_of_ok hmake] at hmade
  rcases exists_stop_of_locate (hmade.freeStart hqg) hp hlast
    (follows_parent? hlast hq) hlocate with
    hgone | ⟨x, hx, hgone⟩
  · rw [makeDirectories_start hqg hqlast.isEmpty_eq_false hmake] at hgone
    cases hgone
  · exact (makeDirectories_reached hqg hqlast.isEmpty_eq_false hmake).stops x hx hgone

theorem ensureDirectory_ne_notFound : ensureDirectory working p v ≠ .error .notFound u := by
  intro herror
  obtain ⟨-, -, hlocate | ⟨hexists, -⟩⟩ := ensureDirectory_error hlast herror
  · exact locate_ne_notFound h hp hlast hq hqlast hmake hlocate
  · cases hexists

/-- **If something of the parent was missing, nothing but a directory stands in the way.** -/
theorem locate_of_ensureDirectory (hpass : Passable t working p) (hchanged : v ≠ t)
    (herror : ensureDirectory working p v = .error e u) : locate v working false p = .error e := by
  obtain ⟨-, hdirectory, hlocate | ⟨rfl, location, found, hlocate⟩⟩ :=
    ensureDirectory_error hlast herror
  · exact hlocate
  exfalso
  have hqg := h.parent? hq
  have hfollows := follows_parent? hlast hq
  have hmade := makeDirectories_made hqg
  rw [Action.after_of_ok hmake] at hmade
  have hfreeStart := hmade.freeStart h
  have hnode : found.node = .directory := by
    rcases ends_of_locate (hfreeStart.parent? hq) hlast hfollows hlocate with
      hnode | ⟨hdots, above, hgoal, rfl⟩
    · exact hnode
    -- what has the last name was there before, behind what was missing
    obtain ⟨above', hgoal', habove⟩ :=
      (makeDirectories_reached hqg hqlast.isEmpty_eq_false hmake).goal
    obtain rfl : above = above' := Option.some.inj (hgoal.symm.trans hgoal')
    rw [hmade.wayTo] at hgoal
    have hpassed := hpass.nodeAt_last hfollows hgoal
      ((hmade.nodeAt above).symm.trans (nodeAt_of_node? habove)) hdots
      (exists_stop_of_changed hqg (by rw [Action.after_of_ok hmake]; exact hchanged))
    rwa [← hmade.nodeAt, nodeAt_of_node? (node?_eq_some (hfreeStart.leads hlocate).get?)]
      at hpassed
  have hthere : isDirectoryAt v working p = true := by
    rw [isDirectoryAt, find, locate_of_present hp hfreeStart hnode hlocate]
    exact isDirectory_iff.2 hnode
  rw [hdirectory] at hthere
  cases hthere

end Parent

/-- **What fails to be made fails in the same way again**, and the path is stopped then. -/
theorem makeDirectories_again (h : FreeStart t working p) (hp : p.Sound) (hlast : p.EndsIn last)
    (hpass : Passable t working p) (hfail : makeDirectories working p t = .error e u) :
    u = t ∨ makeDirectories working p u = .error e u ∧
      ∃ e', obstacle (locate u working false p) = some e' := by
  by_cases hsame : u = t
  · exact .inl hsame
  refine .inr ?_
  -- by induction on the path: the directories of its parent were made, or they fail again
  induction hlength : p.bytes.length using Nat.strongRecOn generalizing p last with
  | ind n ih =>
    subst hlength
    have hensure := makeDirectories_eq working hp.nonempty t
    rw [hfail] at hensure
    split at hensure
    · next v hnot =>
      obtain ⟨rfl, -, -⟩ := ensureDirectory_error hlast hnot
      cases hq : p.parent? with
      | none =>
        rw [hq] at hensure
        cases hensure
        exact absurd rfl hsame
      | some q =>
      rw [hq] at hensure
      have hqg := h.parent? hq
      have hmade := makeDirectories_made hqg
      cases hparent : makeDirectories working q v with
      | error e' w =>
        rw [Action.after_of_error hparent] at hmade
        cases hensure.trans (bind_of_error hparent)
        obtain ⟨last', hlast'⟩ := ends_of_changed hqg (Path.tidy_parent? hq)
          (by rwa [Action.after_of_error hparent])
        have hqs := hp.parent? hq hlast'.isEmpty_eq_false
        obtain ⟨hagain, e', hstop⟩ :=
          ih _ (Path.length_parent?_lt hq) hqg hqs hlast' (hpass.parent? hq) hparent rfl
        obtain ⟨hlocate, hfail'⟩ :=
          makeDirectories_of_obstacle (hmade.freeStart h) hp hlast hq hqs hstop hagain hlast'
        exact ⟨hfail', e', by rw [hlocate]; rfl⟩
      | ok _ w =>
        have hlast' := hensure.trans (bind_of_ok hparent)
        obtain ⟨rfl, -, -⟩ := ensureDirectory_error hlast hlast'.symm
        obtain ⟨last', hqlast⟩ := ends_of_changed hqg (Path.tidy_parent? hq)
          (by rwa [Action.after_of_ok hparent])
        have hlocate := locate_of_ensureDirectory h hp hlast hq hqlast hparent hpass hsame
          hlast'.symm
        rw [makeDirectories_of_ensured hp.nonempty fun w =>
          ensureDirectory_ne_notFound h hp hlast hq hqlast hparent]
        exact ⟨hlast'.symm, e, by rw [hlocate]; rfl⟩
    · obtain ⟨rfl, -, -⟩ := ensureDirectory_error hlast hensure.symm
      exact absurd rfl hsame

/-! ## The parent beforehand -/

/-- A path whose directories have to be made is stopped by something missing. -/
theorem obstacle_of_changed (hlast : p.EndsIn last)
    (hchanged : (makeDirectories working p).after t ≠ t) :
    obstacle (locate t working false p) = some .notFound := by
  have hp := hlast.isEmpty_eq_false
  cases hlocate : locate t working false p with
  | error e =>
    have hensure := ensureDirectory_of_locate hlast hlocate
    by_cases hnot : e = .notFound
    · exact congrArg some hnot
    · exact absurd (Action.after_of_error (makeDirectories_of_error hp hensure hnot)) hchanged
  | ok place =>
    cases place with
    | absent => rfl
    | present location found =>
      have hmake : makeDirectory working p t = .error .exists t := by
        have hentry := (locateEntry_of_dropSlashes hlast.dropSlashes).trans hlocate
        rw [makeDirectory, bind_of_ok (answer_of_ok hentry)]
        rfl
      have hensure : ∀ u, ensureDirectory working p t ≠ .error .notFound u := by
        intro u hu
        rw [ensureDirectory, hmake] at hu
        dsimp only at hu
        split at hu <;> cases hu
      refine absurd ?_ hchanged
      rw [Action.after, makeDirectories_of_ensured hp hensure]
      exact (ensureDirectory_after working p t).trans (Action.after_of_error hmake)

section Twice

variable (h : FreeStart t working p) (hp : p.Sound) (hlast : p.EndsIn last)
variable (hq : p.parent? = some q) (hqlast : q.EndsIn name) (hpass : Passable t working q)
include h hp hlast hq hqlast hpass

/-- **A directory is made as it is after its parent was made**, and its path is stopped before. -/
theorem makeDirectories_beforehand (hchanged : (makeDirectories working q).after t ≠ t) :
    (∀ follow, locate t working follow p = .error .notFound) ∧
      makeDirectories working p ((makeDirectories working q).after t) =
        makeDirectories working p t := by
  have hqs := hp.parent? hq hqlast.isEmpty_eq_false
  have hqg := h.parent? hq
  have hlocate : ∀ follow, locate t working follow p = .error .notFound := fun follow =>
    locate_of_obstacle hqg hqs hp (obstacle_of_changed hqlast hchanged) (follows_parent? hlast hq)
      (List.cons_ne_nil last [])
  refine ⟨hlocate, ?_⟩
  rw [makeDirectories_of_locate hlast hp.nonempty hq (hlocate false)]
  have hmade := makeDirectories_made hqg
  cases hparent : makeDirectories working q t with
  | ok _ v =>
    rw [bind_of_ok hparent, Action.after_of_ok hparent,
      makeDirectories_of_ensured hp.nonempty fun w =>
        ensureDirectory_ne_notFound h hp hlast hq hqlast hparent]
  | error e v =>
    rw [bind_of_error hparent]
    rw [Action.after_of_error hparent] at hmade hchanged ⊢
    obtain ⟨hagain, e', hstop⟩ :=
      (makeDirectories_again hqg hqs hqlast hpass hparent).resolve_left hchanged
    exact (makeDirectories_of_obstacle (hmade.freeStart h) hp hlast hq hqs hstop hagain hqlast).2

/-- Where the parent could not be made, making the directory changes nothing, or it only has to be
ensured. -/
theorem makeDirectories_of_failed (hfail : makeDirectories working q t = .error e u) :
    (∃ e', makeDirectories working p u = .error e' u) ∨
      ∃ v, ensureDirectory working p u = .ok () v := by
  by_cases hsame : u = t
  · subst hsame
    cases hensure : ensureDirectory working p u with
    | ok _ v => exact .inr ⟨v, rfl⟩
    | error e' v =>
      obtain ⟨rfl, -, -⟩ := ensureDirectory_error hlast hensure
      by_cases hnot : e' = .notFound
      · subst hnot
        exact .inl ⟨e, by
          rw [makeDirectories_of_notFound hp.nonempty hq hensure, bind_of_error hfail]⟩
      · exact .inl ⟨e', makeDirectories_of_error hp.nonempty hensure hnot⟩
  · have hafter := Action.after_of_error hfail
    have hlocate := makeDirectories_beforehand h hp hlast hq hqlast hpass (by rwa [hafter])
    rw [hafter] at hlocate
    refine .inl ⟨e, ?_⟩
    rw [hlocate.2, makeDirectories_of_locate hlast hp.nonempty hq (hlocate.1 false),
      bind_of_error hfail]

end Twice

end Beforehand

end FileTree
end KernelRegistry
