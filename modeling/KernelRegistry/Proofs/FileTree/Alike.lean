import KernelRegistry.Proofs.FileTree.Copy
import KernelRegistry.Proofs.FileTree.Frame

/-!
# Operations on trees that agree but for one place

An operation whose paths avoid a place does the same in two trees that agree but for that place: it
gives the same value or the same error, also where it fails half way, and the trees still agree.

* `FileTree.Alike` — two outcomes that are the same but for the place; `Alike.bind` takes two steps.
* `AgreeOff.makeDirectories`, `AgreeOff.copyFile`, `AgreeOff.writeFile`, `AgreeOff.removeAll` — the
  operations.
* `FileTree.FeedsOff` — what is read from the sources avoids the place.
* `FileTree.Worked` — only what is allowed was done at a destination, and nothing beside it.
* `Worked.copyNested_alike` — **copying a directory does the same in both trees**, and leaves alone
  what is beside the destination.
-/

set_option autoImplicit false
namespace KernelRegistry
namespace FileTree

open Text (Bytes)

/-! ## Outcomes -/

/-- The same value or the same error, and trees that agree but for a place.  This is how an action
ends in two such trees if what it does has nothing to do with the place. -/
inductive Alike (place : Location) {α : Type} :
    EStateM.Result FileError FileTree α → EStateM.Result FileError FileTree α → Prop
  | ok (a : α) {t u : FileTree} (h : AgreeOff place t u) : Alike place (.ok a t) (.ok a u)
  | error (e : FileError) {t u : FileTree} (h : AgreeOff place t u) :
      Alike place (.error e t) (.error e u)

section Outcome

variable {α β : Type} {place : Location} {t u : FileTree} {action : Action α} {next : α → Action β}

/-- **Two steps are alike if each of them is.** -/
theorem Alike.bind (h : Alike place (action t) (action u))
    (hnext : ∀ a t' u', action t = .ok a t' → AgreeOff place t' u' →
      Alike place (next a t') (next a u')) :
    Alike place ((action >>= next) t) ((action >>= next) u) := by
  generalize ht : action t = r at h
  generalize hu : action u = r' at h
  cases h with
  | ok a hagree =>
    rw [bind_of_ok ht, bind_of_ok hu]
    exact hnext a _ _ ht hagree
  | error e hagree =>
    rw [bind_of_error ht, bind_of_error hu]
    exact .error e hagree

theorem Alike.of_ok {r r' : EStateM.Result FileError FileTree α} {a : α} (h : Alike place r r')
    (hr : r = .ok a t) : ∃ u, r' = .ok a u ∧ AgreeOff place t u := by
  subst hr
  cases h with
  | ok _ hagree => exact ⟨_, rfl, hagree⟩

theorem Alike.of_error {r r' : EStateM.Result FileError FileTree α} {e : FileError}
    (h : Alike place r r') (hr : r = .error e t) : ∃ u, r' = .error e u ∧ AgreeOff place t u := by
  subst hr
  cases h with
  | error _ hagree => exact ⟨_, rfl, hagree⟩

theorem AgreeOff.answer {f : FileTree → Except FileError α} (h : AgreeOff place t u)
    (hf : f u = f t) : Alike place (answer f t) (answer f u) := by
  rw [FileTree.answer, FileTree.answer, hf]
  cases f t with
  | ok a => exact .ok a h
  | error e => exact .error e h

theorem AgreeOff.ask (h : AgreeOff place t u) (call : Call) :
    Alike place (ask call t) (ask call u) :=
  .ok () h

/-- Following a path and going on from there is alike, if going on is alike from each place that the
path can lead to. -/
theorem AgreeOff.located {f : FileTree → Except FileError Place} {next : Place → Action β}
    (h : AgreeOff place t u) (hsame : SamePlace (f t) (f u))
    (habsent : ∀ above name slash, f t = .ok (.absent above name slash) →
      Alike place (next (.absent above name slash) t) (next (.absent above name slash) u))
    (hpresent : ∀ location found found', f t = .ok (.present location found) →
      f u = .ok (.present location found') → found'.node = found.node →
      Alike place (next (.present location found) t) (next (.present location found') u)) :
    Alike place ((FileTree.answer f >>= next) t) ((FileTree.answer f >>= next) u) := by
  generalize ht : f t = r at hsame
  generalize hu : f u = r' at hsame
  cases hsame with
  | error e =>
    rw [bind_of_error (answer_of_error ht), bind_of_error (answer_of_error hu)]
    exact .error e h
  | absent above name slash =>
    rw [bind_of_ok (answer_of_ok ht), bind_of_ok (answer_of_ok hu)]
    exact habsent above name slash ht
  | present location hnode =>
    rw [bind_of_ok (answer_of_ok ht), bind_of_ok (answer_of_ok hu)]
    exact hpresent location _ _ ht hu hnode

/-- Two steps are alike and keep what holds if each of them does. -/
theorem Alike.bind_keeps {P : FileTree → Prop}
    (h : Alike place (action t) (action u) ∧ P (action.after t))
    (hnext : ∀ a t' u', action t = .ok a t' → AgreeOff place t' u' → P t' →
      Alike place (next a t') (next a u') ∧ P ((next a).after t')) :
    Alike place ((action >>= next) t) ((action >>= next) u) ∧ P ((action >>= next).after t) := by
  obtain ⟨halike, hkept⟩ := h
  rw [Action.after] at hkept ⊢
  generalize ht : action t = r at halike hkept
  generalize hu : action u = r' at halike
  cases halike with
  | ok a hagree =>
    rw [bind_of_ok ht, bind_of_ok hu]
    exact hnext a _ _ ht hagree hkept
  | error e hagree =>
    rw [bind_of_error ht, bind_of_error hu]
    exact ⟨.error e hagree, hkept⟩

/-- Steps over a list are alike and keep what holds if each of them does. -/
theorem Alike.foldlM_keeps {P : FileTree → Prop} {f : β → α → Action β} {l : List α} {init : β}
    (h : AgreeOff place t u) (ht : P t)
    (hstep : ∀ a ∈ l, ∀ c t u, P t → AgreeOff place t u →
      Alike place (f c a t) (f c a u) ∧ P ((f c a).after t)) :
    Alike place (l.foldlM f init t) (l.foldlM f init u) ∧ P ((l.foldlM f init).after t) := by
  induction l generalizing t u init with
  | nil => exact ⟨.ok init h, ht⟩
  | cons a rest ih =>
    rw [List.foldlM_cons]
    exact Alike.bind_keeps (hstep a List.mem_cons_self init t u ht h)
      fun c t' u' _ hagree hkept =>
        ih hagree hkept fun a' ha' => hstep a' (List.mem_cons_of_mem _ ha')

end Outcome

section Operations

variable {t u : FileTree} {working place x : Location} {p q source target : Path} {follow : Bool}
variable {name : Bytes} {stops : List Location} {e : FileError}

/-! ## Questions -/

/-- A path finds the same in both trees, except for the entries of a directory, which may differ at
the place. -/
theorem AgreeOff.find (h : AgreeOff place t u) (hp : FreeStart t working p)
    (havoids : Avoids t working p place) :
    (∃ e, find t working follow p = .error e ∧ find u working follow p = .error e) ∨
      ∃ location found found', find t working follow p = .ok (location, found) ∧
        find u working follow p = .ok (location, found') ∧ found'.node = found.node := by
  have hsame :
    SamePlace (FileTree.locate t working follow p) (FileTree.locate u working follow p) :=
    h.locate hp havoids
  rw [FileTree.find, FileTree.find]
  generalize FileTree.locate t working follow p = r at hsame ⊢
  generalize FileTree.locate u working follow p = r' at hsame ⊢
  cases hsame with
  | error e => exact .inl ⟨e, rfl, rfl⟩
  | absent => exact .inl ⟨.notFound, rfl, rfl⟩
  | present location hnode => exact .inr ⟨location, _, _, rfl, rfl, hnode⟩

theorem AgreeOff.existsAt (h : AgreeOff place t u) (hp : FreeStart t working p)
    (havoids : Avoids t working p place) : existsAt u working p = existsAt t working p := by
  rw [FileTree.existsAt, FileTree.existsAt]
  rcases h.find hp havoids with ⟨e, ht, hu⟩ | ⟨location, found, found', ht, hu, -⟩
  · rw [ht, hu]
  · rw [ht, hu]
    rfl

theorem AgreeOff.isDirectoryAt (h : AgreeOff place t u) (hp : FreeStart t working p)
    (havoids : Avoids t working p place) :
    isDirectoryAt u working p = isDirectoryAt t working p := by
  rw [FileTree.isDirectoryAt, FileTree.isDirectoryAt]
  rcases h.find hp havoids with ⟨e, ht, hu⟩ | ⟨location, found, found', ht, hu, hnode⟩
  · rw [ht, hu]
  · rw [ht, hu, Bool.eq_iff_iff, isDirectory_iff, isDirectory_iff, hnode]

theorem AgreeOff.textAt (h : AgreeOff place t u) (hp : FreeStart t working p)
    (havoids : Avoids t working p place) : u.textAt working p = t.textAt working p := by
  have hbytes : u.bytesAt working p = t.bytesAt working p := by
    rw [bytesAt, bytesAt]
    rcases h.find hp havoids with ⟨e, ht, hu⟩ | ⟨location, found, found', ht, hu, hnode⟩
    · rw [ht, hu]
    · rw [ht, hu]
      cases found <;> cases found' <;> cases hnode <;> rfl
  rw [FileTree.textAt, FileTree.textAt, hbytes]

/-! ## Directories -/

theorem Avoids.made (h : Avoids t working p place) (hmade : Made stops t u) :
    Avoids u working p place :=
  h.congr (hmade.wayTo working p)

theorem AgreeOff.locateEntry (h : AgreeOff place t u) (hp : FreeStart t working p)
    (havoids : Avoids t working p place) :
    SamePlace (locateEntry t working p) (locateEntry u working p) := by
  rw [FileTree.locateEntry, FileTree.locateEntry]
  split
  · exact .error _
  split
  · exact .error _
  · exact h.locate hp.dropSlashes havoids.dropSlashes

theorem AgreeOff.makeDirectory (h : AgreeOff place t u) (hp : FreeStart t working p)
    (havoids : Avoids t working p place) :
    Alike place (makeDirectory working p t) (makeDirectory working p u) := by
  refine h.located (h.locateEntry hp havoids)
    (fun above name slash hentry => ?_) fun _ _ _ _ _ _ => .error _ h
  have hmissing := of_locate_absent hp.dropSlashes (locate_of_locateEntry hentry)
  exact .ok () (h.update (h.beside (havoids.dropSlashes.stops _ hmissing.mem)
    (by rw [hmissing.gone]; simp)))

theorem AgreeOff.ensureDirectory (h : AgreeOff place t u) (hp : FreeStart t working p)
    (havoids : Avoids t working p place) :
    Alike place (ensureDirectory working p t) (ensureDirectory working p u) := by
  have hmake := h.makeDirectory hp havoids
  rw [FileTree.ensureDirectory, FileTree.ensureDirectory]
  generalize hr : FileTree.makeDirectory working p t = r at hmake ⊢
  generalize FileTree.makeDirectory working p u = r' at hmake ⊢
  cases hmake with
  | ok a hagree => exact .ok a hagree
  | error e hagree =>
    obtain rfl := makeDirectory_error hp hr
    simp only [hagree.isDirectoryAt hp havoids]
    split
    · exact .ok () hagree
    · exact .error e hagree

theorem AgreeOff.makeMissing (steps : Nat) (h : AgreeOff place t u) (hp : FreeStart t working p)
    (havoids : Avoids t working p place) :
    Alike place (makeMissing working steps p t) (makeMissing working steps p u) := by
  induction steps generalizing p t u with
  | zero => exact .error _ h
  | succ steps ih =>
    have hensure := h.ensureDirectory hp havoids
    have hmade := ensureDirectory_made hp
    rw [FileTree.makeMissing]
    by_cases hempty : p.isEmpty = true
    · simp only [if_pos hempty]
      exact .ok () h
    simp only [if_neg hempty]
    generalize hr : FileTree.ensureDirectory working p t = r at hensure ⊢
    generalize FileTree.ensureDirectory working p u = r' at hensure ⊢
    cases hensure with
    | ok a hagree => exact .ok a hagree
    | error e hagree =>
      rw [Action.after_of_error hr] at hmade
      have hfreeStart := hmade.freeStart hp
      have havoids' := havoids.made hmade
      by_cases he : e = .notFound
      · subst he
        cases hparent : p.parent? with
        | none => exact .error _ hagree
        | some parent =>
          have hparents := makeMissing_made steps (hfreeStart.parent? hparent)
          refine Alike.bind (ih hagree (hfreeStart.parent? hparent) (havoids'.parent? hparent))
            fun a t' u' hok hagree' => ?_
          rw [Action.after_of_ok hok] at hparents
          exact hagree'.ensureDirectory (hparents.freeStart hfreeStart) (havoids'.made hparents)
      · cases e with
        | notFound => exact absurd rfl he
        | _ => exact .error _ hagree

/-- **Making the directories of a path is alike.** -/
theorem AgreeOff.makeDirectories (h : AgreeOff place t u) (hp : FreeStart t working p)
    (havoids : Avoids t working p place) :
    Alike place (makeDirectories working p t) (makeDirectories working p u) :=
  h.makeMissing _ hp havoids

theorem AgreeOff.makeParents (h : AgreeOff place t u) (hp : FreeStart t working p)
    (havoids : Avoids t working p place) :
    Alike place (makeParents working p t) (makeParents working p u) := by
  rw [FileTree.makeParents]
  cases hparent : p.parent? with
  | some parent => exact h.makeDirectories (hp.parent? hparent) (havoids.parent? hparent)
  | none => exact .ok () h

/-! ## Files -/

theorem AgreeOff.openTarget (h : AgreeOff place t u) (hp : FreeStart t working p)
    (havoids : Avoids t working p place) : openTarget u working p = openTarget t working p := by
  have hsame : SamePlace (FileTree.locate t working true p) (FileTree.locate u working true p) :=
    h.locate hp havoids
  have hentry := h.locateEntry hp havoids
  rw [FileTree.openTarget, FileTree.openTarget]
  split
  · generalize FileTree.locateEntry t working p = r at hentry ⊢
    generalize FileTree.locateEntry u working p = r' at hentry ⊢
    cases hentry <;> rfl
  · generalize FileTree.locate t working true p = r at hsame ⊢
    generalize FileTree.locate u working true p = r' at hsame ⊢
    cases hsame with
    | error | absent => rfl
    | @present location found found' hnode => cases found <;> cases found' <;> cases hnode <;> rfl

/-- A file that can be written is beside the place that its path avoids. -/
theorem AgreeOff.beside_of_openTarget (h : AgreeOff place t u) (hp : FreeStart t working p)
    (havoids : Avoids t working p place) {permissions : Option Nat}
    (hopen : FileTree.openTarget t working p = .ok (x, permissions)) : Beside place x := by
  obtain ⟨hgoal, hwritable, -⟩ := of_openTarget hp hopen
  exact h.beside (havoids.goal h.ne hgoal) hwritable.leaf

theorem AgreeOff.overwrite (h : AgreeOff place t u) (hp : FreeStart t working p)
    (havoids : Avoids t working p place) (content : Bytes) :
    Alike place (overwrite working p content t) (overwrite working p content u) := by
  refine Alike.bind (h.answer (h.openTarget hp havoids)) fun opened t' u' hopen hagree => ?_
  obtain ⟨location, permissions⟩ := opened
  obtain ⟨hopen, rfl⟩ := answer_eq_ok hopen
  exact .ok () (hagree.update (h.beside_of_openTarget hp havoids hopen))

/-- **Writing a file is alike.** -/
theorem AgreeOff.writeFile (h : AgreeOff place t u) (hp : FreeStart t working p)
    (havoids : Avoids t working p place) (content : Bytes) :
    Alike place (writeFile working p content t) (writeFile working p content u) := by
  have hmade := makeParents_made hp
  refine Alike.bind (h.makeParents hp havoids) fun a t' u' hok hagree => ?_
  rw [Action.after_of_ok hok] at hmade
  exact hagree.overwrite (hmade.freeStart hp) (havoids.made hmade) content

/-- The content that is read of a file is known by its node. -/
theorem content_congr (h : u.node? x = t.node? x) :
    (match u.get? x with
      | some (.file _ content) => Except.ok content
      | _ => .ok ([] : Bytes) : Except FileError Bytes) =
    match t.get? x with
      | some (.file _ content) => .ok content
      | _ => .ok [] := by
  rw [node?, node?] at h
  generalize u.get? x = a at h ⊢
  generalize t.get? x = b at h ⊢
  cases a with
  | none =>
    rw [Option.map_none, eq_comm, Option.map_eq_none_iff] at h
    rw [h]
  | some s =>
    obtain ⟨s', rfl, hnode⟩ := Option.map_eq_some_iff.1 h.symm
    cases s <;> cases s' <;> cases hnode <;> rfl

theorem AgreeOff.copyOver (h : AgreeOff place t u) (hs : FreeStart t working source)
    (hp : FreeStart t working target) (hsource : Avoids t working source place)
    (htarget : Avoids t working target place) :
    Alike place (copyOver working source target t) (copyOver working source target u) := by
  rcases h.find hs hsource with ⟨e, ht, hu⟩ | ⟨here, found, found', ht, hu, hnode⟩
  · rw [FileTree.copyOver, bind_of_error (answer_of_error ht), bind_of_error (answer_of_error hu)]
    exact .error e h
  rw [FileTree.copyOver, bind_of_ok (answer_of_ok ht), bind_of_ok (answer_of_ok hu)]
  cases found with
  | link | directory =>
    cases found' <;> cases hnode
    exact .error _ h
  | file mode content =>
    obtain rfl : found' = .file mode content := eq_of_node hnode rfl
    refine (h.ask (.read here)).bind fun _ t' u' hread h' => ?_
    obtain rfl := ask_eq_ok hread
    refine (h'.answer (h'.openTarget hp htarget)).bind fun opened v v' hopen hopened => ?_
    obtain ⟨there, permissions⟩ := opened
    obtain ⟨hopen, rfl⟩ := answer_eq_ok hopen
    have hbeside := h'.beside_of_openTarget hp htarget hopen
    refine (hopened.ask (.openFile there)).bind fun _ w w' hask hasked => ?_
    obtain rfl := ask_eq_ok hask
    refine Alike.bind (.ok () (hasked.update hbeside)) fun a x x' hput hempty => ?_
    have hhere : ¬ place <+: here := hsource.goal h.ne (of_find hs ht).goal
    refine Alike.bind (hempty.answer (content_congr (hempty.node here hhere)))
      fun left y y' _ hread => ?_
    exact .ok _ (hread.update hbeside)

/-- **Copying a file is alike.** -/
theorem AgreeOff.copyFile (h : AgreeOff place t u) (hs : FreeStart t working source)
    (hp : FreeStart t working target) (hsource : Avoids t working source place)
    (htarget : Avoids t working target place) :
    Alike place (copyFile working source target t) (copyFile working source target u) := by
  have hmade := makeParents_made hp
  refine Alike.bind (h.makeParents hp htarget) fun a t' u' hok hagree => ?_
  rw [Action.after_of_ok hok] at hmade
  exact hagree.copyOver (hmade.freeStart hs) (hmade.freeStart hp) (hsource.made hmade)
    (htarget.made hmade)

/-! ## Removal -/

/-- A path that avoids a place, and a name beside it, avoid the place. -/
theorem Avoids.join (h : Avoids t working p place) (hname : Path.IsName name)
    (hgoal : (t.wayTo working p).goal = some x) (hx : t.nodeAt x = .directory)
    (hnode : ∀ target, t.nodeAt (x ++ [name]) ≠ .link target)
    (hbeside : Beside place (x ++ [name])) : Avoids t working (p.join ⟨name⟩) place := by
  refine ⟨start_of_follows ((Path.Follows.refl p).join hname) ▸ h.start, fun y hy => ?_⟩
  rw [wayTo_join hname hgoal hx hnode] at hy
  rcases List.mem_append.1 hy with hy | hy
  · exact h.stops y hy
  · rw [List.mem_singleton.1 hy]
    exact hbeside.notBelow

theorem AgreeOff.removeEmpty (h : AgreeOff place t u) (hp : FreeStart t working p)
    (hname : Path.IsName name) (havoids : Avoids t working (p.join ⟨name⟩) place)
    (hbeside : ∀ above, (t.wayTo working p).goal = some above → Beside place (above ++ [name])) :
    Alike place (removeEmpty working (p.join ⟨name⟩) t)
      (removeEmpty working (p.join ⟨name⟩) u) := by
  have hfreeStart := hp.follows ((Path.Follows.refl p).join hname)
  refine h.located (h.locate hfreeStart.dropSlashes havoids.dropSlashes)
    (fun _ _ _ _ => .error _ h) fun location found found' ht hu hnode => ?_
  have hget := (hfreeStart.dropSlashes.leads ht).get?
  have hget' := ((havoids.dropSlashes.freeStart h.node hfreeStart.dropSlashes).leads hu).get?
  rw [Path.dropSlashes_join p hname] at ht
  obtain ⟨above, hgoal, hlocation⟩ := of_locate_join hp hname ht
  obtain rfl : location = above ++ [name] := hlocation
  rw [h.get _ (hbeside above hgoal), hget] at hget'
  cases hget'
  dsimp only
  split
  · exact .error _ h
  split
  · exact .error _ h
  split
  · exact .ok () (h.update (hbeside above hgoal))
  · exact .error _ h
  · exact .error _ h

section Remove

variable (h : AgreeOff place t u) (hp : FreeStart t working p) (hname : Path.IsName name)
variable (hgoal : (t.wayTo working p).goal = some x) (hx : t.node? x = some .directory)
variable (hnode : ∀ target, t.nodeAt (x ++ [name]) ≠ .link target)
variable (hbeside : Beside place (x ++ [name])) (havoids : Avoids t working p place)
variable (hclear : Avoids t working p (x ++ [name]))
include h hp hname hgoal hx hbeside havoids hclear

theorem AgreeOff.removeDirectory {entries : List (Bytes × FileTree)}
    (hentries : t.get? (x ++ [name]) = some (.directory entries)) :
    Alike place (removeDirectory working (x ++ [name]) entries (p.join ⟨name⟩) t)
      (removeDirectory working (x ++ [name]) entries (p.join ⟨name⟩) u) := by
  have hempty : AgreeOff place (t.update (some (.directory [])) (x ++ [name]))
      (u.update (some (.directory [])) (x ++ [name])) := h.update hbeside
  have helsewhere : ∀ y, ¬ x ++ [name] <+: y →
      (t.update (some (.directory [])) (x ++ [name])).node? y = t.node? y :=
    fun y hy => node?_update_elsewhere hy
  have hway := hclear.wayTo helsewhere
  have hput : (t.update (some (.directory [])) (x ++ [name])).node? (x ++ [name]) =
      some .directory := by
    rw [node?, get?_update_append hx]
    rfl
  have havoids' := (havoids.congr hway).join hname (hway.symm ▸ hgoal)
    (nodeAt_of_node? ((helsewhere x (not_concat_below x name)).trans hx))
    (fun target => by rw [nodeAt_of_node? hput]; simp) hbeside
  have hremove := hempty.removeEmpty (hclear.freeStart helsewhere hp) hname havoids'
    fun above habove => by
      obtain rfl : x = above := Option.some.inj (hgoal.symm.trans (hway ▸ habove))
      exact hbeside
  rw [removeDirectory_apply hentries, removeDirectory_apply ((h.get _ hbeside).trans hentries)]
  generalize FileTree.removeEmpty working _ _ = r at hremove ⊢
  generalize FileTree.removeEmpty working _ _ = r' at hremove ⊢
  cases hremove with
  | ok a hagree => exact .ok a hagree
  | error e hagree =>
    cases e with
    | notFound => exact .ok () hagree
    | _ => exact .error _ hagree

include hnode

theorem AgreeOff.removeTree :
    Alike place (removeTree working (p.join ⟨name⟩) t) (removeTree working (p.join ⟨name⟩) u) := by
  have hjoin := havoids.join hname hgoal (nodeAt_of_node? hx) hnode hbeside
  rcases h.find (hp.follows ((Path.Follows.refl p).join hname)) hjoin with
    ⟨e, ht, hu⟩ | ⟨location, found, found', ht, hu, hfound⟩
  · rw [FileTree.removeTree, bind_of_error (answer_of_error ht), bind_of_error (answer_of_error hu)]
    exact .error e h
  obtain ⟨above, habove, rfl, hget⟩ := of_find_join hp hname ht
  obtain rfl : x = above := Option.some.inj (hgoal.symm.trans habove)
  rw [FileTree.removeTree, bind_of_ok (answer_of_ok ht), bind_of_ok (answer_of_ok hu)]
  cases found with
  | file | link =>
    obtain rfl : found' = _ := eq_of_node hfound rfl
    first | exact .error _ h | exact .ok () (h.update hbeside)
  | directory entries =>
    obtain ⟨-, -, -, hget'⟩ := of_find_join (havoids.freeStart h.node hp) hname hu
    rw [h.get _ hbeside, hget] at hget'
    cases hget'
    exact h.removeDirectory hp hname hgoal hx hbeside havoids hclear hget

/-- **Removing what is at a path is alike.** -/
theorem AgreeOff.removeAll :
    Alike place (removeAll working (p.join ⟨name⟩) t) (removeAll working (p.join ⟨name⟩) u) := by
  have hremove := h.removeTree hp hname hgoal hx hnode hbeside havoids hclear
  rw [FileTree.removeAll, FileTree.removeAll]
  generalize FileTree.removeTree working _ t = r at hremove ⊢
  generalize FileTree.removeTree working _ u = r' at hremove ⊢
  cases hremove with
  | ok a hagree => exact .ok true hagree
  | error e hagree =>
    cases e with
    | notFound => exact .ok false hagree
    | _ => exact .error _ hagree

end Remove

end Operations

/-! ## Copying -/

/-- The sources of a copy avoid a place.  A source is known by its path and by the place below the
destination that it is copied to. -/
structure FeedsOff (b : FileTree) (working destination : Location)
    (allowed : Location → Node → Prop) (place : Location)
    (directory file : Path → Location → Prop) : Prop where
  directory : ∀ source below t, directory source below → Inside b destination allowed t →
    Avoids t working source place ∧ ∀ location entries,
      find t working true source = .ok (location, .directory entries) → Beside place location
  file : ∀ source below t, file source below → Inside b destination allowed t →
    Avoids t working source place

section Copying

variable {b t u : FileTree} {working above place : Location} {p source target : Path} {name : Bytes}
variable {allowed : Location → Node → Prop} {directory file : Path → Location → Prop}
variable {listing : Listing} {below : Location} {depth : Nat}

/-- **Listing a directory is alike**, if it is not one that leads to the place. -/
theorem AgreeOff.readDirectory (h : AgreeOff place t u) (hp : FreeStart t working p)
    (havoids : Avoids t working p place)
    (hbeside : ∀ location entries,
      FileTree.find t working true p = .ok (location, .directory entries) →
      Beside place location) :
    Alike place (FileTree.readDirectory listing working p t)
      (FileTree.readDirectory listing working p u) := by
  rcases h.find hp havoids with ⟨e, ht, hu⟩ | ⟨location, found, found', ht, hu, hnode⟩
  · rw [FileTree.readDirectory, bind_of_error (answer_of_error ht),
      bind_of_error (answer_of_error hu)]
    exact .error e h
  rw [FileTree.readDirectory, bind_of_ok (answer_of_ok ht), bind_of_ok (answer_of_ok hu)]
  cases found with
  | file | link =>
    obtain rfl := eq_of_node hnode rfl
    exact .error _ h
  | directory entries =>
    have hget := (of_find hp ht).get
    have hget' := (of_find (havoids.freeStart h.node hp) hu).get
    rw [h.get location (hbeside location entries ht), hget] at hget'
    cases hget'
    exact .ok _ h

/-- Only what is allowed was done at a destination, and nothing beside it.  `Inside` compares the
trees node by node, which leaves the order of entries open; a listing depends on that order, so
beside the destination it has to be the same too. -/
structure Worked (b : FileTree) (destination : Location) (allowed : Location → Node → Prop)
    (t : FileTree) : Prop extends Inside b destination allowed t where
  agree : AgreeOff destination b t

section Target

variable (hb : Ready b working p above name) (hplain : Plain allowed)
include hb hplain

/-- A path below the destination leads there, and nothing else is missing on its way. -/
theorem Inside.reaches (h : Inside b (above ++ [name]) allowed t)
    (hbelow : ∀ n ∈ below, Path.IsName n) (htarget : Path.Follows p (name :: below) target) :
    Reaches t working target (above ++ [name]) := by
  obtain ⟨hgoal, hstops⟩ := h.way_of_follows hb hplain hbelow htarget
  refine ⟨fun x hx hgone => ?_, fun x hx => ?_⟩
  · rcases hstops x hx with hx | ⟨part, -, rfl⟩
    · by_cases hunder : above ++ [name] <+: x
      · exact hunder
      · exact absurd ((h.elsewhere x hunder).symm.trans hgone) (hb.present x hx)
    · exact List.prefix_append _ _
  · rw [hgoal x hx]
    exact List.prefix_append _ _

theorem Worked.makeDirectories (h : Worked b (above ++ [name]) allowed t)
    (hbelow : ∀ n ∈ below, Path.IsName n) (htarget : Path.Follows p (name :: below) target)
    (hallowed : ∀ part, part <+: below → allowed part .directory) :
    Worked b (above ++ [name]) allowed ((FileTree.makeDirectories working target).after t) :=
  ⟨(h.toInside.makeDirectories hb hplain hbelow htarget hallowed).inside,
    h.agree.makeDirectories_put (h.freeStart_of_follows hb hplain htarget)
      (h.reaches hb hplain hbelow htarget).stops⟩

theorem Worked.copyFile (h : Worked b (above ++ [name]) allowed t) {last : Bytes}
    (hbelow : ∀ n ∈ below ++ [last], Path.IsName n)
    (htarget : Path.Follows p (name :: below ++ [last]) target)
    (hallowed : ∀ part, part <+: below → allowed part .directory)
    (hsource : ∀ u, Inside b (above ++ [name]) allowed u → FreeStart u working source ∧
      ∀ here mode content left, find u working true source = .ok (here, .file mode content) →
        Disk.Leaves (if here = above ++ [name] ++ (below ++ [last]) then [] else content) left →
          allowed (below ++ [last]) (.file mode left)) :
    Worked b (above ++ [name]) allowed ((FileTree.copyFile working source target).after t) :=
  ⟨(h.toInside.copyFile hb hplain hbelow htarget hallowed hsource).inside,
    h.agree.copyFile_put (h.freeStart_of_follows hb hplain htarget)
      (h.reaches hb hplain hbelow htarget)⟩

variable (havoids : Avoids b working p place) (hbeside : Beside place (above ++ [name]))
include havoids hbeside

/-- A path below the destination avoids what is beside the destination. -/
theorem Inside.avoids_of_follows (h : Inside b (above ++ [name]) allowed t)
    (hbelow : ∀ n ∈ below, Path.IsName n) (htarget : Path.Follows p (name :: below) target) :
    Avoids t working target place := by
  refine ⟨start_of_follows htarget ▸ havoids.start, fun y hy => ?_⟩
  rcases (h.way_of_follows hb hplain hbelow htarget).2 y hy with hy | ⟨part, -, rfl⟩
  · exact havoids.stops y hy
  · exact (hbeside.append part).notBelow

variable (hfeeds : Feeds b working (above ++ [name]) allowed directory file)
variable (hoff : FeedsOff b working (above ++ [name]) allowed place directory file)
variable (hlisting : listing.Exact)
include hfeeds hoff hlisting

/-- Copying what is in a directory is alike if copying the directories in it is. -/
theorem Worked.copyEntries_alike
    (hinner : ∀ {source target : Path} {below : Location} {t u : FileTree},
      Worked b (above ++ [name]) allowed t → AgreeOff place t u → (∀ n ∈ below, Path.IsName n) →
      Path.Follows p (name :: below) target → directory source below →
      (∀ u, Inside b (above ++ [name]) allowed u → FreeStart u working source) →
      Alike place (FileTree.copyNested listing working depth source target t)
          (FileTree.copyNested listing working depth source target u) ∧
        Worked b (above ++ [name]) allowed
          ((FileTree.copyNested listing working depth source target).after t))
    (h : Worked b (above ++ [name]) allowed t) (hagree : AgreeOff place t u)
    (hbelow : ∀ n ∈ below, Path.IsName n) (htarget : Path.Follows p (name :: below) target)
    (hsource : directory source below)
    (hfreeStart : ∀ u, Inside b (above ++ [name]) allowed u → FreeStart u working source) :
    Alike place (FileTree.copyEntries listing working depth source target t)
        (FileTree.copyEntries listing working depth source target u) ∧
      Worked b (above ++ [name]) allowed
        ((FileTree.copyEntries listing working depth source target).after t) := by
  obtain ⟨hsourceOff, hlocation⟩ := hoff.directory _ _ _ hsource h.toInside
  refine Alike.bind_keeps
    ⟨hagree.readDirectory (hfreeStart t h.toInside) hsourceOff hlocation, by
      rwa [after_readDirectory]⟩ fun listed v v' hread hlisted h => ?_
  obtain ⟨rfl, location, entries, hfind, rfl⟩ := readDirectory_eq_ok hread
  refine Alike.foldlM_keeps hlisted h fun entry hentry count w w' hw hagree => ?_
  obtain ⟨last, isDirectory⟩ := entry
  obtain ⟨hlast, hentry⟩ :=
    hfeeds.listed hb hlisting h.toInside hsource (hfreeStart _ h.toInside) hfind hentry
  have hbelow' := isName_of_mem_concat hbelow hlast
  have htarget' := htarget.join hlast
  have hfreeStart' : ∀ u, Inside b (above ++ [name]) allowed u →
      FreeStart u working (source.join ⟨last⟩) := fun u hu =>
    (hfreeStart u hu).follows ((Path.Follows.refl source).join hlast)
  cases isDirectory with
  | true =>
    refine Alike.bind_keeps (hinner hw hagree hbelow' htarget' hentry hfreeStart') ?_
    exact fun copied x x' _ hagree hx => ⟨.ok _ hagree, hx⟩
  | false =>
    have hcopied := hagree.copyFile (hfreeStart' w hw.toInside)
      (hw.freeStart_of_follows hb hplain htarget') (hoff.file _ _ _ hentry hw.toInside)
      (hw.avoids_of_follows hb hplain havoids hbeside hbelow' htarget')
    have hkept := hw.copyFile hb hplain hbelow' htarget' (hfeeds.made _ _ hsource) fun x hx =>
      ⟨hfreeStart' x hx, fun here mode content left =>
        hfeeds.content _ _ x here mode content left hentry hx⟩
    refine Alike.bind_keeps ⟨hcopied, hkept⟩ ?_
    exact fun copied x x' _ hagree hx => ⟨.ok _ hagree, hx⟩

/-- **Copying to the destination is alike**, also where it fails. -/
theorem Worked.copyNested_alike (depth : Nat) (h : Worked b (above ++ [name]) allowed t)
    (hagree : AgreeOff place t u) (hbelow : ∀ n ∈ below, Path.IsName n)
    (htarget : Path.Follows p (name :: below) target) (hsource : directory source below)
    (hfreeStart : ∀ u, Inside b (above ++ [name]) allowed u → FreeStart u working source) :
    Alike place (FileTree.copyNested listing working depth source target t)
        (FileTree.copyNested listing working depth source target u) ∧
      Worked b (above ++ [name]) allowed
        ((FileTree.copyNested listing working depth source target).after t) := by
  induction depth generalizing source target below t u with
  | zero => exact ⟨.error _ hagree, h⟩
  | succ depth ih =>
    have hmade := h.makeDirectories hb hplain hbelow htarget (hfeeds.made _ _ hsource)
    rw [copyNested_succ]
    refine Alike.bind_keeps ⟨hagree.makeDirectories (h.freeStart_of_follows hb hplain htarget)
      (h.avoids_of_follows hb hplain havoids hbeside hbelow htarget), hmade⟩ ?_
    exact fun _ v v' _ hagree hv => hv.copyEntries_alike hb hplain havoids hbeside hfeeds hoff
      hlisting ih hagree hbelow htarget hsource hfreeStart

end Target

end Copying

end FileTree
end KernelRegistry
