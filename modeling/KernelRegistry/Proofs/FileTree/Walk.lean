import KernelRegistry.Proofs.FileTree.Way

/-!
# Where a walk ends

`FileTree.walk` gives up where something is missing, `FileTree.way` does not.  This file says that
a walk that does not give up takes the way of its path.

* `walk_induction` — the cases of a walk, one for each kind of thing that a segment can stand for;
  `linkStart` is where it goes on after a link.
* `FileTree.Leads` — what a walk does, step by step, in terms of the nodes that it meets.
* `Leads.of_present`, `Leads.of_absent` — what is found, or found missing, is at the end of the way.
* `Leads.at_name` — a walk that does not follow a link at its end ends at the last name.
* `Leads.emptied` — the same walk after the directory that it leads to was emptied.
* `Path.Sound` — a path that is followed at all; `locate_of_sound` — it is walked from where it
  starts.
* `of_find`, `of_locate_absent`, `of_find_join`, `locate_join_emptied` — the same for paths.
-/

set_option autoImplicit false
namespace KernelRegistry

/-- A path that is followed at all.  The three tests come before the tree is looked at, so a path
that does not pass them leads nowhere in any tree. -/
structure Path.Sound (p : Path) : Prop where
  noNul : p.bytes.contains 0 = false
  nonempty : p.isEmpty = false
  fits : p.bytes.length < FileTree.pathLimit

namespace FileTree

open Text (Bytes)

/-! ## Standing in a directory -/

/-- `here` is the directory whose names are `trail`, the last one first.  A walk carries both of
them, because it goes back along the trail where a segment is two dots. -/
structure Stands (t : FileTree) (trail : List Bytes) (here : FileTree) : Prop where
  get : t.get? trail.reverse = some here
  directory : here.node = .directory

/-- The directory from which the path of a link is followed, with its trail: the root, or the
directory in which the link is. -/
def linkStart (t : FileTree) (trail : List Bytes) (here : FileTree) (target : Bytes) :
    List Bytes × FileTree :=
  if (Path.mk target).isAbsolute then ([], t) else (trail, here)

/-- A segment that a walk looks up in a directory.  Any other one is passed over, leads back, or is
refused for its length alone. -/
structure LookedUp (name : Bytes) : Prop where
  counts : ¬ Path.isTrivial name = true
  notDots : name ≠ dots
  fits : ¬ nameLimit < name.length

theorem LookedUp.isName {name : Bytes} (h : LookedUp name) (hslash : Path.slash ∉ name) :
    Path.IsName name := by
  have hcounts := h.counts
  rw [Path.isTrivial_iff, not_or] at hcounts
  exact ⟨hcounts.1, hslash, hcounts.2, h.notDots⟩

/-! ## Steps of a walk -/

section Step

variable {t here : FileTree} {follow : Bool} {links : Nat} {trail rest : List Bytes}
variable {name target : Bytes}

theorem walk_nil : walk t follow links trail here [] = .ok (.present trail.reverse here) := by
  cases links <;> rfl

theorem walk_cons :
    walk t follow links trail here (name :: rest) =
      if Path.isTrivial name then walk t follow links trail here rest
      else if name = dots then
        walk t follow links trail.tail ((t.get? trail.tail.reverse).getD t) rest
      else if nameLimit < name.length then .error .nameTooLong
      else
        match here.get? [name] with
        | none =>
          if rest.all (·.isEmpty) then .ok (.absent trail.reverse name (!rest.isEmpty))
          else .error .notFound
        | some (.link target) =>
          if rest.isEmpty && !follow then .ok (.present (name :: trail).reverse (.link target))
          else
            match links with
            | 0 => .error .tooManyLinks
            | links + 1 =>
              if (Path.mk target).isAbsolute then
                walk t follow links [] t (Path.segments target ++ rest)
              else walk t follow links trail here (Path.segments target ++ rest)
        | some (.file mode content) =>
          if rest.isEmpty then .ok (.present (name :: trail).reverse (.file mode content))
          else .error .notDirectory
        | some (.directory entries) =>
          walk t follow links (name :: trail) (.directory entries) rest := by
  cases links <;> rfl

theorem walk_trivial (hname : Path.isTrivial name = true) :
    walk t follow links trail here (name :: rest) = walk t follow links trail here rest := by
  rw [walk_cons, if_pos hname]

theorem walk_dots (hname : name = dots) :
    walk t follow links trail here (name :: rest) =
      walk t follow links trail.tail ((t.get? trail.tail.reverse).getD t) rest := by
  subst hname
  rw [walk_cons, if_neg (by decide), if_pos (by rfl)]

theorem walk_long (hname : ¬ Path.isTrivial name = true) (hdots : name ≠ dots)
    (hlong : nameLimit < name.length) :
    walk t follow links trail here (name :: rest) = .error .nameTooLong := by
  rw [walk_cons, if_neg hname, if_neg hdots, if_pos hlong]

theorem walk_none (hname : LookedUp name) (hchild : here.get? [name] = none) :
    walk t follow links trail here (name :: rest) =
      if rest.all (·.isEmpty) then .ok (.absent trail.reverse name (!rest.isEmpty))
      else .error .notFound := by
  rw [walk_cons, if_neg hname.counts, if_neg hname.notDots, if_neg hname.fits, hchild]

theorem walk_stay (hname : LookedUp name) (hchild : here.get? [name] = some (.link target))
    (hfollow : (rest.isEmpty && !follow) = true) :
    walk t follow links trail here (name :: rest) =
      .ok (.present (trail.reverse ++ [name]) (.link target)) := by
  rw [walk_cons, if_neg hname.counts, if_neg hname.notDots, if_neg hname.fits, hchild,
    ← List.reverse_cons]
  exact if_pos hfollow

theorem walk_link_zero (hname : LookedUp name) (hchild : here.get? [name] = some (.link target))
    (hfollow : ¬ (rest.isEmpty && !follow) = true) :
    walk t follow 0 trail here (name :: rest) = .error .tooManyLinks := by
  rw [walk_cons, if_neg hname.counts, if_neg hname.notDots, if_neg hname.fits, hchild]
  exact if_neg hfollow

theorem walk_link_succ (hname : LookedUp name) (hchild : here.get? [name] = some (.link target))
    (hfollow : ¬ (rest.isEmpty && !follow) = true) :
    walk t follow (links + 1) trail here (name :: rest) =
      walk t follow links (linkStart t trail here target).1 (linkStart t trail here target).2
        (Path.segments target ++ rest) := by
  rw [walk_cons, if_neg hname.counts, if_neg hname.notDots, if_neg hname.fits, hchild]
  refine (if_neg hfollow).trans ?_
  by_cases habs : (Path.mk target).isAbsolute = true
  · rw [linkStart, if_pos habs]
    exact if_pos habs
  · rw [linkStart, if_neg habs]
    exact if_neg habs

theorem walk_file (hname : LookedUp name) {mode : Nat} {content : Bytes}
    (hchild : here.get? [name] = some (.file mode content)) :
    walk t follow links trail here (name :: rest) =
      if rest.isEmpty then .ok (.present (trail.reverse ++ [name]) (.file mode content))
      else .error .notDirectory := by
  rw [walk_cons, if_neg hname.counts, if_neg hname.notDots, if_neg hname.fits, hchild,
    List.reverse_cons]

theorem walk_directory (hname : LookedUp name) {entries : List (Bytes × FileTree)}
    (hchild : here.get? [name] = some (.directory entries)) :
    walk t follow links trail here (name :: rest) =
      walk t follow links (name :: trail) (.directory entries) rest := by
  rw [walk_cons, if_neg hname.counts, if_neg hname.notDots, if_neg hname.fits, hchild]

end Step

/-- **Induction along a walk**: on the links that may be followed, and between two links on the
segments.  A link replaces its segment by others, so the segments alone do not get fewer. -/
theorem walk_induction (t : FileTree) (follow : Bool)
    {motive : Nat → List Bytes → FileTree → List Bytes → Prop}
    (nil : ∀ links trail here, motive links trail here [])
    (trivial : ∀ links trail here name rest, Path.isTrivial name = true →
      motive links trail here rest → motive links trail here (name :: rest))
    (up : ∀ links trail here rest,
      motive links trail.tail ((t.get? trail.tail.reverse).getD t) rest →
      motive links trail here (dots :: rest))
    (long : ∀ links trail here name rest, ¬ Path.isTrivial name = true → name ≠ dots →
      nameLimit < name.length → motive links trail here (name :: rest))
    (missing : ∀ links trail here name rest, LookedUp name → here.get? [name] = none →
      motive links trail here (name :: rest))
    (stay : ∀ links trail here name rest target, LookedUp name →
      here.get? [name] = some (.link target) → (rest.isEmpty && !follow) = true →
      motive links trail here (name :: rest))
    (limit : ∀ trail here name rest target, LookedUp name →
      here.get? [name] = some (.link target) → ¬ (rest.isEmpty && !follow) = true →
      motive 0 trail here (name :: rest))
    (link : ∀ links trail here name rest target, LookedUp name →
      here.get? [name] = some (.link target) → ¬ (rest.isEmpty && !follow) = true →
      motive links (linkStart t trail here target).1 (linkStart t trail here target).2
        (Path.segments target ++ rest) →
      motive (links + 1) trail here (name :: rest))
    (file : ∀ links trail here name rest mode content, LookedUp name →
      here.get? [name] = some (.file mode content) → motive links trail here (name :: rest))
    (enter : ∀ links trail here name rest entries, LookedUp name →
      here.get? [name] = some (.directory entries) →
      motive links (name :: trail) (.directory entries) rest →
      motive links trail here (name :: rest))
    (links : Nat) (trail : List Bytes) (here : FileTree) (segments : List Bytes) :
    motive links trail here segments := by
  have along : ∀ links,
      (∀ fewer, links = fewer + 1 → ∀ trail here segments, motive fewer trail here segments) →
      ∀ segments trail here, motive links trail here segments := by
    intro links hfewer segments
    induction segments with
    | nil => exact nil links
    | cons name rest ih =>
      intro trail here
      by_cases hcounts : Path.isTrivial name = true
      · exact trivial links trail here name rest hcounts (ih trail here)
      by_cases hdots : name = dots
      · exact hdots ▸ up links trail here rest (ih _ _)
      by_cases hlong : nameLimit < name.length
      · exact long links trail here name rest hcounts hdots hlong
      have hname : LookedUp name := ⟨hcounts, hdots, hlong⟩
      cases hchild : here.get? [name] with
      | none => exact missing links trail here name rest hname hchild
      | some child =>
        cases child with
        | file mode content => exact file links trail here name rest mode content hname hchild
        | directory entries => exact enter links trail here name rest entries hname hchild (ih _ _)
        | link target =>
          by_cases hfollow : (rest.isEmpty && !follow) = true
          · exact stay links trail here name rest target hname hchild hfollow
          cases links with
          | zero => exact limit trail here name rest target hname hchild hfollow
          | succ links =>
            exact link links trail here name rest target hname hchild hfollow (hfewer links rfl ..)
  induction links generalizing trail here segments with
  | zero =>
    exact along 0 (fun fewer h => absurd h (Nat.succ_ne_zero fewer).symm) segments trail here
  | succ links ih => exact along _ (fun fewer h => Nat.succ.inj h ▸ ih) segments trail here

theorem reverse_linkStart (t : FileTree) (trail : List Bytes) (here : FileTree) (target : Bytes) :
    (linkStart t trail here target).1.reverse = start trail.reverse ⟨target⟩ := by
  rw [linkStart, start]
  split <;> rfl

theorem dropLast_reverse (trail : List Bytes) : trail.reverse.dropLast = trail.tail.reverse := by
  cases trail <;> simp

namespace Stands

variable {t here child : FileTree} {trail : List Bytes} {name : Bytes}

theorem root (h : t.node? [] = some .directory) : Stands t [] t :=
  ⟨get?_nil t, Option.some.inj h⟩

/-- The path of a link is followed from a directory. -/
theorem linkStart (h : Stands t trail here) (ht : t.node? [] = some .directory) (target : Bytes) :
    Stands t (linkStart t trail here target).1 (linkStart t trail here target).2 := by
  rw [FileTree.linkStart]
  split
  · exact root ht
  · exact h

theorem of_get? {x : Location} (hget : t.get? x = some here) (hdirectory : here.node = .directory) :
    Stands t x.reverse here :=
  ⟨by rw [List.reverse_reverse]; exact hget, hdirectory⟩

theorem node?_here (h : Stands t trail here) : t.node? trail.reverse = some .directory := by
  rw [node?_eq_some h.get, h.directory]

theorem get?_child (h : Stands t trail here) (name : Bytes) :
    t.get? (trail.reverse ++ [name]) = here.get? [name] := by
  rw [get?_append, h.get]
  rfl

theorem node?_child (h : Stands t trail here) (name : Bytes) :
    t.node? (trail.reverse ++ [name]) = (here.get? [name]).map node := by
  rw [node?, h.get?_child]

theorem node?_of_child {s : FileTree} (h : Stands t trail here)
    (hchild : here.get? [name] = some s) : t.node? (trail.reverse ++ [name]) = some s.node := by
  rw [h.node?_child, hchild]
  rfl

theorem node?_of_no_child (h : Stands t trail here) (hchild : here.get? [name] = none) :
    t.node? (trail.reverse ++ [name]) = none := by
  rw [h.node?_child, hchild]
  rfl

theorem push (h : Stands t trail here) {entries : List (Bytes × FileTree)}
    (hchild : here.get? [name] = some (.directory entries)) :
    Stands t (name :: trail) (.directory entries) :=
  ⟨by rw [List.reverse_cons, h.get?_child, hchild], rfl⟩

/-- The directory above. -/
theorem up (h : Stands t trail here) :
    Stands t trail.tail ((t.get? trail.tail.reverse).getD t) := by
  cases trail with
  | nil =>
    obtain rfl : t = here := by simpa using h.get
    exact h
  | cons name rest =>
    have hsome : t.node? ((name :: rest).reverse) ≠ none := by
      rw [h.node?_here]
      simp
    rw [List.reverse_cons] at hsome
    obtain ⟨entries, hentries⟩ := exists_directory_of_node?
      (node?_of_node?_append (List.cons_ne_nil name []) hsome)
    rw [List.tail_cons, hentries]
    exact ⟨hentries, rfl⟩

end Stands

/-! ## Walks as a relation -/

/-- The location of a place, whether or not something is there. -/
def Place.location : Place → Location
  | .present location _ => location
  | .absent above name _ => above ++ [name]

/-- From the directory at a location, some segments lead to a place; `links` links may be followed
on the way.  There is a constructor for each step of a walk that does not fail, so what is said of
walks is proved by induction on it, without their trails and errors. -/
inductive Leads (t : FileTree) (follow : Bool) : Nat → Location → List Bytes → Place → Prop
  | done {links : Nat} {here : Location} {found : FileTree} (hget : t.get? here = some found)
      (hfound : found.node = .directory) : Leads t follow links here [] (.present here found)
  | skip {links : Nat} {here : Location} {name : Bytes} {rest : List Bytes} {place : Place}
      (hname : Path.isTrivial name = true) (h : Leads t follow links here rest place) :
      Leads t follow links here (name :: rest) place
  | up {links : Nat} {here : Location} {rest : List Bytes} {place : Place}
      (h : Leads t follow links here.dropLast rest place) :
      Leads t follow links here (dots :: rest) place
  | missing {links : Nat} {here : Location} {name : Bytes} {rest : List Bytes}
      (hname : LookedUp name) (hhere : t.node? here = some .directory)
      (hchild : t.node? (here ++ [name]) = none) (hrest : rest.all (·.isEmpty) = true) :
      Leads t follow links here (name :: rest) (.absent here name (!rest.isEmpty))
  | stay {links : Nat} {here : Location} {name target : Bytes} (hname : LookedUp name)
      (hchild : t.get? (here ++ [name]) = some (.link target)) (hfollow : follow = false) :
      Leads t follow links here [name] (.present (here ++ [name]) (.link target))
  | link {links : Nat} {here : Location} {name target : Bytes} {rest : List Bytes} {place : Place}
      (hname : LookedUp name) (hchild : t.node? (here ++ [name]) = some (.link target))
      (hfollow : ¬ (rest.isEmpty && !follow) = true)
      (h : Leads t follow links (start here ⟨target⟩) (Path.segments target ++ rest) place) :
      Leads t follow (links + 1) here (name :: rest) place
  | file {links : Nat} {here : Location} {name content : Bytes} {mode : Nat}
      (hname : LookedUp name) (hchild : t.get? (here ++ [name]) = some (.file mode content)) :
      Leads t follow links here [name] (.present (here ++ [name]) (.file mode content))
  | enter {links : Nat} {here : Location} {name : Bytes} {rest : List Bytes} {place : Place}
      (hname : LookedUp name) (hchild : t.node? (here ++ [name]) = some .directory)
      (h : Leads t follow links (here ++ [name]) rest place) :
      Leads t follow links here (name :: rest) place

section Walk

variable {t u here found : FileTree} {follow : Bool} {links : Nat} {trail : List Bytes}
variable {segments pre : List Bytes} {place : Place}
variable {location above below : Location} {name : Bytes} {slash : Bool}

/-- A walk was led to whatever it finds. -/
theorem Leads.of_walk (ht : t.node? [] = some .directory) (h : Stands t trail here)
    (hwalk : walk t follow links trail here segments = .ok place) :
    Leads t follow links trail.reverse segments place := by
  induction links, trail, here, segments using walk_induction t follow with
  | nil links trail here =>
    rw [walk_nil] at hwalk
    exact Except.ok.inj hwalk ▸ .done h.get h.directory
  | trivial links trail here name rest hname ih =>
    rw [walk_trivial hname] at hwalk
    exact .skip hname (ih h hwalk)
  | up links trail here rest ih =>
    rw [walk_dots rfl] at hwalk
    have := ih h.up hwalk
    rw [← dropLast_reverse] at this
    exact .up this
  | long links trail here name rest hcounts hdots hlong =>
    rw [walk_long hcounts hdots hlong] at hwalk
    cases hwalk
  | missing links trail here name rest hname hchild =>
    rw [walk_none hname hchild] at hwalk
    split at hwalk
    · next hrest =>
      have hnode := h.node?_of_no_child hchild
      exact Except.ok.inj hwalk ▸ .missing hname h.node?_here hnode hrest
    · cases hwalk
  | stay links trail here name rest target hname hchild hfollow =>
    rw [walk_stay hname hchild hfollow] at hwalk
    rw [← h.get?_child] at hchild
    rw [Bool.and_eq_true, List.isEmpty_iff, Bool.not_eq_true'] at hfollow
    obtain ⟨rfl, hfollow⟩ := hfollow
    exact Except.ok.inj hwalk ▸ .stay hname hchild hfollow
  | limit trail here name rest target hname hchild hfollow =>
    rw [walk_link_zero hname hchild hfollow] at hwalk
    cases hwalk
  | link links trail here name rest target hname hchild hfollow ih =>
    rw [walk_link_succ hname hchild hfollow] at hwalk
    have := ih (h.linkStart ht target) hwalk
    rw [reverse_linkStart] at this
    exact .link hname (h.node?_of_child hchild) hfollow this
  | file links trail here name rest mode content hname hchild =>
    rw [walk_file hname hchild] at hwalk
    rw [← h.get?_child] at hchild
    split at hwalk
    · next hrest =>
      obtain rfl := List.isEmpty_iff.1 hrest
      exact Except.ok.inj hwalk ▸ .file hname hchild
    · cases hwalk
  | enter links trail here name rest entries hname hchild ih =>
    rw [walk_directory hname hchild] at hwalk
    have := ih (h.push hchild) hwalk
    rw [List.reverse_cons] at this
    exact .enter hname (h.node?_of_child hchild) this

/-! ## The way of a walk -/

/-- The segments that count.  A walk passes over the others, and a way is followed without them. -/
def counting (segments : List Bytes) : List Bytes := segments.filter (!Path.isTrivial ·)

theorem counting_of_trivial (h : Path.isTrivial name = true) (rest : List Bytes) :
    counting (name :: rest) = counting rest :=
  List.filter_cons_of_neg (by simp [h])

theorem counting_cons (h : ¬ Path.isTrivial name = true) (rest : List Bytes) :
    counting (name :: rest) = name :: counting rest :=
  List.filter_cons_of_pos (by simpa using h)

theorem counting_dots (rest : List Bytes) : counting (dots :: rest) = dots :: counting rest :=
  counting_cons (by decide) rest

theorem counting_segments (target : Bytes) (rest : List Bytes) :
    counting (Path.segments target ++ rest) = (Path.mk target).names ++ counting rest :=
  List.filter_append ..

theorem counting_eq_nil {rest : List Bytes} (h : rest.all (·.isEmpty) = true) :
    counting rest = [] := by
  rw [counting, List.filter_eq_nil_iff]
  intro s hs
  have := List.all_eq_true.1 h s hs
  simp [Path.isTrivial, this]

theorem not_mem_segments_append {target : Bytes} {rest : List Bytes} {s : Bytes}
    (h : ∀ s ∈ name :: rest, Path.slash ∉ s) (hs : s ∈ Path.segments target ++ rest) :
    Path.slash ∉ s := by
  rcases List.mem_append.1 hs with hs | hs
  · exact Path.slash_not_mem_of_mem_segments hs
  · exact h s (List.mem_cons_of_mem _ hs)

namespace LookedUp

variable {x : Location} {rest : List Bytes} {target : Bytes} (hname : LookedUp name)
include hname

/-- A name that is looked up is on the way. -/
theorem mem_stops : x ++ [name] ∈ (way t.nodeAt links x (counting (name :: rest))).stops := by
  rw [counting_cons hname.counts]
  exact mem_stops_cons hname.notDots ..

/-- The way of segments through a directory, or through a name where one could be made. -/
theorem way_directory (hnode : t.nodeAt (x ++ [name]) = .directory) :
    way t.nodeAt links x (counting (name :: rest)) =
      (way t.nodeAt links (x ++ [name]) (counting rest)).via (x ++ [name]) := by
  rw [counting_cons hname.counts, FileTree.way_directory hname.notDots hnode]

/-- The way of segments ends at a file. -/
theorem way_file {mode : Nat} {content : Bytes}
    (hnode : t.node? (x ++ [name]) = some (.file mode content)) :
    way t.nodeAt links x (counting (name :: rest)) =
      ⟨[x ++ [name]], if counting rest = [] then some (x ++ [name]) else none⟩ := by
  rw [counting_cons hname.counts, FileTree.way_file hname.notDots (nodeAt_of_node? hnode)]

theorem way_link_zero (hnode : t.node? (x ++ [name]) = some (.link target)) :
    way t.nodeAt 0 x (counting (name :: rest)) = ⟨[x ++ [name]], none⟩ := by
  rw [counting_cons hname.counts, FileTree.way_link_zero hname.notDots (nodeAt_of_node? hnode)]

/-- The way of segments goes on with those of a link. -/
theorem way_link_succ (hnode : t.node? (x ++ [name]) = some (.link target)) :
    way t.nodeAt (links + 1) x (counting (name :: rest)) =
      (way t.nodeAt links (start x ⟨target⟩) (counting (Path.segments target ++ rest))).via
        (x ++ [name]) := by
  rw [counting_cons hname.counts, FileTree.way_link_succ hname.notDots (nodeAt_of_node? hnode),
    ← counting_segments]

end LookedUp

/-- **What a walk finds is at the end of its way**, and everything on the way is there. -/
theorem Leads.of_present (h : Leads t true links above segments (.present location found)) :
    (way t.nodeAt links above (counting segments)).goal = some location ∧
      t.get? location = some found ∧
      (∀ x ∈ (way t.nodeAt links above (counting segments)).stops, t.node? x ≠ none) ∧
      (found.node = .directory ∨
        location ∈ (way t.nodeAt links above (counting segments)).stops) := by
  generalize hplace : Place.present location found = place at h
  induction h with
  | done hget hfound =>
    cases hplace
    exact ⟨congrArg Way.goal way_nil, hget, by rw [counting, List.filter_nil, way_nil]; simp,
      .inl hfound⟩
  | skip hname h ih => rw [counting_of_trivial hname]; exact ih hplace
  | up h ih => rw [counting_dots, way_dots]; exact ih hplace
  | missing => cases hplace
  | stay hname hchild hfollow => cases hfollow
  | link hname hchild hfollow h ih =>
    rw [hname.way_link_succ hchild]
    obtain ⟨hgoal, hget, hstops, hlast⟩ := ih hplace
    refine ⟨hgoal, hget, fun x hx => ?_, hlast.imp_right (List.mem_cons_of_mem _)⟩
    rcases List.mem_cons.1 hx with rfl | hx
    · rw [hchild]; simp
    · exact hstops x hx
  | file hname hchild =>
    cases hplace
    have hnode := node?_eq_some hchild
    rw [hname.way_file hnode]
    refine ⟨rfl, hchild, fun x hx => ?_, .inr List.mem_cons_self⟩
    rw [List.mem_singleton.1 hx, hnode]
    simp
  | enter hname hchild h ih =>
    rw [hname.way_directory (nodeAt_of_node? hchild)]
    obtain ⟨hgoal, hget, hstops, hlast⟩ := ih hplace
    refine ⟨hgoal, hget, fun x hx => ?_, hlast.imp_right (List.mem_cons_of_mem _)⟩
    rcases List.mem_cons.1 hx with rfl | hx
    · rw [hchild]; simp
    · exact hstops x hx

/-- **What a walk finds missing is at the end of its way**, and everything else on the way is
there. -/
theorem Leads.of_absent (h : Leads t follow links below segments (.absent above name slash))
    (hslash : ∀ s ∈ segments, Path.slash ∉ s) :
    (way t.nodeAt links below (counting segments)).goal = some (above ++ [name]) ∧
      t.node? above = some .directory ∧ t.node? (above ++ [name]) = none ∧ Path.IsName name ∧
      above ++ [name] ∈ (way t.nodeAt links below (counting segments)).stops ∧
      ∀ x ∈ (way t.nodeAt links below (counting segments)).stops,
        t.node? x ≠ none ∨ x = above ++ [name] := by
  generalize hplace : Place.absent above name slash = place at h
  induction h with
  | done | stay | file => cases hplace
  | skip hname h ih =>
    rw [counting_of_trivial hname]
    exact ih (fun s hs => hslash s (List.mem_cons_of_mem _ hs)) hplace
  | up h ih =>
    rw [counting_dots, way_dots]
    exact ih (fun s hs => hslash s (List.mem_cons_of_mem _ hs)) hplace
  | missing hname hhere hchild hrest =>
    cases hplace
    rw [hname.way_directory (nodeAt_of_none hchild), counting_eq_nil hrest, way_nil]
    refine ⟨rfl, hhere, hchild, hname.isName (hslash _ List.mem_cons_self), List.mem_cons_self,
      fun x hx => .inr ?_⟩
    simpa using hx
  | link hname hchild hfollow h ih =>
    rw [hname.way_link_succ hchild]
    obtain ⟨hgoal, habove, hnone, hisName, hmem, hstops⟩ :=
      ih (fun s hs => not_mem_segments_append hslash hs) hplace
    refine ⟨hgoal, habove, hnone, hisName, List.mem_cons_of_mem _ hmem, fun x hx => ?_⟩
    rcases List.mem_cons.1 hx with rfl | hx
    · exact .inl (by rw [hchild]; simp)
    · exact hstops x hx
  | enter hname hchild h ih =>
    rw [hname.way_directory (nodeAt_of_node? hchild)]
    obtain ⟨hgoal, habove, hnone, hisName, hmem, hstops⟩ :=
      ih (fun s hs => hslash s (List.mem_cons_of_mem _ hs)) hplace
    refine ⟨hgoal, habove, hnone, hisName, List.mem_cons_of_mem _ hmem, fun x hx => ?_⟩
    rcases List.mem_cons.1 hx with rfl | hx
    · exact .inl (by rw [hchild]; simp)
    · exact hstops x hx

/-! ## The last name -/

/-- A segment in front of a name is the name itself or comes before it. -/
theorem cons_eq_concat {s : Bytes} {rest : List Bytes} (h : s :: rest = pre ++ [name]) :
    (pre = [] ∧ s = name ∧ rest = []) ∨ ∃ more, pre = s :: more ∧ rest = more ++ [name] := by
  cases pre with
  | nil =>
    obtain ⟨rfl, rfl⟩ : s = name ∧ rest = [] := by simpa using h
    exact .inl ⟨rfl, rfl, rfl⟩
  | cons s' more =>
    obtain ⟨rfl, rfl⟩ := List.cons.inj h
    exact .inr ⟨more, rfl, rfl⟩

theorem Leads.get? (h : Leads t follow links above segments (.present location found)) :
    t.get? location = some found := by
  generalize hplace : Place.present location found = place at h
  induction h with
  | done hget => cases hplace; exact hget
  | stay _ hchild | file _ hchild => cases hplace; exact hchild
  | missing => cases hplace
  | skip _ _ ih | up _ ih | link _ _ _ _ ih | enter _ _ _ ih => exact ih hplace

/-- **A walk that does not follow a link at its end ends at the last name**, in the directory that
the segments before it lead to. -/
theorem Leads.at_name (hname : Path.IsName name)
    (h : Leads t false links above (pre ++ [name]) place) :
    ∃ parent, (way t.nodeAt links above (counting pre)).goal = some parent ∧
      place.location = parent ++ [name] := by
  generalize hsegments : pre ++ [name] = segments at h
  have hgoal : ∀ {links : Nat} {here : Location},
      (way t.nodeAt links here (counting [])).goal = some here := congrArg Way.goal way_nil
  induction h generalizing pre with
  | done => cases pre <;> cases hsegments
  | skip htrivial h ih =>
    rcases cons_eq_concat hsegments.symm with ⟨-, rfl, -⟩ | ⟨more, rfl, hmore⟩
    · rw [hname.not_isTrivial] at htrivial
      cases htrivial
    · rw [counting_of_trivial htrivial]
      exact ih hmore.symm
  | up h ih =>
    rcases cons_eq_concat hsegments.symm with ⟨-, hdots, -⟩ | ⟨more, rfl, hmore⟩
    · exact absurd hdots.symm hname.notDots
    · rw [counting_dots, way_dots]
      exact ih hmore.symm
  | missing hlooked hhere hchild hrest =>
    rcases cons_eq_concat hsegments.symm with ⟨rfl, rfl, -⟩ | ⟨more, -, rfl⟩
    · exact ⟨_, hgoal, rfl⟩
    · simp [hname.nonempty] at hrest
  | stay _ hchild =>
    rcases cons_eq_concat hsegments.symm with ⟨rfl, rfl, -⟩ | ⟨more, -, hmore⟩
    · exact ⟨_, hgoal, rfl⟩
    · cases more <;> cases hmore
  | link hlooked hchild hfollow h ih =>
    rcases cons_eq_concat hsegments.symm with ⟨-, -, rfl⟩ | ⟨more, rfl, rfl⟩
    · exact absurd rfl hfollow
    · rw [hlooked.way_link_succ hchild]
      exact ih (List.append_assoc ..)
  | file _ hchild =>
    rcases cons_eq_concat hsegments.symm with ⟨rfl, rfl, -⟩ | ⟨more, -, hmore⟩
    · exact ⟨_, hgoal, rfl⟩
    · cases more <;> cases hmore
  | enter hlooked hchild h ih =>
    rcases cons_eq_concat hsegments.symm with ⟨rfl, rfl, rfl⟩ | ⟨more, rfl, hmore⟩
    · cases h with
      | done => exact ⟨_, hgoal, rfl⟩
    · rw [hlooked.way_directory (nodeAt_of_node? hchild)]
      exact ih hmore.symm

/-- If a path finds something where links are followed, it finds this or the link to it where they
are not. -/
theorem exists_present_of_follow
    (hwalk : walk t true links trail here segments = .ok (.present location found)) :
    ∃ x node, walk t false links trail here segments = .ok (.present x node) := by
  induction links, trail, here, segments using walk_induction t true with
  | nil => exact ⟨_, _, walk_nil⟩
  | trivial links trail here name rest htrivial ih =>
    rw [walk_trivial htrivial] at hwalk ⊢
    exact ih hwalk
  | up links trail here rest ih =>
    rw [walk_dots rfl] at hwalk ⊢
    exact ih hwalk
  | long links trail here name rest hcounts hdots hlong =>
    rw [walk_long hcounts hdots hlong] at hwalk
    cases hwalk
  | missing links trail here name rest hname hchild =>
    rw [walk_none hname hchild] at hwalk
    split at hwalk <;> cases hwalk
  | stay links trail here name rest target hname hchild hfollow =>
    simp at hfollow
  | limit trail here name rest target hname hchild hfollow =>
    rw [walk_link_zero hname hchild hfollow] at hwalk
    cases hwalk
  | link links trail here name rest target hname hchild hfollow ih =>
    rw [walk_link_succ hname hchild hfollow] at hwalk
    by_cases hrest : (rest.isEmpty && !false) = true
    · exact ⟨_, _, walk_stay hname hchild hrest⟩
    · rw [walk_link_succ hname hchild hrest]
      exact ih hwalk
  | file links trail here name rest mode content hname hchild =>
    rw [walk_file hname hchild] at hwalk ⊢
    split at hwalk
    · next hrest => exact ⟨_, _, if_pos hrest⟩
    · cases hwalk
  | enter links trail here name rest entries hname hchild ih =>
    rw [walk_directory hname hchild] at hwalk ⊢
    exact ih hwalk

/-! ## A directory that was emptied -/

/-- In `u`, the directory that `t` has at a location is empty, and nothing else has changed. -/
structure Emptied (t u : FileTree) (location : Location) : Prop where
  before : t.node? location = some .directory
  after : u.get? location = some (.directory [])
  elsewhere : ∀ x, ¬ location <+: x → u.node? x = t.node? x

namespace Emptied

theorem inside (h : Emptied t u location) {x : Location} (hx : location <+: x)
    (hne : location ≠ x) : u.node? x = none := by
  obtain ⟨rest, rfl⟩ := hx
  obtain ⟨name, rest, rfl⟩ := List.exists_cons_of_ne_nil (l := rest) fun hr => hne (by simp [hr])
  rw [node?_append h.after]
  rfl

theorem directory (h : Emptied t u location) : u.node? location = some .directory :=
  node?_eq_some h.after

/-- A directory of `t` is still one, unless it was inside. -/
theorem eq_or_eq_none (h : Emptied t u location) {x : Location}
    (hx : t.node? x = some .directory) : u.node? x = some .directory ∨ u.node? x = none := by
  by_cases hunder : location <+: x
  · by_cases hne : location = x
    · exact .inl (hne ▸ h.directory)
    · exact .inr (h.inside hunder hne)
  · exact .inl ((h.elsewhere x hunder).trans hx)

end Emptied

theorem Stands.walk_of_none (h : Stands t trail here) (hname : LookedUp name) {rest : List Bytes}
    (hchild : t.node? (trail.reverse ++ [name]) = none) (hrest : ¬ rest.all (·.isEmpty) = true) :
    walk t follow links trail here (name :: rest) = .error .notFound := by
  rw [h.node?_child, Option.map_eq_none_iff] at hchild
  rw [walk_none hname hchild, if_neg hrest]

theorem Stands.walk_of_directory (h : Stands t trail here) (hname : LookedUp name)
    (hchild : t.node? (trail.reverse ++ [name]) = some .directory) (rest : List Bytes) :
    ∃ child, Stands t (name :: trail) child ∧
      walk t follow links trail here (name :: rest) =
        walk t follow links (name :: trail) child rest := by
  obtain ⟨entries, hentries⟩ := exists_directory_of_node? hchild
  rw [h.get?_child] at hentries
  exact ⟨_, h.push hentries, walk_directory hname hentries⟩

theorem Stands.walk_of_link (h : Stands t trail here) (ht : t.node? [] = some .directory)
    (hname : LookedUp name) {target : Bytes} {rest : List Bytes}
    (hchild : t.node? (trail.reverse ++ [name]) = some (.link target))
    (hfollow : ¬ (rest.isEmpty && !follow) = true) :
    ∃ trail' here', Stands t trail' here' ∧ trail'.reverse = start trail.reverse ⟨target⟩ ∧
      walk t follow (links + 1) trail here (name :: rest) =
        walk t follow links trail' here' (Path.segments target ++ rest) := by
  obtain ⟨s, hs, hnode⟩ := exists_get?_of_node? hchild
  obtain rfl : s = .link target := by cases s <;> simp_all [node]
  rw [h.get?_child] at hs
  exact ⟨_, _, h.linkStart ht target, reverse_linkStart .., walk_link_succ hname hs hfollow⟩

/-- **After a directory was emptied, a walk to it still finds it**, unless it came through it and
now finds nothing. -/
theorem Leads.emptied (hname : Path.IsName name)
    (h : Leads t false links above (pre ++ [name]) (.present location found))
    (hu : u.node? [] = some .directory) (hempty : Emptied t u location)
    (hstands : Stands u trail here) (htrail : trail.reverse = above) :
    walk u false links trail here (pre ++ [name]) = .ok (.present location (.directory [])) ∨
      walk u false links trail here (pre ++ [name]) = .error .notFound := by
  have hat : ∀ {links : Nat} {trail : List Bytes} {here : FileTree}, Stands u trail here →
      trail.reverse = location →
      walk u false links trail here [] = .ok (.present location (.directory [])) := by
    rintro links trail here hstands rfl
    rw [walk_nil, Option.some.inj (hstands.get.symm.trans hempty.after)]
  have hmore : ∀ more : List Bytes, ¬ (more ++ [name]).all (·.isEmpty) = true := by
    simp [hname.nonempty]
  generalize hplace : Place.present location found = place at h
  generalize hsegments : pre ++ [name] = segments at h ⊢
  induction h generalizing pre trail here with
  | done => cases pre <;> cases hsegments
  | skip htrivial h ih =>
    rw [walk_trivial htrivial]
    rcases cons_eq_concat hsegments.symm with ⟨-, rfl, -⟩ | ⟨more, rfl, hrest⟩
    · rw [hname.not_isTrivial] at htrivial
      cases htrivial
    · exact ih hstands htrail hplace hrest.symm
  | up h ih =>
    rw [walk_dots (by rfl)]
    rcases cons_eq_concat hsegments.symm with ⟨-, hdots, -⟩ | ⟨more, rfl, hrest⟩
    · exact absurd hdots.symm hname.notDots
    · exact ih hstands.up (by rw [← dropLast_reverse, htrail]) hplace hrest.symm
  | missing => cases hplace
  | stay _ hchild =>
    cases hplace
    have := hempty.before
    rw [node?_eq_some hchild] at this
    cases this
  | file _ hchild =>
    cases hplace
    have := hempty.before
    rw [node?_eq_some hchild] at this
    cases this
  | @link _ at' s target rest _ hlooked hchild hfollow h ih =>
    rcases cons_eq_concat hsegments.symm with ⟨-, -, rfl⟩ | ⟨more, rfl, rfl⟩
    · exact absurd rfl hfollow
    subst htrail
    by_cases hunder : location <+: trail.reverse ++ [s]
    · refine .inr (hstands.walk_of_none hlooked (hempty.inside hunder ?_) (hmore more))
      rintro rfl
      rw [hempty.before] at hchild
      cases hchild
    · obtain ⟨trail', here', hstands', hstart, hwalk⟩ := hstands.walk_of_link hu hlooked
        ((hempty.elsewhere _ hunder).trans hchild) hfollow
      rw [hwalk]
      exact ih hstands' hstart hplace (List.append_assoc ..)
  | enter hlooked hchild h ih =>
    subst htrail
    rcases hempty.eq_or_eq_none hchild with hdirectory | hnone
    · obtain ⟨child, hchild', hwalk⟩ := hstands.walk_of_directory hlooked hdirectory _
      rw [hwalk]
      rcases cons_eq_concat hsegments.symm with ⟨rfl, rfl, rfl⟩ | ⟨more, rfl, hrest⟩
      · cases h with
        | done => cases hplace; exact .inl (hat hchild' (List.reverse_cons ..))
      · exact ih hchild' (List.reverse_cons ..) hplace hrest.symm
    · rcases cons_eq_concat hsegments.symm with ⟨rfl, rfl, rfl⟩ | ⟨more, rfl, rfl⟩
      · cases h with
        | done => cases hplace; rw [hempty.directory] at hnone; cases hnone
      · exact .inr (hstands.walk_of_none hlooked hnone (hmore more))

end Walk

/-! ## Paths -/

section Paths

variable {t u found : FileTree} {working location above : Location} {follow slash : Bool}
variable {p q : Path} {below : List Bytes} {name : Bytes} {place : Place}

/-- The root is a directory, and where the path starts there is nothing else than a directory.
There may be nothing at all, since the directory to work in can be removed. -/
structure FreeStart (t : FileTree) (working : Location) (p : Path) : Prop where
  root : t.node? [] = some .directory
  start : ∀ n, t.node? (start working p) = some n → n = .directory

/-- If there is nothing else than a directory to work in, every path has a free start. -/
theorem FreeStart.of_working (hroot : t.node? [] = some .directory)
    (hworking : ∀ n, t.node? working = some n → n = .directory) (p : Path) :
    FreeStart t working p := by
  refine ⟨hroot, ?_⟩
  rw [FileTree.start]
  split
  · exact fun n hn => Option.some.inj (hn.symm.trans hroot)
  · exact hworking

theorem FreeStart.follows (h : FreeStart t working p) (hq : Path.Follows p below q) :
    FreeStart t working q :=
  ⟨h.root, start_of_follows hq ▸ h.start⟩

/-- If anything is there where a path starts, it is a directory to stand in. -/
theorem FreeStart.stands {here : FileTree} (h : FreeStart t working p)
    (hhere : t.get? (FileTree.start working p) = some here) :
    Stands t (FileTree.start working p).reverse here :=
  .of_get? hhere (h.start _ (node?_eq_some hhere))

theorem FreeStart.node?_start {here : FileTree} (h : FreeStart t working p)
    (hhere : t.get? (FileTree.start working p) = some here) :
    t.node? (FileTree.start working p) = some .directory := by
  rw [node?_eq_some hhere, h.start _ (node?_eq_some hhere)]

/-- A path that leads anywhere is followed at all. -/
theorem sound_of_locate (h : locate t working follow p = .ok place) : p.Sound := by
  rw [locate] at h
  split at h
  · cases h
  next hnul =>
  split at h
  · cases h
  next hempty =>
  split at h
  · cases h
  next hshort => exact ⟨by simpa using hnul, by simpa using hempty, Nat.lt_of_not_le hshort⟩

/-- A path that is followed at all is walked from where it starts, if anything is there. -/
theorem locate_of_sound (hp : p.Sound) : locate t working follow p =
    match t.get? (start working p) with
    | some here => walk t follow linkLimit (start working p).reverse here (Path.segments p.bytes)
    | none => .error .notFound := by
  have hnul : ¬ p.bytes.contains 0 = true := by
    rw [hp.noNul]
    exact Bool.false_ne_true
  have hempty : ¬ p.isEmpty = true := by simp [hp.nonempty]
  rw [locate, if_neg hnul, if_neg hempty, if_neg (Nat.not_le.2 hp.fits)]
  by_cases habs : p.isAbsolute = true
  · have hstart : start working p = [] := if_pos habs
    rw [hstart, get?_nil]
    exact if_pos habs
  · have hstart : start working p = working := if_neg habs
    rw [hstart]
    exact if_neg habs

/-- A path that leads anywhere was walked from where it starts. -/
theorem walk_of_locate (hlocate : locate t working follow p = .ok place) :
    ∃ here, t.get? (start working p) = some here ∧
      walk t follow linkLimit (start working p).reverse here (Path.segments p.bytes) =
        .ok place := by
  rw [locate_of_sound (sound_of_locate hlocate)] at hlocate
  split at hlocate
  · next here hhere => exact ⟨here, hhere, hlocate⟩
  · cases hlocate

theorem FreeStart.leads (h : FreeStart t working p)
    (hlocate : locate t working follow p = .ok place) :
    Leads t follow linkLimit (FileTree.start working p) (Path.segments p.bytes) place := by
  obtain ⟨here, hhere, hwalk⟩ := walk_of_locate hlocate
  have hleads := Leads.of_walk h.root (h.stands hhere) hwalk
  rwa [List.reverse_reverse] at hleads

/-- A path leads to something that is there.  That its way has an end is not enough for this,
because a way goes on where something is missing. -/
structure Found (t : FileTree) (working : Location) (p : Path) (location : Location)
    (found : FileTree) : Prop where
  goal : (t.wayTo working p).goal = some location
  get : t.get? location = some found
  stops : ∀ x ∈ (t.wayTo working p).stops, t.node? x ≠ none
  last : found.node = .directory ∨ location ∈ (t.wayTo working p).stops

/-- A path leads to a place in a directory where nothing is, and nothing else is missing on its way.
So something can be made there by a single call. -/
structure Missing (t : FileTree) (working : Location) (p : Path) (above : Location)
    (name : Bytes) : Prop where
  goal : (t.wayTo working p).goal = some (above ++ [name])
  directory : t.node? above = some .directory
  gone : t.node? (above ++ [name]) = none
  isName : Path.IsName name
  mem : above ++ [name] ∈ (t.wayTo working p).stops
  stops : ∀ x ∈ (t.wayTo working p).stops, t.node? x ≠ none ∨ x = above ++ [name]

theorem of_locate_present (h : FreeStart t working p)
    (hlocate : locate t working true p = .ok (.present location found)) :
    Found t working p location found := by
  obtain ⟨hgoal, hget, hstops, hlast⟩ := (h.leads hlocate).of_present
  exact ⟨hgoal, hget, hstops, hlast⟩

theorem locate_of_find (hfind : find t working follow p = .ok (location, found)) :
    locate t working follow p = .ok (.present location found) := by
  rw [find] at hfind
  split at hfind
  · next hlocate => rw [hlocate, ← (Prod.mk.inj (Except.ok.inj hfind)).1,
      ← (Prod.mk.inj (Except.ok.inj hfind)).2]
  · cases hfind
  · cases hfind

/-- **What a path finds is at the end of its way.** -/
theorem of_find (h : FreeStart t working p)
    (hfind : find t working true p = .ok (location, found)) : Found t working p location found :=
  of_locate_present h (locate_of_find hfind)

/-- **What a path finds missing is at the end of its way.** -/
theorem of_locate_absent (h : FreeStart t working p)
    (hlocate : locate t working follow p = .ok (.absent above name slash)) :
    Missing t working p above name := by
  obtain ⟨hgoal, habove, hnone, hname, hmem, hstops⟩ :=
    (h.leads hlocate).of_absent fun s => Path.slash_not_mem_of_mem_segments
  exact ⟨hgoal, habove, hnone, hname, hmem, hstops⟩

/-- If a path finds something where links are followed, it finds this or the link to it where they
are not. -/
theorem exists_find_of_follow (hfind : find t working true p = .ok (location, found)) :
    ∃ x node, find t working false p = .ok (x, node) := by
  have hlocate := locate_of_find hfind
  obtain ⟨here, hhere, hwalk⟩ := walk_of_locate hlocate
  obtain ⟨x, node, hx⟩ := exists_present_of_follow hwalk
  have hlocate' : locate t working false p = .ok (.present x node) := by
    rw [locate_of_sound (sound_of_locate hlocate), hhere]
    exact hx
  exact ⟨x, node, by rw [find, hlocate']⟩

/-! ### A name in a directory -/

/-- **A path that ends in a name leads to what has that name**, if links are not followed. -/
theorem of_locate_join (h : FreeStart t working p) (hname : Path.IsName name)
    (hlocate : locate t working false (p.join ⟨name⟩) = .ok place) :
    ∃ parent, (t.wayTo working p).goal = some parent ∧ place.location = parent ++ [name] := by
  have hfollows := (Path.Follows.refl p).join hname
  obtain ⟨pre, hpre, hnames⟩ := Path.segments_join p hname
  have hleads := (h.follows hfollows).leads hlocate
  rw [hpre, start_of_follows hfollows] at hleads
  obtain ⟨parent, hgoal, hlocation⟩ := hleads.at_name hname
  rw [counting, hnames] at hgoal
  exact ⟨parent, hgoal, hlocation⟩

theorem of_find_join (h : FreeStart t working p) (hname : Path.IsName name)
    (hfind : find t working false (p.join ⟨name⟩) = .ok (location, found)) :
    ∃ parent, (t.wayTo working p).goal = some parent ∧ location = parent ++ [name] ∧
      t.get? location = some found := by
  have hlocate := locate_of_find hfind
  obtain ⟨parent, hgoal, hlocation⟩ := of_locate_join h hname hlocate
  exact ⟨parent, hgoal, hlocation,
    ((h.follows ((Path.Follows.refl p).join hname)).leads hlocate).get?⟩

/-- **After a directory was emptied, its path still leads to it**, unless it came through it. -/
theorem locate_join_emptied (h : FreeStart t working p) (hname : Path.IsName name)
    (hfind : find t working false (p.join ⟨name⟩) = .ok (location, found))
    (hu : u.node? [] = some .directory) (hempty : Emptied t u location) :
    locate u working false (p.join ⟨name⟩) = .ok (.present location (.directory [])) ∨
      locate u working false (p.join ⟨name⟩) = .error .notFound := by
  have hfollows := (Path.Follows.refl p).join hname
  obtain ⟨pre, hpre, -⟩ := Path.segments_join p hname
  have hlocate := locate_of_find hfind
  have hfreeStart := h.follows hfollows
  have hleads := hfreeStart.leads hlocate
  obtain ⟨here, hhere, -⟩ := walk_of_locate hlocate
  rw [locate_of_sound (sound_of_locate hlocate)]
  rw [hpre] at hleads ⊢
  rcases hempty.eq_or_eq_none (hfreeStart.node?_start hhere) with hdirectory | hnone
  · obtain ⟨entries, hentries⟩ := exists_directory_of_node? hdirectory
    rw [hentries]
    exact hleads.emptied hname hu hempty (.of_get? hentries rfl) (List.reverse_reverse _)
  · rw [node?_eq_none_iff.1 hnone]
    exact .inr rfl

end Paths

end FileTree
end KernelRegistry
