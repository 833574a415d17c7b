import KernelRegistry.Proofs.FileTree.Node

/-!
# The way that a path takes

Where a path leads is not only a question about what is there: an installation makes the
directories that its destination is missing.  The way of a path is therefore followed as if every
missing directory had been made, so that making them does not change it.

* `FileTree.way` — the places that a list of names comes to, and where it ends.  Links are
  followed, the last one too.
* `way_congr` — only what is at these places matters.
* `way_append`, `way_of_no_link` — a way in two parts, and a way that meets no links.
* `FileTree.wayTo` — the way of a path.
-/

set_option autoImplicit false
namespace KernelRegistry
namespace FileTree

open Text (Bytes)

/-- The places that a path comes to, in their order, and the place where it ends.  The places count
as well, because what changes at one of them can change where the path ends. -/
structure Way where
  stops : List Location
  goal : Option Location

/-- A way that comes to a place first. -/
def Way.via (x : Location) (w : Way) : Way := ⟨x :: w.stops, w.goal⟩

@[simp]
theorem Way.stops_via (x : Location) (w : Way) : (w.via x).stops = x :: w.stops := rfl

@[simp]
theorem Way.goal_via (x : Location) (w : Way) : (w.via x).goal = w.goal := rfl

/-- The two dots. -/
def dots : Bytes := [Path.dot, Path.dot]

/-- Where a path starts that is seen from a directory.  The path in a link is seen from the
directory in which the link is. -/
def start (working : Location) (p : Path) : Location := if p.isAbsolute then [] else working

/-- The way of names from a directory up to a link, where `view` tells what is at a place.  `again`
is the way after a link; it is missing if no more links may be followed.  As for a walk, the
recursion is on the names here, and on the links in `way`. -/
def wayOn (view : Location → Node) (again : Option (Location → List Bytes → Way))
    (here : Location) (names : List Bytes) : Way :=
  match names with
  | [] => ⟨[], some here⟩
  | name :: rest =>
    if name = dots then wayOn view again here.dropLast rest
    else
      match view (here ++ [name]) with
      | .directory => (wayOn view again (here ++ [name]) rest).via (here ++ [name])
      | .file _ _ => ⟨[here ++ [name]], if rest = [] then some (here ++ [name]) else none⟩
      | .link target =>
        match again with
        | none => ⟨[here ++ [name]], none⟩
        | some again =>
          (again (start here ⟨target⟩) ((Path.mk target).names ++ rest)).via (here ++ [name])

/-- The way of names from a directory, where `view` tells what is at a place.  At most `links`
links are followed; a way through a file or through too many links has no end. -/
def way (view : Location → Node) : (links : Nat) → (here : Location) → (names : List Bytes) → Way
  | 0 => wayOn view none
  | links + 1 => wayOn view (some (way view links))

section Way

variable {view other : Location → Node} {links : Nat} {here x : Location}
variable {names rest below : List Bytes} {name : Bytes}

@[simp]
theorem way_nil : way view links here [] = ⟨[], some here⟩ := by
  cases links <;> rfl

theorem way_cons :
    way view links here (name :: rest) =
      if name = dots then way view links here.dropLast rest
      else
        match view (here ++ [name]) with
        | .directory => (way view links (here ++ [name]) rest).via (here ++ [name])
        | .file _ _ => ⟨[here ++ [name]], if rest = [] then some (here ++ [name]) else none⟩
        | .link target =>
          match links with
          | 0 => ⟨[here ++ [name]], none⟩
          | links + 1 =>
            (way view links (start here ⟨target⟩) ((Path.mk target).names ++ rest)).via
              (here ++ [name]) := by
  cases links <;> rfl

theorem way_dots : way view links here (dots :: rest) = way view links here.dropLast rest := by
  rw [way_cons, if_pos rfl]

theorem way_directory (hname : name ≠ dots) (h : view (here ++ [name]) = .directory) :
    way view links here (name :: rest) =
      (way view links (here ++ [name]) rest).via (here ++ [name]) := by
  rw [way_cons, if_neg hname, h]

theorem way_file (hname : name ≠ dots) {mode : Nat} {content : Bytes}
    (h : view (here ++ [name]) = .file mode content) :
    way view links here (name :: rest) =
      ⟨[here ++ [name]], if rest = [] then some (here ++ [name]) else none⟩ := by
  rw [way_cons, if_neg hname, h]

theorem way_link_zero (hname : name ≠ dots) {target : Bytes}
    (h : view (here ++ [name]) = .link target) :
    way view 0 here (name :: rest) = ⟨[here ++ [name]], none⟩ := by
  rw [way_cons, if_neg hname, h]

theorem way_link_succ (hname : name ≠ dots) {target : Bytes}
    (h : view (here ++ [name]) = .link target) :
    way view (links + 1) here (name :: rest) =
      (way view links (start here ⟨target⟩) ((Path.mk target).names ++ rest)).via
        (here ++ [name]) := by
  rw [way_cons, if_neg hname, h]

/-- **Induction along a way**: on the links that may be followed, and between two links on the
names.  A link replaces its name by others, so the names alone do not get fewer. -/
theorem way_induction (view : Location → Node) {motive : Nat → Location → List Bytes → Prop}
    (nil : ∀ links here, motive links here [])
    (up : ∀ links here rest, motive links here.dropLast rest → motive links here (dots :: rest))
    (directory : ∀ links here name rest, name ≠ dots → view (here ++ [name]) = .directory →
      motive links (here ++ [name]) rest → motive links here (name :: rest))
    (file : ∀ links here name rest mode content, name ≠ dots →
      view (here ++ [name]) = .file mode content → motive links here (name :: rest))
    (limit : ∀ here name rest target, name ≠ dots → view (here ++ [name]) = .link target →
      motive 0 here (name :: rest))
    (link : ∀ links here name rest target, name ≠ dots → view (here ++ [name]) = .link target →
      motive links (start here ⟨target⟩) ((Path.mk target).names ++ rest) →
      motive (links + 1) here (name :: rest))
    (links : Nat) (here : Location) (names : List Bytes) : motive links here names := by
  have along : ∀ links, (∀ fewer, links = fewer + 1 → ∀ here names, motive fewer here names) →
      ∀ names here, motive links here names := by
    intro links hfewer names
    induction names with
    | nil => exact fun here => nil links here
    | cons name rest ih =>
      intro here
      by_cases hname : name = dots
      · exact hname ▸ up links here rest (ih _)
      · cases hview : view (here ++ [name]) with
        | directory => exact directory links here name rest hname hview (ih _)
        | file mode content => exact file links here name rest mode content hname hview
        | link target =>
          cases links with
          | zero => exact limit here name rest target hname hview
          | succ links => exact link links here name rest target hname hview (hfewer links rfl _ _)
  induction links generalizing here names with
  | zero => exact along 0 (fun fewer h => absurd h (Nat.succ_ne_zero fewer).symm) names here
  | succ links ih => exact along _ (fun fewer h => Nat.succ.inj h ▸ ih) names here

/-- **Only the places that a way comes to matter to it.** -/
theorem way_congr (h : ∀ x ∈ (way view links here names).stops, other x = view x) :
    way other links here names = way view links here names := by
  induction links, here, names using way_induction view with
  | nil => rw [way_nil, way_nil]
  | up links here rest ih =>
    rw [way_dots] at h
    rw [way_dots, way_dots, ih h]
  | directory links here name rest hname hview ih =>
    rw [way_directory hname hview] at h
    have hother : other (here ++ [name]) = .directory := (h _ List.mem_cons_self).trans hview
    rw [way_directory hname hother, way_directory hname hview,
      ih fun x hx => h x (List.mem_cons_of_mem _ hx)]
  | file links here name rest mode content hname hview =>
    rw [way_file hname hview] at h
    rw [way_file hname hview, way_file hname ((h _ List.mem_cons_self).trans hview)]
  | limit here name rest target hname hview =>
    rw [way_link_zero hname hview] at h
    rw [way_link_zero hname hview, way_link_zero hname ((h _ List.mem_cons_self).trans hview)]
  | link links here name rest target hname hview ih =>
    rw [way_link_succ hname hview] at h
    rw [way_link_succ hname hview, way_link_succ hname ((h _ List.mem_cons_self).trans hview),
      ih fun x hx => h x (List.mem_cons_of_mem _ hx)]

/-- **A way in two parts.**  The second part starts where the first one ends; some links may have
been used up by then. -/
theorem way_append (hgoal : (way view links here names).goal = some x)
    (hx : view x = .directory) (below : List Bytes) :
    ∃ left, way view links here (names ++ below) =
      ⟨(way view links here names).stops ++ (way view left x below).stops,
        (way view left x below).goal⟩ := by
  induction links, here, names using way_induction view with
  | nil links here =>
    rw [way_nil] at hgoal ⊢
    obtain rfl := Option.some.inj hgoal
    exact ⟨links, rfl⟩
  | up links here rest ih =>
    rw [way_dots] at hgoal
    obtain ⟨left, hleft⟩ := ih hgoal
    exact ⟨left, by rw [List.cons_append, way_dots, way_dots, hleft]⟩
  | directory links here name rest hname hview ih =>
    rw [way_directory hname hview] at hgoal
    obtain ⟨left, hleft⟩ := ih hgoal
    refine ⟨left, ?_⟩
    rw [List.cons_append, way_directory hname hview, way_directory hname hview, hleft]
    rfl
  | file links here name rest mode content hname hview =>
    rw [way_file hname hview] at hgoal
    dsimp only at hgoal
    split at hgoal
    · obtain rfl := Option.some.inj hgoal
      rw [hx] at hview
      cases hview
    · cases hgoal
  | limit here name rest target hname hview =>
    rw [way_link_zero hname hview] at hgoal
    cases hgoal
  | link links here name rest target hname hview ih =>
    rw [way_link_succ hname hview] at hgoal
    obtain ⟨left, hleft⟩ := ih hgoal
    refine ⟨left, ?_⟩
    rw [List.cons_append, way_link_succ hname hview, way_link_succ hname hview,
      ← List.append_assoc, hleft]
    rfl

/-- The first part of a way comes to its first places. -/
theorem stops_prefix_append (names more : List Bytes) :
    (way view links here names).stops <+: (way view links here (names ++ more)).stops := by
  induction links, here, names using way_induction view with
  | nil =>
    rw [way_nil]
    exact List.nil_prefix
  | up links here rest ih =>
    rw [List.cons_append, way_dots, way_dots]
    exact ih
  | directory links here name rest hname hview ih =>
    rw [List.cons_append, way_directory hname hview, way_directory hname hview]
    exact List.cons_prefix_cons.2 ⟨rfl, ih⟩
  | file links here name rest mode content hname hview =>
    exact ⟨[], by
      rw [List.append_nil, List.cons_append, way_file hname hview, way_file hname hview]⟩
  | limit here name rest target hname hview =>
    exact ⟨[], by
      rw [List.append_nil, List.cons_append, way_link_zero hname hview, way_link_zero hname hview]⟩
  | link links here name rest target hname hview ih =>
    rw [List.cons_append, way_link_succ hname hview, way_link_succ hname hview,
      ← List.append_assoc]
    exact List.cons_prefix_cons.2 ⟨rfl, ih⟩

/-- The first name of a way is where it comes to first. -/
theorem mem_stops_cons (hname : name ≠ dots) (view : Location → Node) (links : Nat) (x : Location)
    (rest : List Bytes) : x ++ [name] ∈ (way view links x (name :: rest)).stops := by
  cases hview : view (x ++ [name]) with
  | directory => rw [way_directory hname hview]; exact List.mem_cons_self
  | file mode content => rw [way_file hname hview]; exact List.mem_cons_self
  | link target =>
    cases links with
    | zero => rw [way_link_zero hname hview]; exact List.mem_cons_self
    | succ links => rw [way_link_succ hname hview]; exact List.mem_cons_self

/-- A way that meets no links ends where its names say, if at all, and comes to nothing else. -/
theorem way_of_no_link (links : Nat) (hbelow : ∀ name ∈ below, name ≠ dots)
    (hview : ∀ part target, part <+: below → view (x ++ part) ≠ .link target) :
    (∀ z, (way view links x below).goal = some z → z = x ++ below) ∧
      ∀ y ∈ (way view links x below).stops, ∃ part, part <+: below ∧ y = x ++ part := by
  induction below generalizing x with
  | nil =>
    rw [way_nil]
    exact ⟨fun z hz => by rw [← Option.some.inj hz, List.append_nil], fun y hy => by cases hy⟩
  | cons name rest ih =>
    have hname : name ≠ dots := hbelow name List.mem_cons_self
    have hunder : [name] <+: name :: rest := List.cons_prefix_cons.2 ⟨rfl, List.nil_prefix⟩
    cases hnode : view (x ++ [name]) with
    | link target => exact absurd hnode (hview _ target hunder)
    | file mode content =>
      rw [way_file hname hnode]
      refine ⟨fun z hz => ?_, fun y hy => ⟨[name], hunder, List.mem_singleton.1 hy⟩⟩
      obtain ⟨rfl, rfl⟩ : rest = [] ∧ x ++ [name] = z := by simpa using hz
      rfl
    | directory =>
      obtain ⟨hgoal, hstops⟩ := ih (x := x ++ [name])
        (fun n hn => hbelow n (List.mem_cons_of_mem _ hn)) fun part target hpart => by
          rw [List.append_assoc, List.singleton_append]
          exact hview _ target (List.cons_prefix_cons.2 ⟨rfl, hpart⟩)
      rw [way_directory hname hnode]
      refine ⟨fun z hz => ?_, fun y hy => ?_⟩
      · rw [hgoal z hz, List.append_assoc, List.singleton_append]
      · rcases List.mem_cons.1 hy with rfl | hy
        · exact ⟨[name], hunder, rfl⟩
        · obtain ⟨part, hpart, rfl⟩ := hstops y hy
          refine ⟨name :: part, List.cons_prefix_cons.2 ⟨rfl, hpart⟩, ?_⟩
          rw [List.append_assoc, List.singleton_append]

/-- A way that goes further goes on from a directory. -/
theorem directory_of_further {more : List Bytes}
    (hhere : ∀ part, part <+: here → view part = .directory)
    (hgoal : (way view links here names).goal = some x) (hmore : more ≠ [])
    (hfurther : (way view links here (names ++ more)).goal ≠ none) : view x = .directory := by
  induction links, here, names using way_induction view with
  | nil links here =>
    rw [way_nil] at hgoal
    obtain rfl := Option.some.inj hgoal
    exact hhere here (List.prefix_refl _)
  | up links here rest ih =>
    rw [way_dots] at hgoal
    rw [List.cons_append, way_dots] at hfurther
    exact ih (fun part hpart => hhere part (hpart.trans (List.dropLast_prefix here))) hgoal hfurther
  | directory links here name rest hname hview ih =>
    rw [way_directory hname hview] at hgoal
    rw [List.cons_append, way_directory hname hview] at hfurther
    refine ih (fun part hpart => ?_) hgoal hfurther
    rcases List.prefix_concat_iff.1 hpart with rfl | hpart
    · exact hview
    · exact hhere part hpart
  | file links here name rest mode content hname hview =>
    rw [List.cons_append, way_file hname hview] at hfurther
    simp [hmore] at hfurther
  | limit here name rest target hname hview =>
    rw [way_link_zero hname hview] at hgoal
    cases hgoal
  | link links here name rest target hname hview ih =>
    rw [way_link_succ hname hview] at hgoal
    rw [List.cons_append, way_link_succ hname hview, ← List.append_assoc] at hfurther
    refine ih (fun part hpart => ?_) hgoal hfurther
    rw [start] at hpart
    split at hpart
    · exact List.prefix_nil.1 hpart ▸ hhere [] List.nil_prefix
    · exact hhere part hpart

end Way

/-! ## The way of a path -/

/-- The node that a path meets at a location.  Where nothing is, it meets the directory that could
be made there; so the way of a path is the same before and after directories are made on it. -/
def nodeAt (t : FileTree) (x : Location) : Node := (t.node? x).getD .directory

theorem nodeAt_of_node? {t : FileTree} {x : Location} {n : Node} (h : t.node? x = some n) :
    t.nodeAt x = n := by
  rw [nodeAt, h]
  rfl

theorem nodeAt_of_none {t : FileTree} {x : Location} (h : t.node? x = none) :
    t.nodeAt x = .directory := by
  rw [nodeAt, h]
  rfl

/-- A directory is in directories. -/
theorem nodeAt_of_part {t : FileTree} {x part : Location} (h : t.node? x = some .directory)
    (hpart : part <+: x) : t.nodeAt part = .directory := by
  refine nodeAt_of_node? ?_
  by_cases heq : part = x
  · rw [heq, h]
  · exact node?_of_above hpart heq (by rw [h]; simp)

/-- The way of a path that is seen from a working directory. -/
def wayTo (t : FileTree) (working : Location) (p : Path) : Way :=
  way t.nodeAt linkLimit (start working p) p.names

section WayTo

variable {t u : FileTree} {working x : Location} {p q : Path} {below : List Bytes} {name : Bytes}

theorem wayTo_congr (h : ∀ x ∈ (t.wayTo working p).stops, u.nodeAt x = t.nodeAt x) :
    u.wayTo working p = t.wayTo working p :=
  way_congr h

theorem start_of_follows (h : Path.Follows p below q) : start working q = start working p := by
  rw [start, start, h.isAbsolute]

/-- The way of a parent is the first part of the way. -/
theorem stops_prefix_of_parent? (t : FileTree) (working : Location) (h : p.parent? = some q) :
    (t.wayTo working q).stops <+: (t.wayTo working p).stops := by
  obtain ⟨hnames, habs⟩ := Path.names_parent? h
  rw [wayTo, wayTo, start, start, habs, hnames]
  rcases List.eq_nil_or_concat p.names with hp | ⟨init, last, hp⟩
  · exact ⟨[], by simp [hp]⟩
  · rw [hp, List.concat_eq_append, List.dropLast_concat]
    exact stops_prefix_append init [last]

theorem stops_subset_of_parent? (t : FileTree) (working : Location) (h : p.parent? = some q) :
    (t.wayTo working q).stops ⊆ (t.wayTo working p).stops :=
  (stops_prefix_of_parent? t working h).subset

/-- Where a path ends, the names that follow it begin. -/
theorem wayTo_of_follows (h : Path.Follows p below q) (hgoal : (t.wayTo working p).goal = some x)
    (hx : t.nodeAt x = .directory) :
    ∃ left, t.wayTo working q =
      ⟨(t.wayTo working p).stops ++ (way t.nodeAt left x below).stops,
        (way t.nodeAt left x below).goal⟩ := by
  rw [wayTo, h.names, start_of_follows h]
  exact way_append hgoal hx below

/-- The way to a name in a directory is the way to the directory and the name. -/
theorem wayTo_join (hname : Path.IsName name) (hgoal : (t.wayTo working p).goal = some x)
    (hx : t.nodeAt x = .directory) (hnode : ∀ target, t.nodeAt (x ++ [name]) ≠ .link target) :
    t.wayTo working (p.join ⟨name⟩) =
      ⟨(t.wayTo working p).stops ++ [x ++ [name]], some (x ++ [name])⟩ := by
  obtain ⟨left, hway⟩ := wayTo_of_follows ((Path.Follows.refl p).join hname) hgoal hx
  rw [hway, List.nil_append]
  cases hview : t.nodeAt (x ++ [name]) with
  | directory => rw [way_directory hname.notDots hview, way_nil]; rfl
  | file mode content => rw [way_file hname.notDots hview, if_pos rfl]
  | link target => exact absurd hview (hnode target)

/-- Where a path ends that names follow is a directory, if there is an end with the names. -/
theorem nodeAt_of_further (hstart : t.node? (start working p) = some .directory)
    (hq : Path.Follows p below q) (hbelow : below ≠ [])
    (hgoal : (t.wayTo working p).goal = some x) (hfurther : (t.wayTo working q).goal ≠ none) :
    t.nodeAt x = .directory := by
  rw [wayTo, start_of_follows hq, hq.names] at hfurther
  exact directory_of_further (fun part => nodeAt_of_part hstart) hgoal hbelow hfurther

end WayTo

end FileTree
end KernelRegistry
