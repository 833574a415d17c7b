import KernelRegistry.Proofs.FileTree.Actions

/-!
# Trees that agree but for one place

Two installations that work at different destinations see file trees that differ at one place only.
This file says that paths which do not come to that place lead to the same, and that what is put
elsewhere keeps the trees in agreement.

* `FileTree.Beside` — two places neither of which is in the other.
* `FileTree.AgreeOff` — two trees agree but for what is at or below a place; `AgreeOff.update` and
  `AgreeOff.put` keep them so.
* `FileTree.Avoids` — a path comes neither to a place nor below it.
* `AgreeOff.locate` — **a path that avoids the place leads to the same in both trees**.
-/

set_option autoImplicit false
namespace KernelRegistry
namespace FileTree

open Text (Bytes)

/-! ## Places beside each other -/

/-- Neither place is at, above or below the other, so that a change at one of them is not seen in
what is at the other. -/
structure Beside (a b : Location) : Prop where
  notBelow : ¬ a <+: b
  notAbove : ¬ b <+: a

section Beside

variable {t : FileTree} {new : Option FileTree} {a b c : Location}

theorem Beside.symm (h : Beside a b) : Beside b a := ⟨h.notAbove, h.notBelow⟩

/-- Locations that are beside each other stay so further below. -/
theorem Beside.append (h : Beside a b) (c : Location) : Beside a (b ++ c) := by
  refine ⟨fun hunder => ?_, fun hover => h.notAbove ((List.prefix_append b c).trans hover)⟩
  rcases List.prefix_or_prefix_of_prefix hunder (List.prefix_append b c) with hab | hba
  · exact h.notBelow hab
  · exact h.notAbove hba

/-- Different names in a directory are beside each other. -/
theorem Beside.of_ne {name other : Bytes} (h : name ≠ other) :
    Beside (a ++ [name]) (a ++ [other]) := by
  have hnot : ∀ {n n' : Bytes}, n ≠ n' → ¬ a ++ [n] <+: a ++ [n'] := by
    intro n n' hne hprefix
    have heq := (List.prefix_append_right_inj a).1 hprefix
    exact hne (List.cons_prefix_cons.1 heq).1
  exact ⟨hnot h, hnot h.symm⟩

/-- **A change at one place leaves what is beside it as it is**, with all that is in it. -/
theorem get?_update_beside (h : Beside a b) : (t.update new a).get? b = t.get? b := by
  induction a generalizing t b with
  | nil => exact absurd List.nil_prefix h.notBelow
  | cons name rest ih =>
    cases b with
    | nil => exact absurd List.nil_prefix h.notAbove
    | cons other b =>
      cases t with
      | file | link => cases rest <;> rfl
      | directory entries =>
        have hsame : name = other → Beside rest b := by
          rintro rfl
          exact ⟨fun hp => h.notBelow (List.cons_prefix_cons.2 ⟨rfl, hp⟩),
            fun hp => h.notAbove (List.cons_prefix_cons.2 ⟨rfl, hp⟩)⟩
        cases rest with
        | nil =>
          have hne : ¬ name = other := fun heq => (hsame heq).notBelow List.nil_prefix
          simp [update, hne]
        | cons next rest =>
          rw [update_cons_cons]
          cases hchild : child? name entries with
          | none => rfl
          | some child =>
            simp only [get?_directory_cons, child?_setEntry]
            by_cases hne : name = other
            · rw [if_pos hne, ← hne, hchild]
              exact ih (hsame hne)
            · rw [if_neg hne]

/-- A change further down is a change of what is there. -/
theorem get?_update_above (h : c ≠ []) :
    (t.update new (a ++ c)).get? a = (t.get? a).map (·.update new c) := by
  induction a generalizing t with
  | nil => rw [get?_nil, get?_nil]; rfl
  | cons name rest ih =>
    obtain ⟨next, more, hmore⟩ := List.exists_cons_of_ne_nil (l := rest ++ c) (by simp [h])
    rw [List.cons_append, hmore]
    cases t with
    | file | link => rfl
    | directory entries =>
      rw [update_cons_cons, get?_directory_cons]
      cases hchild : child? name entries with
      | none => simp [hchild]
      | some child =>
        simp only [get?_directory_cons, child?_setEntry, if_pos, Option.bind_some]
        rw [← hmore]
        exact ih

end Beside

/-! ## Agreement -/

/-- The trees agree but for what is at or below a place.  What is beside it is the same with all
that is in it, and directories lead to it in both trees. -/
structure AgreeOff (place : Location) (t u : FileTree) : Prop where
  node : ∀ x, ¬ place <+: x → u.node? x = t.node? x
  get : ∀ x, Beside place x → u.get? x = t.get? x
  above : ∀ x, x <+: place → x ≠ place → t.node? x = some .directory
  ne : place ≠ []

namespace AgreeOff

variable {t u : FileTree} {place x : Location} {new : Option FileTree}

theorem refl {above : Location} (h : t.node? above = some .directory) (name : Bytes) :
    AgreeOff (above ++ [name]) t t := by
  refine ⟨fun _ _ => rfl, fun _ _ => rfl, fun x hx hne => ?_, by simp⟩
  rcases List.prefix_concat_iff.1 hx with heq | hx
  · exact absurd heq hne
  by_cases heq : x = above
  · rw [heq, h]
  · exact node?_of_above hx heq (by rw [h]; simp)

theorem trans {v : FileTree} (h : AgreeOff place t u) (h' : AgreeOff place u v) :
    AgreeOff place t v :=
  ⟨fun x hx => (h'.node x hx).trans (h.node x hx), fun x hx => (h'.get x hx).trans (h.get x hx),
    h.above, h.ne⟩

/-- Trees agree off a place no matter what is put at it or below it. -/
theorem put (h : AgreeOff place t u) (hx : place <+: x) :
    AgreeOff place t (u.update new x) := by
  refine ⟨fun y hy => ?_, fun y hy => ?_, h.above, h.ne⟩
  · rw [node?_update_elsewhere fun hunder => hy (hx.trans hunder), h.node y hy]
  · have hbeside : Beside x y := by
      refine ⟨fun hunder => hy.notBelow (hx.trans hunder), fun hover => ?_⟩
      rcases List.prefix_or_prefix_of_prefix hx hover with hunder | hover'
      · exact hy.notBelow hunder
      · exact hy.notAbove hover'
    rw [get?_update_beside hbeside, h.get y hy]

theorem root (h : AgreeOff place t u) : t.node? [] = some .directory :=
  h.above [] List.nil_prefix h.ne.symm

theorem root' (h : AgreeOff place t u) : u.node? [] = some .directory := by
  rw [h.node [] fun hp => h.ne (List.prefix_nil.1 hp), h.root]

/-- Anything else than a directory is beside the place. -/
theorem beside (h : AgreeOff place t u) (hx : ¬ place <+: x) (hnode : t.node? x ≠ some .directory) :
    Beside place x := by
  refine ⟨hx, fun hover => hnode (h.above x hover ?_)⟩
  rintro rfl
  exact hx (List.prefix_refl _)

/-- **What is put beside the place keeps the trees in agreement.** -/
theorem update (h : AgreeOff place t u) (hx : Beside place x) :
    AgreeOff place (t.update new x) (u.update new x) := by
  rcases List.eq_nil_or_concat x with rfl | ⟨above, name, hconcat⟩
  · exact absurd List.nil_prefix hx.notAbove
  rw [List.concat_eq_append] at hconcat
  subst hconcat
  have habove : u.node? above = t.node? above :=
    h.node above fun hp => hx.notBelow (hp.trans (List.prefix_append above [name]))
  by_cases hdirectory : t.node? above = some .directory
  · have hput : ∀ rest, (u.update new (above ++ [name])).get? (above ++ name :: rest) =
        (t.update new (above ++ [name])).get? (above ++ name :: rest) := fun rest => by
      rw [get?_update_append hdirectory, get?_update_append (habove.trans hdirectory)]
    have hat : ∀ {y}, above ++ [name] <+: y → ∃ rest, y = above ++ name :: rest := by
      rintro y ⟨rest, rfl⟩
      exact ⟨rest, by simp⟩
    refine ⟨fun y hy => ?_, fun y hy => ?_, fun y hy hne => ?_, h.ne⟩
    · by_cases hunder : above ++ [name] <+: y
      · obtain ⟨rest, rfl⟩ := hat hunder
        rw [node?, node?, hput]
      · rw [node?_update_elsewhere hunder, node?_update_elsewhere hunder, h.node y hy]
    · by_cases hunder : above ++ [name] <+: y
      · obtain ⟨rest, rfl⟩ := hat hunder
        exact hput rest
      by_cases hover : y <+: above ++ [name]
      · obtain ⟨rest, hrest⟩ := hover
        have hnil : rest ≠ [] := by
          rintro rfl
          rw [List.append_nil] at hrest
          exact hunder (hrest ▸ List.prefix_refl _)
        rw [← hrest, get?_update_above hnil, get?_update_above hnil, h.get y hy]
      · rw [get?_update_beside ⟨hunder, hover⟩, get?_update_beside ⟨hunder, hover⟩, h.get y hy]
    · rw [node?_update_elsewhere fun hunder => hx.notAbove (hunder.trans hy), h.above y hy hne]
  · rw [update_eq_self hdirectory, update_eq_self (habove ▸ hdirectory)]
    exact h

end AgreeOff

/-! ## Walks -/

/-- Two walks come to the same, up to what is in a directory that is found.  Such a directory may be
above the place at which the trees differ. -/
inductive SamePlace : Except FileError Place → Except FileError Place → Prop
  | error (e : FileError) : SamePlace (.error e) (.error e)
  | absent (above : Location) (name : Bytes) (slash : Bool) :
      SamePlace (.ok (.absent above name slash)) (.ok (.absent above name slash))
  | present (location : Location) {found found' : FileTree} (h : found'.node = found.node) :
      SamePlace (.ok (.present location found)) (.ok (.present location found'))

section Walk

variable {t u here here' : FileTree} {place : Location} {follow : Bool} {links : Nat}
variable {view : Location → Node} {x : Location} {trail : List Bytes} {names segments : List Bytes}
variable {name : Bytes} {rest : List Bytes}

/-- A tree that is no directory is known by its node, since nothing is in it. -/
theorem eq_of_node {s s' : FileTree} (h : s.node = s'.node) (hleaf : s'.isDirectory = false) :
    s = s' := by
  cases s <;> cases s' <;> simp_all [FileTree.node, isDirectory]

section Child

variable (h : AgreeOff place t u) (hstands : Stands t trail here) (hstands' : Stands u trail here')
variable (hname : ¬ place <+: trail.reverse ++ [name])
include h hstands hstands' hname

/-- A name stands for the same in both trees. -/
theorem AgreeOff.child :
    (here'.get? [name]).map FileTree.node = (here.get? [name]).map FileTree.node := by
  rw [← hstands.node?_child, ← hstands'.node?_child, h.node _ hname]

theorem AgreeOff.child_none (hchild : here.get? [name] = none) : here'.get? [name] = none := by
  have hsame := h.child hstands hstands' hname
  rwa [hchild, Option.map_none, Option.map_eq_none_iff] at hsame

theorem AgreeOff.child_leaf {s : FileTree} (hchild : here.get? [name] = some s)
    (hleaf : s.isDirectory = false) : here'.get? [name] = some s := by
  have hsame := h.child hstands hstands' hname
  rw [hchild] at hsame
  obtain ⟨s', hs', hnode⟩ := Option.map_eq_some_iff.1 hsame
  rw [hs', eq_of_node hnode hleaf]

theorem AgreeOff.child_directory {entries : List (Bytes × FileTree)}
    (hchild : here.get? [name] = some (.directory entries)) :
    ∃ entries', here'.get? [name] = some (.directory entries') := by
  have hsame := h.child hstands hstands' hname
  rw [hchild] at hsame
  obtain ⟨s', hs', hnode⟩ := Option.map_eq_some_iff.1 hsame
  obtain ⟨entries', rfl⟩ := exists_directory_of_node hnode
  exact ⟨entries', hs'⟩

end Child

/-- **A walk that does not come to the place comes to the same in both trees.** -/
theorem AgreeOff.walk (h : AgreeOff place t u) (hstands : Stands t trail here)
    (hstands' : Stands u trail here')
    (hstops : ∀ x ∈ (way t.nodeAt links trail.reverse (counting segments)).stops,
      ¬ place <+: x) :
    SamePlace (walk t follow links trail here segments)
      (walk u follow links trail here' segments) := by
  induction links, trail, here, segments using walk_induction t follow generalizing here' with
  | nil links trail here =>
    rw [walk_nil, walk_nil]
    exact .present _ (hstands'.directory.trans hstands.directory.symm)
  | trivial links trail here name rest htrivial ih =>
    rw [walk_trivial htrivial, walk_trivial htrivial]
    rw [counting_of_trivial htrivial] at hstops
    exact ih hstands hstands' hstops
  | up links trail here rest ih =>
    rw [walk_dots rfl, walk_dots rfl]
    rw [counting_dots, way_dots, dropLast_reverse] at hstops
    exact ih hstands.up hstands'.up hstops
  | long links trail here name rest hcounts hdots hlong =>
    rw [walk_long hcounts hdots hlong, walk_long hcounts hdots hlong]
    exact .error _
  | missing links trail here name rest hname hnone =>
    have hnone' := h.child_none hstands hstands' (hstops _ hname.mem_stops) hnone
    rw [walk_none hname hnone, walk_none hname hnone']
    split
    · exact .absent ..
    · exact .error _
  | stay links trail here name rest target hname hlink hfollow =>
    have hlink' := h.child_leaf hstands hstands' (hstops _ hname.mem_stops) hlink rfl
    rw [walk_stay hname hlink hfollow, walk_stay hname hlink' hfollow]
    exact .present _ rfl
  | limit trail here name rest target hname hlink hfollow =>
    have hlink' := h.child_leaf hstands hstands' (hstops _ hname.mem_stops) hlink rfl
    rw [walk_link_zero hname hlink hfollow, walk_link_zero hname hlink' hfollow]
    exact .error _
  | link links trail here name rest target hname hlink hfollow ih =>
    have hlink' := h.child_leaf hstands hstands' (hstops _ hname.mem_stops) hlink rfl
    rw [hname.way_link_succ (hstands.node?_of_child hlink), ← reverse_linkStart t trail here]
      at hstops
    rw [walk_link_succ hname hlink hfollow, walk_link_succ hname hlink' hfollow]
    have htrail : (linkStart u trail here' target).1 = (linkStart t trail here target).1 := by
      rw [linkStart, linkStart]
      split <;> rfl
    have hlinked := hstands'.linkStart h.root' target
    rw [htrail] at hlinked ⊢
    exact ih (hstands.linkStart h.root target) hlinked fun x hx =>
      hstops x (List.mem_cons_of_mem _ hx)
  | file links trail here name rest mode content hname hfile =>
    have hfile' := h.child_leaf hstands hstands' (hstops _ hname.mem_stops) hfile rfl
    rw [walk_file hname hfile, walk_file hname hfile']
    split
    · exact .present _ rfl
    · exact .error _
  | enter links trail here name rest entries hname hdirectory ih =>
    obtain ⟨entries', hdirectory'⟩ :=
      h.child_directory hstands hstands' (hstops _ hname.mem_stops) hdirectory
    rw [hname.way_directory (nodeAt_of_node? (hstands.node?_of_child hdirectory))] at hstops
    rw [walk_directory hname hdirectory, walk_directory hname hdirectory']
    refine ih (hstands.push hdirectory) (hstands'.push hdirectory') fun x hx => hstops x ?_
    rw [List.reverse_cons] at hx
    exact List.mem_cons_of_mem _ hx

end Walk

/-! ## Paths -/

/-- A path neither comes to a place nor below it, not even where it starts.  What is at the place
has no influence on where such a path leads. -/
structure Avoids (t : FileTree) (working : Location) (p : Path) (place : Location) : Prop where
  start : ¬ place <+: start working p
  stops : ∀ x ∈ (t.wayTo working p).stops, ¬ place <+: x

section Paths

variable {t u : FileTree} {working place x : Location} {p q : Path} {follow : Bool}
variable {view : Location → Node} {links : Nat} {here : Location} {names : List Bytes}

/-- A way that comes to no place below another one does not end there. -/
theorem goal_of_avoids (hplace : place ≠ []) (hhere : ¬ place <+: here)
    (hstops : ∀ x ∈ (way view links here names).stops, ¬ place <+: x)
    (hgoal : (way view links here names).goal = some x) : ¬ place <+: x := by
  induction links, here, names using way_induction view with
  | nil =>
    rw [way_nil] at hgoal
    exact Option.some.inj hgoal ▸ hhere
  | up links here rest ih =>
    rw [way_dots] at hgoal hstops
    exact ih (fun hp => hhere (hp.trans (List.dropLast_prefix here))) hstops hgoal
  | directory links here name rest hname hview ih =>
    rw [way_directory hname hview] at hgoal hstops
    exact ih (hstops _ List.mem_cons_self) (fun x hx => hstops x (List.mem_cons_of_mem _ hx)) hgoal
  | file links here name rest mode content hname hview =>
    rw [way_file hname hview] at hgoal hstops
    dsimp only at hgoal
    split at hgoal
    · exact Option.some.inj hgoal ▸ hstops _ List.mem_cons_self
    · cases hgoal
  | limit here name rest target hname hview =>
    rw [way_link_zero hname hview] at hgoal
    cases hgoal
  | link links here name rest target hname hview ih =>
    rw [way_link_succ hname hview] at hgoal hstops
    refine ih ?_ (fun x hx => hstops x (List.mem_cons_of_mem _ hx)) hgoal
    rw [start]
    split
    · exact fun hp => hplace (List.prefix_nil.1 hp)
    · exact hhere

namespace Avoids

theorem goal (h : Avoids t working p place) (hplace : place ≠ [])
    (hgoal : (t.wayTo working p).goal = some x) : ¬ place <+: x :=
  goal_of_avoids hplace h.start h.stops hgoal

theorem congr (h : Avoids t working p place) (hway : u.wayTo working p = t.wayTo working p) :
    Avoids u working p place :=
  ⟨h.start, hway ▸ h.stops⟩

/-- A path that avoids a place has the same way in trees that agree off it. -/
theorem wayTo (h : Avoids t working p place)
    (helsewhere : ∀ x, ¬ place <+: x → u.node? x = t.node? x) :
    u.wayTo working p = t.wayTo working p :=
  wayTo_congr fun x hx => by rw [nodeAt, nodeAt, helsewhere x (h.stops x hx)]

theorem freeStart (h : Avoids t working p place)
    (helsewhere : ∀ x, ¬ place <+: x → u.node? x = t.node? x) (hp : FreeStart t working p) :
    FreeStart u working p := by
  refine ⟨(helsewhere [] fun hroot => h.start ?_).trans hp.root, fun n hn => ?_⟩
  · exact List.prefix_nil.1 hroot ▸ List.nil_prefix
  · exact hp.start n (helsewhere _ h.start ▸ hn)

theorem dropSlashes (h : Avoids t working p place) :
    Avoids t working (dropSlashes p) place := by
  refine ⟨?_, wayTo_dropSlashes t working p ▸ h.stops⟩
  rw [start_of_follows (Path.Follows.refl p).dropSlashes]
  exact h.start

theorem parent? (h : Avoids t working p place) (hq : p.parent? = some q) :
    Avoids t working q place := by
  refine ⟨?_, fun x hx => h.stops x (stops_subset_of_parent? t working hq hx)⟩
  have hstart : FileTree.start working q = FileTree.start working p := by
    rw [FileTree.start, FileTree.start, (Path.names_parent? hq).2]
  exact hstart ▸ h.start

end Avoids

namespace AgreeOff

/-- **A path that avoids the place leads to the same in both trees.** -/
theorem locate (h : AgreeOff place t u) (hp : FreeStart t working p)
    (havoids : Avoids t working p place) :
    SamePlace (locate t working follow p) (locate u working follow p) := by
  obtain ⟨hstart, hstops⟩ := havoids
  have horigin := hp.start
  rw [FileTree.locate, FileTree.locate]
  split
  · exact .error _
  split
  · exact .error _
  split
  · exact .error _
  split
  · next habs =>
    rw [wayTo, FileTree.start, if_pos habs] at hstops
    exact h.walk (Stands.root h.root) (Stands.root h.root') hstops
  · next habs =>
    rw [FileTree.start, if_neg habs] at hstart horigin
    rw [wayTo, FileTree.start, if_neg habs, ← List.reverse_reverse working] at hstops
    have hworking := h.node working hstart
    cases hhere : t.get? working with
    | none =>
      rw [node?_eq_none_iff.2 hhere, node?_eq_none_iff] at hworking
      rw [hworking]
      exact .error _
    | some here =>
      have hdirectory := horigin _ (node?_eq_some hhere)
      rw [node?_eq_some hhere, hdirectory] at hworking
      obtain ⟨entries, hhere'⟩ := exists_directory_of_node? hworking
      rw [hhere']
      refine h.walk ⟨?_, hdirectory⟩ ⟨?_, rfl⟩ hstops
      · rw [List.reverse_reverse, hhere]
      · rw [List.reverse_reverse, hhere']

end AgreeOff

end Paths

end FileTree
end KernelRegistry
