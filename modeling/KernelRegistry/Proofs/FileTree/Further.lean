import KernelRegistry.Proofs.FileTree.Walk
import KernelRegistry.Proofs.Path.Parent

/-!
# Walks that go further

A path that goes on where another one ends is followed like that one, as far as it goes.  What stops
the one stops the other, and what the one leads to is what the other goes on from.

* `FileTree.obstacle` — what stops a walk that would go on.
* `walk_of_obstacle` — further segments do not help.
* `exists_stop_of_walk` — where a walk finds nothing, something is missing before its last segment.
* `Leads.ends` — what is found is a directory, or what has the name of the last segment.
* `locate_cases`, `locate_of_not_sound` — where a path is followed from, if it is followed at all.
* `locate_of_obstacle`, `exists_stop_of_locate`, `ends_of_locate` — **the same for paths**.
-/

set_option autoImplicit false
namespace KernelRegistry

open Text (Bytes)

namespace FileTree

/-! ## Walks -/

/-- The reason why a walk cannot go on from where another one ended.  Where something is missing at
the last segment only, that is no error of the first walk, but one of the second. -/
def obstacle : Except FileError Place → Option FileError
  | .error e => some e
  | .ok (.absent ..) => some .notFound
  | .ok (.present ..) => none

section Walk

variable {t here found : FileTree} {follow follow' : Bool} {links : Nat} {trail : List Bytes}
variable {segments further more rest pre : List Bytes} {name last : Bytes}
variable {above location : Location} {e : FileError} {place : Place}

/-- A walk that goes further comes to the first segment that counts as well. -/
theorem exists_further (hname : ¬ Path.isTrivial name = true)
    (h : counting further = counting (name :: rest) ++ more) :
    ∃ rest', counting rest' = counting rest ++ more ∧ ∀ t follow links trail here,
      walk t follow links trail here further =
        walk t follow links trail here (name :: rest') := by
  rw [counting_cons hname, List.cons_append] at h
  induction further with
  | nil => cases h
  | cons s further ih =>
    by_cases hs : Path.isTrivial s = true
    · rw [counting_of_trivial hs] at h
      obtain ⟨rest', hrest', hwalk⟩ := ih h
      exact ⟨rest', hrest', fun t follow links trail here => by rw [walk_trivial hs, hwalk]⟩
    · rw [counting_cons hs] at h
      obtain ⟨rfl, hrest⟩ := List.cons.inj h
      exact ⟨further, hrest, fun _ _ _ _ _ => rfl⟩

/-- Where something counts, not everything is empty. -/
theorem not_all_isEmpty (h : counting rest ≠ []) : ¬ rest.all (·.isEmpty) = true :=
  fun hall => h (counting_eq_nil hall)

theorem isEmpty_eq_false (h : counting rest ≠ []) : rest.isEmpty = false := by
  cases rest with
  | nil => exact absurd rfl h
  | cons => rfl

/-- Where something counts, a link is followed since the walk goes on. -/
theorem not_last (h : counting rest ≠ []) : ¬ (rest.isEmpty && !follow) = true := by
  simp [isEmpty_eq_false h]

/-- **What stops a walk stops every walk that goes further.** -/
theorem walk_of_obstacle (hstop : obstacle (walk t follow links trail here segments) = some e)
    (hfurther : counting further = counting segments ++ more) (hmore : more ≠ []) :
    walk t follow' links trail here further = .error e := by
  have hcounts : ∀ {rest rest' : List Bytes}, counting rest' = counting rest ++ more →
      counting rest' ≠ [] := fun h => by simp [h, hmore]
  induction links, trail, here, segments using walk_induction t follow generalizing further with
  | nil =>
    rw [walk_nil] at hstop
    cases hstop
  | trivial links trail here name rest hname ih =>
    rw [walk_trivial hname] at hstop
    rw [counting_of_trivial hname] at hfurther
    exact ih hstop hfurther
  | up links trail here rest ih =>
    rw [walk_dots rfl] at hstop
    obtain ⟨rest', hrest', hwalk⟩ := exists_further (by decide) hfurther
    rw [hwalk, walk_dots rfl]
    exact ih hstop hrest'
  | long links trail here name rest hname hdots hlong =>
    rw [walk_long hname hdots hlong] at hstop
    obtain ⟨rest', hrest', hwalk⟩ := exists_further hname hfurther
    rw [hwalk, walk_long hname hdots hlong, Option.some.inj hstop]
  | missing links trail here name rest hname hchild =>
    obtain ⟨rest', hrest', hwalk⟩ := exists_further hname.counts hfurther
    have he : FileError.notFound = e := by
      rw [walk_none hname hchild] at hstop
      split at hstop <;> exact Option.some.inj hstop
    rw [hwalk, walk_none hname hchild, ← he]
    exact if_neg (not_all_isEmpty (hcounts hrest'))
  | stay links trail here name rest target hname hchild hfollow =>
    rw [walk_stay hname hchild hfollow] at hstop
    cases hstop
  | limit trail here name rest target hname hchild hfollow =>
    rw [walk_link_zero hname hchild hfollow] at hstop
    obtain ⟨rest', hrest', hwalk⟩ := exists_further hname.counts hfurther
    rw [hwalk, walk_link_zero hname hchild (not_last (hcounts hrest')), Option.some.inj hstop]
  | link links trail here name rest target hname hchild hfollow ih =>
    rw [walk_link_succ hname hchild hfollow] at hstop
    obtain ⟨rest', hrest', hwalk⟩ := exists_further hname.counts hfurther
    rw [hwalk, walk_link_succ hname hchild (not_last (hcounts hrest'))]
    refine ih hstop ?_
    rw [counting_segments, counting_segments, hrest', List.append_assoc]
  | file links trail here name rest mode content hname hchild =>
    obtain ⟨rest', hrest', hwalk⟩ := exists_further hname.counts hfurther
    have he : FileError.notDirectory = e := by
      rw [walk_file hname hchild] at hstop
      split at hstop
      · cases hstop
      · exact Option.some.inj hstop
    rw [hwalk, walk_file hname hchild, ← he]
    exact if_neg (by simp [isEmpty_eq_false (hcounts hrest')])
  | enter links trail here name rest entries hname hchild ih =>
    rw [walk_directory hname hchild] at hstop
    obtain ⟨rest', hrest', hwalk⟩ := exists_further hname.counts hfurther
    rw [hwalk, walk_directory hname hchild]
    exact ih hstop hrest'

/-- **Where a walk finds nothing, something is missing before its last segment**, if that counts. -/
theorem exists_stop_of_walk (ht : t.node? [] = some .directory) (h : Stands t trail here)
    (hlast : Path.isTrivial last = false)
    (hwalk : walk t false links trail here (pre ++ [last]) = .error .notFound) :
    ∃ x ∈ (way t.nodeAt links trail.reverse (counting pre)).stops, t.node? x = none := by
  generalize hsegments : pre ++ [last] = segments at hwalk
  induction links, trail, here, segments using walk_induction t false generalizing pre with
  | nil =>
    rw [walk_nil] at hwalk
    cases hwalk
  | trivial links trail here name rest hname ih =>
    rw [walk_trivial hname] at hwalk
    rcases cons_eq_concat hsegments.symm with ⟨-, rfl, -⟩ | ⟨more, rfl, hmore⟩
    · rw [hlast] at hname
      cases hname
    · rw [counting_of_trivial hname]
      exact ih h hmore.symm hwalk
  | up links trail here rest ih =>
    rw [walk_dots rfl] at hwalk
    rcases cons_eq_concat hsegments.symm with ⟨-, -, rfl⟩ | ⟨more, rfl, hmore⟩
    · rw [walk_nil] at hwalk
      cases hwalk
    · rw [counting_dots]
      have := ih h.up hmore.symm hwalk
      rwa [← dropLast_reverse, ← way_dots] at this
  | long links trail here name rest hcounts hdots hlong =>
    rw [walk_long hcounts hdots hlong] at hwalk
    cases hwalk
  | missing links trail here name rest hname hchild =>
    rcases cons_eq_concat hsegments.symm with ⟨-, -, rfl⟩ | ⟨more, rfl, rfl⟩
    · rw [walk_none hname hchild] at hwalk
      cases hwalk
    · have hgone := h.node?_of_no_child hchild
      rw [hname.way_directory (nodeAt_of_none hgone)]
      exact ⟨_, List.mem_cons_self, hgone⟩
  | stay links trail here name rest target hname hchild hfollow =>
    rw [walk_stay hname hchild hfollow] at hwalk
    cases hwalk
  | limit trail here name rest target hname hchild hfollow =>
    rw [walk_link_zero hname hchild hfollow] at hwalk
    cases hwalk
  | link links trail here name rest target hname hchild hfollow ih =>
    rw [walk_link_succ hname hchild hfollow] at hwalk
    rcases cons_eq_concat hsegments.symm with ⟨-, -, rfl⟩ | ⟨more, rfl, rfl⟩
    · exact absurd rfl hfollow
    obtain ⟨x, hx, hgone⟩ := ih (h.linkStart ht target) (List.append_assoc ..) hwalk
    rw [reverse_linkStart] at hx
    rw [hname.way_link_succ (h.node?_of_child hchild)]
    exact ⟨x, List.mem_cons_of_mem _ hx, hgone⟩
  | file links trail here name rest mode content hname hchild =>
    rw [walk_file hname hchild] at hwalk
    split at hwalk <;> cases hwalk
  | enter links trail here name rest entries hname hchild ih =>
    rw [walk_directory hname hchild] at hwalk
    rcases cons_eq_concat hsegments.symm with ⟨-, -, rfl⟩ | ⟨more, rfl, hmore⟩
    · rw [walk_nil] at hwalk
      cases hwalk
    obtain ⟨x, hx, hgone⟩ := ih (h.push hchild) hmore.symm hwalk
    rw [List.reverse_cons] at hx
    rw [hname.way_directory (nodeAt_of_node? (h.node?_of_child hchild))]
    exact ⟨x, List.mem_cons_of_mem _ hx, hgone⟩

/-- **What is found is a directory, or what has the name of the last segment.** -/
theorem Leads.ends (h : Leads t false links above segments (.present location found)) :
    found.node = .directory ∨ ∃ pre name, segments = pre ++ [name] ∧ LookedUp name := by
  generalize hplace : Place.present location found = place at h
  induction h with
  | done _ hfound => cases hplace; exact .inl hfound
  | missing => cases hplace
  | stay hname => exact .inr ⟨[], _, rfl, hname⟩
  | file hname => exact .inr ⟨[], _, rfl, hname⟩
  | @skip _ _ s _ _ _ _ ih | @enter _ _ s _ _ _ _ _ ih =>
    exact (ih hplace).imp_right fun ⟨pre, name, hrest, hname⟩ =>
      ⟨s :: pre, name, by rw [hrest, List.cons_append], hname⟩
  | up _ ih =>
    exact (ih hplace).imp_right fun ⟨pre, name, hrest, hname⟩ =>
      ⟨dots :: pre, name, by rw [hrest, List.cons_append], hname⟩
  | @link _ _ s target rest _ _ _ hfollow _ ih =>
    -- a link is followed before the last segment only, so that segment is still the last one
    refine (ih hplace).imp_right fun ⟨pre, name, hrest, hname⟩ => ?_
    rcases List.eq_nil_or_concat rest with rfl | ⟨init, last, rfl⟩
    · exact absurd rfl hfollow
    rw [List.concat_eq_append, ← List.append_assoc] at hrest
    obtain ⟨-, hlast⟩ := List.append_inj' hrest rfl
    exact ⟨s :: init, name, by rw [List.concat_eq_append, hlast, List.cons_append], hname⟩

/-- A directory that is found is found as well where links are followed. -/
theorem walk_of_present (hfound : found.node = .directory)
    (hwalk : walk t false links trail here segments = .ok (.present location found)) :
    walk t true links trail here segments = .ok (.present location found) := by
  induction links, trail, here, segments using walk_induction t false with
  | nil =>
    rw [walk_nil] at hwalk ⊢
    exact hwalk
  | trivial links trail here name rest hname ih =>
    rw [walk_trivial hname] at hwalk ⊢
    exact ih hwalk
  | up links trail here rest ih =>
    rw [walk_dots rfl] at hwalk ⊢
    exact ih hwalk
  | long links trail here name rest hcounts hdots hlong =>
    rw [walk_long hcounts hdots hlong] at hwalk
    cases hwalk
  | missing links trail here name rest hname hchild =>
    rw [walk_none hname hchild] at hwalk
    split at hwalk <;> cases hwalk
  | stay links trail here name rest target hname hchild hfollow =>
    rw [walk_stay hname hchild hfollow] at hwalk
    cases hwalk
    cases hfound
  | limit trail here name rest target hname hchild hfollow =>
    rw [walk_link_zero hname hchild hfollow] at hwalk
    cases hwalk
  | link links trail here name rest target hname hchild hfollow ih =>
    rw [walk_link_succ hname hchild hfollow] at hwalk
    rw [walk_link_succ hname hchild (by simp)]
    exact ih hwalk
  | file links trail here name rest mode content hname hchild =>
    rw [walk_file hname hchild] at hwalk ⊢
    exact hwalk
  | enter links trail here name rest entries hname hchild ih =>
    rw [walk_directory hname hchild] at hwalk ⊢
    exact ih hwalk

end Walk

end FileTree

/-! ## Paths -/

theorem Path.Sound.parent? {p q : Path} (h : p.Sound) (hq : p.parent? = some q)
    (hempty : q.isEmpty = false) : q.Sound := by
  obtain ⟨rest, -, hbytes⟩ := Path.exists_bytes_parent? hq
  have hnul := h.noNul
  have hfits := h.fits
  rw [hbytes] at hnul hfits
  rw [List.length_append] at hfits
  exact ⟨by simp_all, hempty, by omega⟩

namespace FileTree

section Paths

variable {t here found : FileTree} {follow follow' : Bool} {working location : Location}
variable {p q : Path} {more pre : List Bytes} {last : Bytes} {e : FileError}

/-- Paths that start at the same place are followed from the same directory, or they all lead
nowhere since it is missing. -/
theorem locate_cases (h : FreeStart t working p) :
    (∃ trail here, Stands t trail here ∧ trail.reverse = start working p ∧
      ∀ (follow : Bool) (q : Path), q.Sound → q.isAbsolute = p.isAbsolute →
        locate t working follow q = walk t follow linkLimit trail here (Path.segments q.bytes)) ∨
    t.node? (start working p) = none ∧
      ∀ (follow : Bool) (q : Path), q.Sound → q.isAbsolute = p.isAbsolute →
        locate t working follow q = .error .notFound := by
  have hstart : ∀ q : Path, q.isAbsolute = p.isAbsolute → start working q = start working p := by
    intro q hsame
    rw [start, start, hsame]
  cases hget : t.get? (start working p) with
  | some here =>
    refine .inl ⟨_, here, h.stands hget, List.reverse_reverse _, fun follow q hq hsame => ?_⟩
    rw [locate_of_sound hq, hstart q hsame, hget]
  | none =>
    refine .inr ⟨node?_eq_none_iff.2 hget, fun follow q hq hsame => ?_⟩
    rw [locate_of_sound hq, hstart q hsame, hget]

/-- A path that is not followed at all leads nowhere, whatever the tree is. -/
theorem locate_of_not_sound (hp : p.isEmpty = false) (h : ¬ p.Sound) :
    ∃ e, e ≠ .notFound ∧ ∀ (t : FileTree) (working : Location) (follow : Bool),
      locate t working follow p = .error e := by
  by_cases hnul : p.bytes.contains 0 = true
  · exact ⟨.nulByte, by simp, fun t working follow => by rw [locate, if_pos hnul]⟩
  · refine ⟨.nameTooLong, by simp, fun t working follow => ?_⟩
    have hlong : pathLimit ≤ p.bytes.length := Nat.le_of_not_lt fun hfits =>
      h ⟨Bool.eq_false_iff.2 hnul, hp, hfits⟩
    rw [locate, if_neg hnul, if_neg (by simp [hp]), if_pos hlong]

/-- **What stops a path stops every path that goes further.** -/
theorem locate_of_obstacle (h : FreeStart t working p) (hp : p.Sound) (hq : q.Sound)
    (hstop : obstacle (locate t working follow p) = some e) (hfollows : Path.Follows p more q)
    (hmore : more ≠ []) : locate t working follow' q = .error e := by
  rcases locate_cases h with ⟨trail, here, -, -, hlocate⟩ | ⟨-, hlocate⟩
  · rw [hlocate follow p hp rfl] at hstop
    rw [hlocate follow' q hq hfollows.isAbsolute]
    exact walk_of_obstacle hstop hfollows.names hmore
  · rw [hlocate follow p hp rfl] at hstop
    rw [hlocate follow' q hq hfollows.isAbsolute, ← Option.some.inj hstop]

/-- The segments before the last one of a path are the names that it follows. -/
theorem counting_of_follows (hlast : q.EndsIn last) (hfollows : Path.Follows p [last] q)
    (hsegments : Path.segments q.bytes = pre ++ [last]) : counting pre = p.names := by
  have hnames := hfollows.names
  rw [Path.names, hsegments, List.filter_append,
    List.filter_cons_of_pos (by simp [hlast.2])] at hnames
  exact (List.append_inj' hnames rfl).1

/-- **Where a path finds nothing, something is missing on the way to its last segment.** -/
theorem exists_stop_of_locate (h : FreeStart t working p) (hq : q.Sound) (hlast : q.EndsIn last)
    (hfollows : Path.Follows p [last] q)
    (hlocate : locate t working false q = .error .notFound) :
    t.node? (start working p) = none ∨ ∃ x ∈ (t.wayTo working p).stops, t.node? x = none := by
  obtain ⟨pre, hpre⟩ := hlast.segments_eq
  rcases locate_cases h with ⟨trail, here, hstands, htrail, hwalk⟩ | ⟨hgone, -⟩
  · rw [hwalk false q hq hfollows.isAbsolute, hpre] at hlocate
    have hstop := exists_stop_of_walk h.root hstands hlast.2 hlocate
    rw [htrail, counting_of_follows hlast hfollows hpre] at hstop
    exact .inr hstop
  · exact .inl hgone

/-- **What a path finds is a directory, or what has its last name** in the directory that the path
before leads to. -/
theorem ends_of_locate (h : FreeStart t working p) (hlast : q.EndsIn last)
    (hfollows : Path.Follows p [last] q)
    (hlocate : locate t working false q = .ok (.present location found)) :
    found.node = .directory ∨ last ≠ dots ∧ ∃ above, (t.wayTo working p).goal = some above ∧
      location = above ++ [last] := by
  have hleads := (h.follows hfollows).leads hlocate
  rcases hleads.ends with hdirectory | ⟨pre, name, hsegments, hname⟩
  · exact .inl hdirectory
  obtain ⟨pre', hpre'⟩ := hlast.segments_eq
  obtain ⟨rfl, heq⟩ := List.append_inj' (hsegments.symm.trans hpre') rfl
  obtain rfl : name = last := (List.cons.inj heq).1
  have hslash : Path.slash ∉ name := Path.slash_not_mem_of_mem_segments (by rw [hsegments]; simp)
  rw [hsegments] at hleads
  obtain ⟨above, hgoal, hlocation⟩ := hleads.at_name (hname.isName hslash)
  rw [start_of_follows hfollows, counting_of_follows hlast hfollows hsegments] at hgoal
  exact .inr ⟨hname.notDots, above, hgoal, hlocation⟩

/-- A directory that is found is found as well where links are followed. -/
theorem locate_of_present (hp : p.Sound) (h : FreeStart t working p)
    (hfound : found.node = .directory)
    (hlocate : locate t working false p = .ok (.present location found)) :
    locate t working true p = .ok (.present location found) := by
  rcases locate_cases h with ⟨trail, here, -, -, hwalk⟩ | ⟨-, hnone⟩
  · rw [hwalk false p hp rfl] at hlocate
    rw [hwalk true p hp rfl]
    exact walk_of_present hfound hlocate
  · rw [hnone false p hp rfl] at hlocate
    cases hlocate

end Paths

end FileTree
end KernelRegistry
