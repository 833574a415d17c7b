import KernelRegistry.Proofs.FileTree.Further

/-!
# Paths that are spelled in different ways

Slashes and single dots are passed over where a path goes on after them.  At its end they do matter:
a path that ends in a slash does not lead to a file, and nothing can be made where one ends in a
dot.  So two paths with the same names lead to the same place if they have their end in common.

* `walk_name` — what a segment that counts does to a walk.
* `walk_congr` — **only the segments that count matter to a walk that goes on**.
* `locate_join_congr` — paths that go on in the same way from directories with the same names.
-/

set_option autoImplicit false
namespace KernelRegistry
namespace FileTree

open Text (Bytes)

section Walk

variable {t here : FileTree} {follow : Bool} {links : Nat} {trail : List Bytes}
variable {pre rest other segments more names : List Bytes} {name : Bytes}

theorem walk_skip (h : counting pre = []) :
    walk t follow links trail here (pre ++ more) = walk t follow links trail here more := by
  induction pre with
  | nil => rfl
  | cons segment pre ih =>
    by_cases hsegment : Path.isTrivial segment = true
    · rw [counting_of_trivial hsegment] at h
      rw [List.cons_append, walk_trivial hsegment, ih h]
    · rw [counting_cons hsegment] at h
      cases h

/-- A walk comes to the first segment that counts. -/
theorem exists_walk_cons (h : counting segments = name :: names) :
    ∃ rest, counting rest = names ∧ ∀ (links : Nat) (trail : List Bytes) (here : FileTree),
      walk t follow links trail here (segments ++ more) =
        walk t follow links trail here (name :: (rest ++ more)) := by
  obtain ⟨pre, rest, rfl, hpre, -, hrest⟩ := List.filter_eq_cons_iff.1 h
  refine ⟨rest, hrest, fun links trail here => ?_⟩
  rw [List.append_assoc, walk_skip (List.filter_eq_nil_iff.2 hpre), List.cons_append]

/-- The step of a walk at a segment that counts, if the walk goes on after it. -/
theorem walk_name (hname : ¬ Path.isTrivial name = true) (hrest : counting rest ≠ []) :
    walk t follow links trail here (name :: rest) =
      if name = dots then
        walk t follow links trail.tail ((t.get? trail.tail.reverse).getD t) rest
      else if nameLimit < name.length then .error .nameTooLong
      else
        match here.get? [name], links with
        | none, _ => .error .notFound
        | some (.link _), 0 => .error .tooManyLinks
        | some (.link target), links + 1 =>
          if (Path.mk target).isAbsolute then walk t follow links [] t
            (Path.segments target ++ rest)
          else walk t follow links trail here (Path.segments target ++ rest)
        | some (.file ..), _ => .error .notDirectory
        | some (.directory entries), _ =>
          walk t follow links (name :: trail) (.directory entries) rest := by
  have hne := isEmpty_eq_false hrest
  rw [walk_cons, if_neg hname]
  refine ite_congr rfl (fun _ => rfl) fun _ => ite_congr rfl (fun _ => rfl) fun _ => ?_
  rcases here.get? [name] with - | (⟨mode, content⟩ | target | entries)
  · exact if_neg (not_all_isEmpty hrest)
  · simp [hne]
  · cases links <;> simp [hne]
  · rfl

/-- **Only the segments that count matter to a walk**, as long as one of them is to come.  The
induction is on the links that may be followed, and then on the segments: a link puts its own
segments before those that are left. -/
theorem walk_congr (hmore : counting more ≠ []) (h : counting other = counting segments) :
    walk t follow links trail here (other ++ more) =
      walk t follow links trail here (segments ++ more) := by
  have hgoes : ∀ rest : List Bytes, counting (rest ++ more) ≠ [] := by
    intro rest hnil
    rw [counting, List.filter_append] at hnil
    exact hmore (List.append_eq_nil_iff.1 hnil).2
  induction links using Nat.strongRecOn generalizing trail here other segments with
  | _ links ihlinks =>
  induction segments generalizing trail here other with
  | nil => rw [walk_skip h, List.nil_append]
  | cons name rest ih =>
    by_cases hname : Path.isTrivial name = true
    · rw [counting_of_trivial hname] at h
      rw [ih h, List.cons_append, walk_trivial hname]
    · obtain ⟨rest', hrest, hwalk⟩ := exists_walk_cons (h.trans (counting_cons hname rest))
      rw [hwalk, List.cons_append, walk_name hname (hgoes rest'), walk_name hname (hgoes rest)]
      refine ite_congr rfl (fun _ => ih hrest) fun _ => ite_congr rfl (fun _ => rfl) fun _ => ?_
      rcases here.get? [name] with - | (⟨mode, content⟩ | target | entries)
      · rfl
      · rfl
      · cases links with
        | zero => rfl
        | succ links =>
          have hmany : counting (Path.segments target ++ rest') =
              counting (Path.segments target ++ rest) := by
            rw [counting_segments, counting_segments, hrest]
          have hlinks := Nat.lt_succ_self links
          simp only [← List.append_assoc]
          rw [ihlinks links hlinks hmany, ihlinks links hlinks hmany]
      · exact ih hrest

end Walk

/-! ## Paths -/

/-- **Paths that go on in the same way from directories with the same names lead to the same
place**, whether or not there is one, if both are followed at all. -/
theorem locate_join_congr {base base' p : Path} (hp : p.isAbsolute = false) (hgoes : p.names ≠ [])
    (hnames : base.names = base'.names) (habsolute : base.isAbsolute = base'.isAbsolute)
    (hsound : (base.join p).Sound) (hsound' : (base'.join p).Sound) (t : FileTree)
    (working : Location) (follow : Bool) :
    locate t working follow (base.join p) = locate t working follow (base'.join p) := by
  obtain ⟨pre, hpre, hcounting⟩ := Path.segments_join_of_relative base hp
  obtain ⟨pre', hpre', hcounting'⟩ := Path.segments_join_of_relative base' hp
  have hsame : counting pre = counting pre' := hcounting.trans (hnames.trans hcounting'.symm)
  have hwalk : ∀ (trail : List Bytes) (here : FileTree),
      walk t follow linkLimit trail here (pre ++ Path.segments p.bytes) =
        walk t follow linkLimit trail here (pre' ++ Path.segments p.bytes) :=
    fun trail here => walk_congr hgoes hsame
  have hstart : start working (base.join p) = start working (base'.join p) := by
    rw [start, start, Path.isAbsolute_join hp, Path.isAbsolute_join hp, habsolute]
  rw [locate_of_sound hsound, locate_of_sound hsound', hpre, hpre', hstart]
  simp only [hwalk]

end FileTree
end KernelRegistry
