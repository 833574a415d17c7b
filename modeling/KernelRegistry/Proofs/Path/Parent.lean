import KernelRegistry.Proofs.Path

/-!
# The parent of a path

The parent is written as the path is, up to its last component.  So it is shorter, and nothing that
does not count is left at its end.

* `Path.exists_bytes_parent?` — a parent is a first part of the path.
* `Path.Tidy` — a path that has no names, or ends in the last of them.
* `Path.tidy_parent?` — **parents are tidy**.
* `Path.parent?_join` — the parent of a name below a tidy path is that path.
-/

set_option autoImplicit false
namespace KernelRegistry
namespace Path

open Text (Bytes)

section Parent

variable {p q : Path} {parts before after : List Bytes} {last name : Bytes}

/-! ## Shorter paths -/

/-- **A parent is a first part of the path**, and not all of it. -/
theorem exists_bytes_parent? (h : p.parent? = some q) :
    ∃ rest, rest ≠ [] ∧ p.bytes = q.bytes ++ rest := by
  have hbytes := head_bytes p
  cases hdrop : (segments p.head.2).reverse.dropWhile isTrivial with
  | nil =>
    simp only [parent?, hdrop, Option.ite_none_right_eq_some, Option.some.injEq] at h
    obtain ⟨hstart, rfl⟩ := h
    rw [hstart] at hbytes
    exact ⟨p.bytes, by rw [hbytes]; exact List.cons_ne_nil _ _, rfl⟩
  | cons last before =>
    obtain ⟨hlast, after, hsegs, -⟩ := eq_append_of_dropWhile hdrop
    simp only [parent?, hdrop, Option.some.injEq] at h
    subst h
    by_cases htrimmed : trimTrivial before.reverse = []
    · refine ⟨p.head.2, fun hnil => ?_, by simpa [htrimmed, joinSegments] using hbytes⟩
      have hmem : last ∈ segments p.head.2 := by simp [hsegs]
      rw [hnil, segments_nil, List.mem_singleton] at hmem
      rw [hmem] at hlast
      cases hlast
    · obtain ⟨rest, -, hbody⟩ := exists_joinSegments_trimmed hsegs htrimmed
      exact ⟨_, List.cons_ne_nil _ _, by rw [hbytes, hbody, List.append_assoc]⟩

theorem length_parent?_lt (h : p.parent? = some q) : q.bytes.length < p.bytes.length := by
  obtain ⟨rest, hrest, hbytes⟩ := exists_bytes_parent? h
  rw [hbytes, List.length_append]
  have := List.length_pos_iff.2 hrest
  omega

/-! ## The last segment -/

/-- How a path can start. -/
theorem head_cases (p : Path) :
    p.head = (none, p.bytes) ∨ (∃ rest, p.bytes = slash :: rest ∧ p.head = (some .root, rest)) ∨
      (p.bytes = [dot] ∧ p.head = (some .current, [])) ∨
      ∃ rest, p.bytes = dot :: slash :: rest ∧ p.head = (some .current, slash :: rest) := by
  rw [head]
  split
  · next h => exact .inl (by rw [h])
  · next b rest h =>
    rw [h]
    by_cases hslash : b = slash
    · exact .inr (.inl ⟨rest, by rw [hslash], if_pos hslash⟩)
    rw [if_neg hslash]
    by_cases hdot : (b = dot && (rest.isEmpty || rest.head? = some slash)) = true
    · rw [if_pos hdot]
      rw [Bool.and_eq_true, decide_eq_true_eq] at hdot
      obtain ⟨rfl, hrest⟩ := hdot
      cases rest with
      | nil => exact .inr (.inr (.inl ⟨rfl, rfl⟩))
      | cons c cs =>
        obtain rfl : c = slash := by simpa using hrest
        exact .inr (.inr (.inr ⟨cs, rfl, rfl⟩))
    · exact .inl (if_neg hdot)

theorem getLast?_segments (a b : Bytes) :
    (segments (a ++ slash :: b)).getLast? = (segments b).getLast? := by
  obtain ⟨s, hs⟩ := Option.ne_none_iff_exists'.1
    (mt List.getLast?_eq_none_iff.1 (List.splitOn_ne_nil slash b))
  rw [segments_append_slash, List.getLast?_append, segments, segments, hs, Option.some_or]

/-- A path ends as what comes after its start does, if anything does. -/
theorem getLast?_segments_head (h : p.head.2 ≠ []) :
    (segments p.head.2).getLast? = (segments p.bytes).getLast? := by
  rcases head_cases p with hhead | ⟨rest, hbytes, hhead⟩ | ⟨-, hhead⟩ | ⟨rest, hbytes, hhead⟩
  · rw [hhead]
  · rw [hhead, hbytes]
    exact (getLast?_segments [] rest).symm
  · rw [hhead] at h
    exact absurd rfl h
  · rw [hhead, hbytes]
    exact (getLast?_segments [] rest).trans (getLast?_segments [dot] rest).symm

/-- The path ends in a segment that counts. -/
def EndsIn (p : Path) (last : Bytes) : Prop :=
  (segments p.bytes).getLast? = some last ∧ isTrivial last = false

/-- A path that has no names, or ends in the last of them.  Every parent is such a path, since it is
cut off behind its last name. -/
def Tidy (p : Path) : Prop := p.names = [] ∨ ∃ last, p.EndsIn last

theorem EndsIn.segments_eq (h : p.EndsIn last) : ∃ pre, segments p.bytes = pre ++ [last] :=
  List.getLast?_eq_some_iff.1 h.1

theorem endsIn_join (base : Path) (h : IsName name) : (base.join ⟨name⟩).EndsIn name := by
  obtain ⟨pre, hpre, -⟩ := segments_join base h
  exact ⟨by rw [hpre, List.getLast?_concat], h.not_isTrivial⟩

theorem EndsIn.isEmpty_eq_false (h : p.EndsIn last) : p.isEmpty = false := by
  cases hbytes : p.bytes with
  | nil =>
    have := h.1
    rw [hbytes] at this
    cases this
    cases h.2
  | cons => rw [isEmpty, hbytes]; rfl

theorem EndsIn.getLast?_ne (h : p.EndsIn last) : p.bytes.getLast? ≠ some slash := by
  intro hslash
  obtain ⟨init, hinit⟩ := List.getLast?_eq_some_iff.1 hslash
  have := h.1
  rw [hinit, getLast?_segments, segments_nil] at this
  cases this
  cases h.2

theorem EndsIn.getLast?_head (h : p.EndsIn last) : (segments p.head.2).getLast? = some last := by
  refine (getLast?_segments_head fun hnil => ?_).trans h.1
  have hstart := names_start p
  have hbytes := head_bytes p
  rw [hnil, List.append_nil] at hbytes
  obtain ⟨pre, hpre⟩ := h.segments_eq
  rw [names, ← hbytes, hpre, List.filter_append] at hstart
  simp [h.2] at hstart

/-- A path that ends in a segment that counts has no slashes at its end. -/
theorem EndsIn.dropSlashes (h : p.EndsIn last) : FileTree.dropSlashes p = p := by
  have hslash := h.getLast?_ne
  rw [FileTree.dropSlashes]
  rw [List.getLast?_eq_head?_reverse] at hslash
  cases hbytes : p.bytes.reverse with
  | nil =>
    have hnil := List.reverse_eq_nil_iff.1 hbytes
    have : ¬ p.isAbsolute = true := by simp [isAbsolute, hnil]
    exact if_neg this
  | cons b rest =>
    rw [hbytes] at hslash
    rw [List.dropWhile_cons_of_neg (by simpa using hslash)]
    exact congrArg Path.mk (by rw [← hbytes, List.reverse_reverse])

theorem getLast?_trimTrivial (h : trimTrivial parts ≠ []) :
    ∃ last, (trimTrivial parts).getLast? = some last ∧ isTrivial last = false := by
  rw [trimTrivial] at h ⊢
  rw [List.getLast?_reverse]
  cases hdrop : parts.reverse.dropWhile isTrivial with
  | nil => exact absurd (by rw [hdrop]; rfl) h
  | cons last rest =>
    have := List.head?_dropWhile_not isTrivial parts.reverse
    rw [hdrop] at this
    exact ⟨last, rfl, this⟩

/-- A path that is cut off after some of its segments ends as these do. -/
theorem endsIn_start {more : List Bytes} (hsegs : segments p.head.2 = parts ++ more)
    (hlast : parts.getLast? = some last) (hcounts : isTrivial last = false) :
    EndsIn ⟨(p.head.1.map Component.bytes).getD [] ++ joinSegments parts⟩ last := by
  obtain ⟨init, hinit⟩ := List.getLast?_eq_some_iff.1 hlast
  have hslash : ∀ s ∈ parts, slash ∉ s := fun s hs =>
    slash_not_mem_of_mem_segments (hsegs ▸ List.mem_append_left _ hs)
  have hjoined : (segments (joinSegments parts)).getLast? = some last := by
    rw [segments_joinSegments hslash (by simp [hinit]), hlast]
  refine ⟨?_, hcounts⟩
  rcases head_cases p with hhead | ⟨_, -, hhead⟩ | ⟨-, hhead⟩ | ⟨body, -, hhead⟩
  · rw [hhead]
    exact hjoined
  · rw [hhead]
    exact (getLast?_segments [] _).trans hjoined
  · -- nothing comes after the dot
    rw [hhead, segments_nil] at hsegs
    have hmem : last ∈ [([] : Bytes)] := by rw [hsegs, hinit]; simp
    rw [List.mem_singleton.1 hmem] at hcounts
    cases hcounts
  · -- the slash after the dot stays
    rw [hhead] at hsegs
    have hcut : segments (slash :: body) = [] :: segments body := segments_append_slash [] body
    rw [hcut, hinit] at hsegs
    cases init with
    | nil =>
      obtain ⟨rfl, -⟩ := List.cons.inj hsegs
      cases hcounts
    | cons s init =>
      obtain ⟨rfl, -⟩ := List.cons.inj hsegs
      rw [hhead, hinit]
      rw [hinit] at hjoined
      have hsplit : joinSegments ([] :: init ++ [last]) = slash :: joinSegments (init ++ [last]) :=
        joinSegments_append (List.cons_ne_nil [] []) (by simp)
      rw [hsplit] at hjoined ⊢
      exact ((getLast?_segments [dot] _).trans (getLast?_segments [] _).symm).trans hjoined

/-- **Parents are tidy.** -/
theorem tidy_parent? (h : p.parent? = some q) : q.Tidy := by
  cases hdrop : (segments p.head.2).reverse.dropWhile isTrivial with
  | nil =>
    simp only [parent?, hdrop, Option.ite_none_right_eq_some, Option.some.injEq] at h
    exact .inl (h.2 ▸ names_nil)
  | cons last before =>
    obtain ⟨-, after, hsegs, -⟩ := eq_append_of_dropWhile hdrop
    simp only [parent?, hdrop, Option.some.injEq] at h
    subst h
    by_cases htrimmed : trimTrivial before.reverse = []
    · rw [htrimmed, joinSegments, List.intercalate_nil, List.append_nil]
      exact .inl (names_start p)
    · obtain ⟨last', hlast, hcounts⟩ := getLast?_trimTrivial htrimmed
      obtain ⟨rest, hrest⟩ := trimTrivial_append before.reverse
      rw [hrest, List.append_assoc] at hsegs
      exact .inr ⟨last', endsIn_start hsegs hlast hcounts⟩

/-- **The parent of a name below a path is the path as it is written**, if it ends in a segment that
counts. -/
theorem EndsIn.parent?_join (h : p.EndsIn last) (hname : IsName name) :
    (p.join ⟨name⟩).parent? = some p := by
  have hempty : p.bytes ≠ [] := List.isEmpty_eq_false_iff.1 h.isEmpty_eq_false
  have habs := isAbsolute_eq_false_of_isName hname
  have hbytes : (p.join ⟨name⟩).bytes = p.bytes ++ slash :: name := by
    rw [join, if_neg (by simp [habs]), if_neg (by simp [h.isEmpty_eq_false, h.getLast?_ne])]
  have hstart : (p.join ⟨name⟩).head.1 = p.head.1 := head_join hempty habs
  have hbody : (p.join ⟨name⟩).head.2 = p.head.2 ++ slash :: name := by
    have := head_bytes (p.join ⟨name⟩)
    rw [hbytes, hstart, head_bytes p, List.append_assoc] at this
    exact (List.append_cancel_left this).symm
  have hbefore : trimTrivial (segments p.head.2) = segments p.head.2 := by
    obtain ⟨pre, hpre⟩ := List.getLast?_eq_some_iff.1 h.getLast?_head
    rw [trimTrivial, hpre, List.reverse_append, List.reverse_singleton, List.singleton_append,
      List.dropWhile_cons_of_neg (by simp [h.2])]
    simp
  have hdrop : (segments (p.join ⟨name⟩).head.2).reverse.dropWhile isTrivial =
      name :: (segments p.head.2).reverse := by
    rw [hbody, segments_append_slash, segments_of_not_mem hname.noSlash, List.reverse_append,
      List.reverse_singleton, List.singleton_append,
      List.dropWhile_cons_of_neg (by simp [hname.not_isTrivial])]
  simp only [parent?, hdrop, hstart, List.reverse_reverse, hbefore, joinSegments_segments]
  rw [← head_bytes]

end Parent

end Path
end KernelRegistry
