import KernelRegistry.Proofs.Path

/-!
# The components of a path

A path may have slashes and single dots to spare.  They are lost when it is spelled by its
components, as it is when it is made absolute; two dots are a component like any other and stay.

* `components_eq`, `components_eq_root_cons` — the components of a path are its start and its names.
* `components_join`, `components_extend` — what is joined to a path comes after its components.
* `isAbsolute_join_iff`, `isAbsolute_absolute` — paths that start at the root.
* `components_absolute` — **a path that starts at the root keeps its components when it is made
  absolute**.
* `join_join` — paths that are joined in one step or in two.
-/

set_option autoImplicit false
namespace KernelRegistry
namespace Path

open Text (Bytes)

variable {base base' p q : Path} {segments : List Bytes}

/-! ## Components and names -/

theorem components_eq (p : Path) :
    p.components = p.head.1.toList ++ p.names.map Component.ofSegment := by
  rw [components, ← names_head]
  rfl

theorem components_eq_root_cons (h : p.isAbsolute = true) :
    p.components = .root :: p.names.map Component.ofSegment := by
  have hhead : p.head.1 = some .root := by
    rw [isAbsolute, decide_eq_true_eq] at h
    rw [head]
    split <;> simp_all
  rw [components_eq, hhead]
  rfl

@[simp]
theorem bytes_ofSegment (segment : Bytes) : (Component.ofSegment segment).bytes = segment := by
  rw [Component.ofSegment]
  split
  · next h => exact h.symm
  · rfl

theorem ofSegment_ne_current (segment : Bytes) : Component.ofSegment segment ≠ .current := by
  rw [Component.ofSegment]
  split <;> simp

/-- Paths that start at the root and have the same components have the same names. -/
theorem names_eq_of_components_eq (hp : p.isAbsolute = true) (hq : q.isAbsolute = true)
    (h : p.components = q.components) : p.names = q.names := by
  rw [components_eq_root_cons hp, components_eq_root_cons hq, List.cons.injEq] at h
  have hbytes := congrArg (List.map Component.bytes) h.2
  simpa [Function.comp_def] using hbytes

/-! ## Joining -/

/-- Joining adds the components of a relative path, its start apart. -/
theorem components_join (hbase : base.bytes ≠ []) (hp : p.isAbsolute = false) :
    (base.join p).components = base.components ++ p.names.map Component.ofSegment := by
  rw [components_eq, components_eq, head_join hbase hp, names_join hp, List.map_append,
    List.append_assoc]

theorem components_join_congr (hbase : base.bytes ≠ []) (hbase' : base'.bytes ≠ [])
    (h : base.components = base'.components) (p : Path) :
    (base.join p).components = (base'.join p).components := by
  cases hp : p.isAbsolute with
  | true => rw [join, join, if_pos hp, if_pos hp]
  | false => rw [components_join hbase hp, components_join hbase' hp, h]

/-- A slash at the end of a path adds no component. -/
theorem components_join_nil (h : base.bytes ≠ []) :
    (base.join ⟨[]⟩).components = base.components := by
  rw [components_join h rfl, names_nil, List.map_nil, List.append_nil]

/-- Paths that are joined one after the other may as well be joined to each other first. -/
theorem join_join (hp : p.isAbsolute = false) (hne : p.bytes ≠ []) (base q : Path) :
    (base.join p).join q = base.join (p.join q) := by
  by_cases hq : q.isAbsolute = true
  · rw [join, if_pos hq, join, join, if_pos hq, if_pos hq]
  · have hpq : (p.join q).isAbsolute = false := by
      rw [isAbsolute_join (Bool.eq_false_iff.2 hq), hp]
    have hjoined : ∀ front : Bytes, (Path.mk (front ++ p.bytes)).join q =
        ⟨front ++ (p.join q).bytes⟩ := by
      intro front
      have hempty : (Path.mk (front ++ p.bytes)).isEmpty = p.isEmpty := by
        rw [isEmpty, isEmpty, List.isEmpty_eq_false_iff.2 hne]
        exact List.isEmpty_eq_false_iff.2 (List.append_ne_nil_of_right_ne_nil front hne)
      have hlast : (front ++ p.bytes).getLast? = p.bytes.getLast? := by
        rw [List.getLast?_append, List.getLast?_eq_some_getLast hne, Option.some_or]
      rw [join, join, if_neg hq, if_neg hq, hempty, hlast]
      split <;> simp
    rw [join.eq_def base p, if_neg (Bool.eq_false_iff.1 hp), join.eq_def base (p.join q),
      if_neg (Bool.eq_false_iff.1 hpq)]
    split
    · exact hjoined base.bytes
    · have := hjoined (base.bytes ++ [slash])
      simpa using this

/-! ## Paths that start at the root -/

theorem bytes_ne_nil_of_isAbsolute (h : p.isAbsolute = true) : p.bytes ≠ [] := by
  intro hnil
  simp [isAbsolute, hnil] at h

theorem isAbsolute_join_iff :
    (base.join p).isAbsolute = true ↔ base.isAbsolute = true ∨ p.isAbsolute = true := by
  cases hp : p.isAbsolute with
  | true => simp [join, hp]
  | false => simp [isAbsolute_join hp]

theorem isAbsolute_extend (h : base.isAbsolute = true) (components : List Component) :
    (base.extend components).isAbsolute = true := by
  induction components generalizing base with
  | nil => exact h
  | cons c components ih => exact ih (isAbsolute_join_iff.2 (.inl h))

/-- **A path seen from an absolute directory becomes absolute.** -/
theorem isAbsolute_absolute {directory : Path} (h : directory.isAbsolute = true) (p : Path) :
    (absolute directory p).isAbsolute = true := by
  have hend : ∀ whole : Path, whole.isAbsolute = true →
      (if p.bytes.getLast? = some slash then whole.join ⟨[]⟩ else whole).isAbsolute = true := by
    intro whole hwhole
    split
    · exact isAbsolute_join_iff.2 (.inl hwhole)
    · exact hwhole
  refine hend _ ?_
  split
  · exact isAbsolute_extend (by decide) _
  split
  · next habsolute =>
    rw [components_eq_root_cons habsolute, List.filter_cons_of_pos (by decide)]
    have hroot : ((Path.mk []).join ⟨Component.root.bytes⟩).isAbsolute = true := by decide
    exact isAbsolute_extend hroot _
  · exact isAbsolute_extend h _

theorem components_extend (hbase : base.bytes ≠ [])
    (h : ∀ segment ∈ segments, slash ∉ segment ∧ isTrivial segment = false) :
    (base.extend (segments.map Component.ofSegment)).components =
      base.components ++ segments.map Component.ofSegment := by
  induction segments generalizing base with
  | nil => exact (List.append_nil _).symm
  | cons segment segments ih =>
    obtain ⟨⟨hslash, hcounts⟩, hsegments⟩ := List.forall_mem_cons.1 h
    have hjoin : (base.join ⟨segment⟩).bytes ≠ [] := by
      simpa [isEmpty] using isEmpty_join hbase ⟨segment⟩
    have hextend : base.extend ((segment :: segments).map Component.ofSegment) =
        (base.join ⟨segment⟩).extend (segments.map Component.ofSegment) := by
      simp [extend]
    rw [hextend, ih hjoin hsegments, components_join hbase (isAbsolute_of_not_mem hslash),
      names_of_not_mem hslash hcounts, List.append_assoc, List.map_cons]
    rfl

/-- **A path that starts at the root keeps its components when it is made absolute.** -/
theorem components_absolute (h : p.isAbsolute = true) (directory : Path) :
    (absolute directory p).components = p.components := by
  have hparts := components_eq_root_cons h
  have hkept : (p.components.filter fun c => c ≠ .current) = p.components := by
    rw [hparts, List.filter_eq_self]
    simp [ofSegment_ne_current]
  -- Whether it is spelled with one slash or with two, the root comes first.
  have hspelled : ∀ start : Path, start.components = [.root] → start.isAbsolute = true →
      (start.extend (p.names.map Component.ofSegment)).isAbsolute = true ∧
        (start.extend (p.names.map Component.ofSegment)).components =
          .root :: p.names.map Component.ofSegment := by
    intro start hroot hstart
    refine ⟨isAbsolute_extend hstart _, ?_⟩
    rw [components_extend (bytes_ne_nil_of_isAbsolute hstart) fun _ => of_mem_names, hroot]
    rfl
  have hend : ∀ whole : Path, whole.isAbsolute = true ∧ whole.components = p.components →
      (if p.bytes.getLast? = some slash then whole.join ⟨[]⟩ else whole).components =
        p.components := by
    rintro whole ⟨hwhole, hsame⟩
    split
    · rw [components_join_nil (bytes_ne_nil_of_isAbsolute hwhole), hsame]
    · exact hsame
  refine hend _ ?_
  rw [hkept, hparts]
  split
  · exact hspelled ⟨[slash, slash]⟩ rfl rfl
  · exact hspelled ⟨[slash]⟩ rfl rfl

end Path
end KernelRegistry
