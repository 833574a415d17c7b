import KernelRegistry.Settings

/-!
# Settings by position

Settings are collected parameter by parameter, and they count in the order in which they were
written.  Two of them can have the same position, where several values are written in one argument;
these stay in the order in which they were collected.

* `InOrder` — settings by position, the ones of equal positions as collected.
* `InOrder.insert` — the next setting that was collected is put at its place.
* `inOrder_ordered` — **settings are put in order**.
-/

set_option autoImplicit false
namespace KernelRegistry
namespace Settings

/-- Settings by position, the ones of equal positions in the order in which they were collected. -/
structure InOrder (collected sorted : Settings) : Prop where
  perm : sorted.Perm collected
  increasing : sorted.Pairwise fun s t => s.position ≤ t.position
  ties : ∀ position,
    sorted.filter (·.position = position) = collected.filter (·.position = position)

section Insert

variable {s t : Setting} {collected sorted : Settings}

theorem insert_perm (s : Setting) (sorted : Settings) : (insert s sorted).Perm (s :: sorted) := by
  induction sorted with
  | nil => exact .refl _
  | cons t rest ih =>
    rw [insert]
    split
    · exact .refl _
    · exact (ih.cons t).trans (.swap s t rest)

theorem pairwise_insert (h : sorted.Pairwise fun s t => s.position ≤ t.position) (s : Setting) :
    (insert s sorted).Pairwise fun s t => s.position ≤ t.position := by
  induction sorted with
  | nil => exact List.pairwise_singleton _ _
  | cons t rest ih =>
    obtain ⟨hfirst, hrest⟩ := List.pairwise_cons.1 h
    rw [insert]
    split
    · next hle =>
      refine List.pairwise_cons.2 ⟨fun u hu => ?_, h⟩
      rcases List.mem_cons.1 hu with rfl | hu
      · exact hle
      · exact Nat.le_trans hle (hfirst u hu)
    · next hnot =>
      refine List.pairwise_cons.2 ⟨fun u hu => ?_, ih hrest⟩
      rcases List.mem_cons.1 ((insert_perm s rest).mem_iff.1 hu) with rfl | hu
      · exact Nat.le_of_not_le hnot
      · exact hfirst u hu

/-- The settings that a setting is put behind are at other positions, so it comes before all those
that are at its own. -/
theorem filter_insert (s : Setting) (sorted : Settings) (position : Nat) :
    (insert s sorted).filter (·.position = position) =
      (s :: sorted).filter (·.position = position) := by
  induction sorted with
  | nil => rfl
  | cons t rest ih =>
    rw [insert]
    split
    · rfl
    · next hnot =>
      rw [List.filter_cons, ih]
      by_cases ht : t.position = position
      · have hs : s.position ≠ position := fun hs => hnot (Nat.le_of_eq (hs.trans ht.symm))
        simp [ht, hs]
      · simp [List.filter_cons, ht]

/-- **The next setting is put at its place.** -/
theorem InOrder.insert (h : InOrder collected sorted) (s : Setting) :
    InOrder (s :: collected) (insert s sorted) where
  perm := (insert_perm s sorted).trans (h.perm.cons s)
  increasing := pairwise_insert h.increasing s
  ties position := by
    rw [filter_insert, List.filter_cons, List.filter_cons, h.ties position]

end Insert

/-- **The settings are put in order.** -/
theorem inOrder_ordered (settings : Settings) : InOrder settings settings.ordered := by
  induction settings with
  | nil => exact ⟨.refl _, .nil, fun _ => rfl⟩
  | cons s settings ih => exact ih.insert s

end Settings
end KernelRegistry
