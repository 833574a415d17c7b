/-!
# Checks that succeed or fail

What is done in steps fails at the first step that fails.  These lemmas say so once, for the checks
and tables that are worked through item by item.

* `of_bind_eq_ok`, `of_map_eq_ok` — what succeeds in steps succeeds at each of them.
* `of_toOption_eq_some` — a result can be computed without knowing when two errors are the same.
* `foldlM_cons_of_ok` — the first of several steps.
* `foldlM_keeps` — what each step keeps, all of them keep.
* `foldlM_of_error`, `foldlM_eq_error` — several steps fail at the first one that does.
-/

set_option autoImplicit false
namespace KernelRegistry

variable {ε α β : Type} {x : Except ε α} {b : β}

theorem of_bind_eq_ok {f : α → Except ε β} (h : x >>= f = .ok b) :
    ∃ a, x = .ok a ∧ f a = .ok b := by
  cases x with
  | error e => cases h
  | ok a => exact ⟨a, rfl, h⟩

theorem of_map_eq_ok {f : α → β} (h : x.map f = .ok b) : ∃ a, x = .ok a ∧ f a = b := by
  cases x with
  | error e => cases h
  | ok a => exact ⟨a, rfl, Except.ok.inj h⟩

theorem of_toOption_eq_some {a : α} (h : x.toOption = some a) : x = .ok a := by
  cases x with
  | error e => cases h
  | ok a' => exact congrArg Except.ok (Option.some.inj h)

theorem foldlM_cons_of_ok {step : β → α → Except ε β} {b' : β} {a : α} (h : step b a = .ok b')
    (as : List α) : (a :: as).foldlM step b = as.foldlM step b' := by
  rw [List.foldlM_cons, h]
  rfl

theorem foldlM_keeps {P : β → Prop} {step : β → α → Except ε β} {as : List α} {b' : β}
    (hstep : ∀ a ∈ as, ∀ b b', P b → step b a = .ok b' → P b') (h : P b)
    (hok : as.foldlM step b = .ok b') : P b' := by
  induction as generalizing b with
  | nil =>
    cases hok
    exact h
  | cons a as ih =>
    rw [List.foldlM_cons] at hok
    obtain ⟨c, hfirst, hrest⟩ := of_bind_eq_ok hok
    exact ih (fun a' ha' => hstep a' (List.mem_cons_of_mem _ ha'))
      (hstep a List.mem_cons_self b c h hfirst) hrest

/-! ## Failures -/

variable {step : β → α → Except ε β} {before as : List α} {a : α} {b' : β} {e : ε}

/-- Several steps fail at the first one that does. -/
theorem foldlM_of_error (hbefore : before.foldlM step b = .ok b') (ha : step b' a = .error e)
    (after : List α) : (before ++ a :: after).foldlM step b = .error e := by
  rw [List.foldlM_append, hbefore]
  show (step b' a >>= fun b => after.foldlM step b) = _
  rw [ha]
  rfl

theorem foldlM_eq_error (h : as.foldlM step b = .error e) : ∃ before a after b',
    as = before ++ a :: after ∧ before.foldlM step b = .ok b' ∧ step b' a = .error e := by
  induction as generalizing b with
  | nil => cases h
  | cons a as ih =>
    cases hfirst : step b a with
    | error e' =>
      rw [List.foldlM_cons, hfirst] at h
      cases h
      exact ⟨[], a, as, b, rfl, rfl, hfirst⟩
    | ok c =>
      rw [foldlM_cons_of_ok hfirst] at h
      obtain ⟨before, a', after, b', rfl, hbefore, ha'⟩ := ih h
      exact ⟨a :: before, a', after, b', rfl, (foldlM_cons_of_ok hfirst before).trans hbefore, ha'⟩

end KernelRegistry
