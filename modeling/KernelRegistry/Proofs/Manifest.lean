import KernelRegistry.Manifest.Basic
import KernelRegistry.Proofs.Except

/-!
# Accepted manifests

A manifest is checked as soon as it is read, so everything after that can rely on what the check
ensures.  It is collected here, in the form in which it is used.

* `Parameter.Accepted` — what the check of a declaration ensures.
* `Manifest.accepted` — **in an accepted manifest every declaration is accepted and no two share a
  name**.
* `Manifest.parameter?_name` — so a parameter is found by its name.
-/

set_option autoImplicit false
namespace KernelRegistry

namespace Parameter

variable {p : Parameter} {raw value : String} {condition : Bool} {refusal : Refusal}

/-- A value that is acceptable stands for what the aliases say. -/
theorem resolve_eq_ok (h : p.resolve raw = .ok value) : value = p.expand raw := by
  obtain ⟨u, -, rfl⟩ := of_map_eq_ok h
  rfl

theorem refuseIf_eq_ok (h : refuseIf condition refusal = .ok ()) : condition = false := by
  rw [refuseIf] at h
  split at h
  · cases h
  · next hfalse => exact Bool.not_eq_true _ ▸ hfalse

/-- The facts about a declaration that the check ensures, for all that comes after the check. -/
structure Accepted (p : Parameter) : Prop where
  isVariableName : isVariableName p.variableName = true
  isOptionName : isOptionName p.name = true
  notReserved : p.name ∉ reservedNames
  hasValues : p.kind ≠ .oneOf []
  /-- The default passes the check of values. -/
  resolve_default : ∀ raw, p.defaultValue = some raw → p.resolve raw = .ok (p.expand raw)

theorem accepted_of_check (h : p.check = .ok ()) : p.Accepted := by
  obtain ⟨u, hvariable, h⟩ := of_bind_eq_ok h
  obtain ⟨u, hname, h⟩ := of_bind_eq_ok h
  obtain ⟨u, hreserved, h⟩ := of_bind_eq_ok h
  obtain ⟨u, hvalues, h⟩ := of_bind_eq_ok h
  refine ⟨by simpa using refuseIf_eq_ok hvariable, by simpa using refuseIf_eq_ok hname,
    by simpa using refuseIf_eq_ok hreserved, by simpa using refuseIf_eq_ok hvalues, ?_⟩
  intro raw hraw
  rw [hraw] at h
  obtain ⟨value, hresolve, -⟩ := of_map_eq_ok h
  rw [resolve_eq_ok hresolve] at hresolve
  exact hresolve

end Parameter

namespace Manifest

variable {m : Manifest} {p : Parameter} {before : List String} {parameters : List Parameter}

theorem checkParameters_eq_ok (h : checkParameters before parameters = .ok ()) :
    (∀ p ∈ parameters, p.Accepted ∧ p.name ∉ before) ∧ (parameters.map Parameter.name).Nodup := by
  induction parameters generalizing before with
  | nil => exact ⟨fun p hp => (List.not_mem_nil hp).elim, List.nodup_nil⟩
  | cons p ps ih =>
    rw [checkParameters] at h
    split at h
    · cases h
    · next hcheck =>
      split at h
      · cases h
      · next hbefore =>
        obtain ⟨hall, hnodup⟩ := ih h
        refine ⟨fun q hq => ?_, List.nodup_cons.2 ⟨fun hmem => ?_, hnodup⟩⟩
        · rcases List.mem_cons.1 hq with rfl | hq
          · exact ⟨Parameter.accepted_of_check hcheck, by simpa using hbefore⟩
          · obtain ⟨haccepted, hnot⟩ := hall q hq
            exact ⟨haccepted, fun hmem => hnot (List.mem_cons_of_mem _ hmem)⟩
        · obtain ⟨q, hq, hname⟩ := List.mem_map.1 hmem
          exact (hall q hq).2 (hname ▸ List.mem_cons_self)

/-- **In an accepted manifest** every declaration is accepted and no two share a name. -/
theorem accepted (h : m.check = .ok ()) :
    (∀ p ∈ m.parameters, p.Accepted) ∧ (m.parameters.map Parameter.name).Nodup := by
  rw [check] at h
  split at h
  · obtain ⟨hall, hnodup⟩ := checkParameters_eq_ok h
    exact ⟨fun p hp => (hall p hp).1, hnodup⟩
  · cases h

theorem find?_name (hnodup : (parameters.map Parameter.name).Nodup) (hp : p ∈ parameters) :
    parameters.find? (·.name = p.name) = some p := by
  induction parameters with
  | nil => cases hp
  | cons q qs ih =>
    obtain ⟨hq, hqs⟩ := List.nodup_cons.1 hnodup
    rcases List.mem_cons.1 hp with rfl | hp
    · exact List.find?_cons_of_pos (by simp)
    · have hne : q.name ≠ p.name := fun heq => hq (heq ▸ List.mem_map_of_mem hp)
      rw [List.find?_cons_of_neg (by simpa using hne), ih hqs hp]

/-- A parameter is found by its name. -/
theorem parameter?_name (h : m.check = .ok ()) (hp : p ∈ m.parameters) :
    m.parameter? p.name = some p :=
  find?_name (accepted h).2 hp

end Manifest
end KernelRegistry
