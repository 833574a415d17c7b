import KernelRegistry.Proofs.Except
import KernelRegistry.Proofs.Manifest
import KernelRegistry.Proofs.Table
import KernelRegistry.Settings

/-!
# The table of the settings

A value comes into the table as a setting or as a default, and a later one for the same variable
gives way to it or is put in front.  Whichever way it came, the parameters of its variable say what
it can be.

* `Declared` — what the parameters of a variable say of its value.
* `declared_combined` — an accepted value is declared, also after it was put behind another one.
* `addSetting_declares`, `addDefault_declares` — one step keeps that everything is declared.
* `environment_declares` — **everything in the table of the settings is declared**.
-/

set_option autoImplicit false
namespace KernelRegistry
namespace Settings

/-- A variable that some parameter sets.  If all its parameters are of one of the kinds that limit
their values, its value is within the limits. -/
structure Declared (m : Manifest) (name value : String) : Prop where
  parameter : ∃ p ∈ m.parameters, p.variableName = name
  choice : (∀ p ∈ m.parameters, p.variableName = name → ∃ values, p.kind = .oneOf values) →
    ∃ p ∈ m.parameters, p.variableName = name ∧ ∃ values, p.kind = .oneOf values ∧ value ∈ values
  numeral : (∀ p ∈ m.parameters, p.variableName = name → p.kind = .number) →
    Decimal.isNumeral (Text.trim value) = true

/-- Everything in a table is declared. -/
def Declares (m : Manifest) (env : Environment) : Prop :=
  ∀ name value, env.get? name = some value → Declared m name value

section Declares

variable {m : Manifest} {p : Parameter} {env env' : Environment} {raw value name : String}

theorem combined_of_oneOf {values : List String} (h : p.kind = .oneOf values) (value : String)
    (present : Option String) : p.combined value present = value := by
  simp [Parameter.combined, h]

theorem combined_of_number (h : p.kind = .number) (value : String) (present : Option String) :
    p.combined value present = value := by
  simp [Parameter.combined, h]

theorem combined_none (p : Parameter) (value : String) : p.combined value none = value := by
  cases hkind : p.kind <;> simp [Parameter.combined, hkind]

theorem mem_of_accept {values : List String} (h : Parameter.accept (.oneOf values) value = .ok ()) :
    value ∈ values := by
  rw [Parameter.accept] at h
  by_cases hmem : values.contains value = true
  · exact List.contains_iff_mem.1 hmem
  · rw [if_neg hmem] at h
    cases h

theorem isNumeral_of_accept (h : Parameter.accept .number value = .ok ()) :
    Decimal.isNumeral (Text.trim value) = true := by
  rw [Parameter.accept] at h
  by_cases hnumeral : Decimal.isNumeral (Text.trim value) = true
  · exact hnumeral
  · rw [if_neg hnumeral] at h
    cases h

/-- **An accepted value is declared**, also after it was combined with the value before. -/
theorem declared_combined (hp : p ∈ m.parameters) (hresolve : p.resolve raw = .ok value)
    (present : Option String) : Declared m p.variableName (p.combined value present) := by
  obtain ⟨_, haccept, rfl⟩ := of_map_eq_ok hresolve
  refine ⟨⟨p, hp, rfl⟩, fun hchoice => ?_, fun hnumber => ?_⟩
  · obtain ⟨values, hkind⟩ := hchoice p hp rfl
    rw [hkind] at haccept
    rw [combined_of_oneOf hkind]
    exact ⟨p, hp, rfl, values, hkind, mem_of_accept haccept⟩
  · have hkind := hnumber p hp rfl
    rw [hkind] at haccept
    rw [combined_of_number hkind]
    exact isNumeral_of_accept haccept

theorem declares_empty : Declares m .empty := fun _ _ h => nomatch h

theorem Declares.insert (h : Declares m env) (hvalue : Declared m name value) :
    Declares m (env.insert name value) := by
  intro name' value' hget
  rw [Table.get?, Table.insert, Entries.lookup_insert] at hget
  split at hget
  · next hname =>
    cases hget
    exact hname ▸ hvalue
  · exact h name' value' hget

/-- A setting for a parameter puts in what is declared. -/
theorem addSetting_declares {s : Setting} (h : Declares m env)
    (hadd : addSetting m env s = .ok env') : Declares m env' := by
  rw [addSetting] at hadd
  split at hadd
  · cases hadd
  · next p hp =>
    split at hadd
    · next value hresolve =>
      cases hadd
      exact h.insert (declared_combined (List.mem_of_find?_eq_some hp) hresolve _)
    · cases hadd

/-- So does the default of a parameter. -/
theorem addDefault_declares (hp : p ∈ m.parameters) (h : Declares m env)
    (hadd : addDefault env p = .ok env') : Declares m env' := by
  rw [addDefault] at hadd
  split at hadd
  · cases hadd
    exact h
  · next raw hraw =>
    split at hadd
    · cases hadd
      exact h
    · split at hadd
      · next value hresolve =>
        cases hadd
        have hdeclared := declared_combined hp hresolve none
        rw [combined_none] at hdeclared
        exact h.insert hdeclared
      · cases hadd

/-- **Everything in the table of the settings is declared**, whether it was set or is a default. -/
theorem environment_declares {settings : Settings} (h : settings.environment m = .ok env) :
    Declares m env := by
  obtain ⟨env', hset, hdefaults⟩ := of_bind_eq_ok h
  refine foldlM_keeps (fun p hp _ _ => addDefault_declares hp) ?_ hdefaults
  exact foldlM_keeps (fun _ _ _ _ => addSetting_declares) declares_empty hset

end Declares

end Settings
end KernelRegistry
