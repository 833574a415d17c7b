import Mathlib.Data.List.Forall2
import KernelRegistry.Proofs.Settings
import KernelRegistry.Proofs.Settings.Order

/-!
# What the table holds under a variable

Settings reach the table one after the other, those of all parameters mixed.  What is found under a
variable afterwards is told by the settings of its own parameters alone.

* `Stands` — the parameter of a setting, and the value that it stands for.
* `ComesTo` — what the values of one variable come to: the last one that replaces what was before,
  and behind it the values of lists, each after its own separator.
* `present_of_comesTo`, `comesTo_present` — so it is, if each value is combined with what is there.
* `addSetting_get?`, `addDefault_get?` — one step looked at through a variable.
* `get?_of_settings`, `get?_of_defaults` — and all of them.
* `get?_of_values`, `get?_of_no_values`, `mem_keys_of_values` — what the table has under a variable.
* `environment_values` — **what the table of the settings holds**.
-/

set_option autoImplicit false
namespace KernelRegistry
namespace Settings

/-! ## Values -/

/-- A parameter with the value that a setting gives to it. -/
abbrev Value := Parameter × String

/-- The parameter that a setting is for, and the value that it stands for. -/
structure Stands (m : Manifest) (s : Setting) (v : Value) : Prop where
  parameter : m.parameter? s.parameter = some v.1
  resolve : v.1.resolve s.raw = .ok v.2

/-- Only values of lists are appended to those before them. -/
def Value.appends (v : Value) : Bool :=
  match v.1.kind with
  | .list _ => true
  | _ => false

/-- A value behind the separator of its list. -/
def Value.appended (v : Value) : String :=
  match v.1.kind with
  | .list separator => separator.text ++ v.2
  | _ => v.2

/-- The values of one variable come to the last one that is of no list, or to the first one if all
are of lists, with those after it behind their separators.  A value of no list replaces all that was
there, so only what comes after it can be seen. -/
def ComesTo (values : List Value) (text : String) : Prop :=
  ∃ before v after, values = before ++ v :: after ∧ (∀ w ∈ after, w.appends = true) ∧
    (v.appends = true → before = []) ∧ text = v.2 ++ String.join (after.map Value.appended)

/-- The values of a variable, combined one by one with what was there.  `ComesTo` is the same
without the steps. -/
def present (start : Option String) (values : List Value) : Option String :=
  values.foldl (fun text v => some (v.1.combined v.2 text)) start

section Values

variable {v : Value} {values before after : List Value} {text : String}

theorem combined_of_appends (h : v.appends = true) (text : String) :
    v.1.combined v.2 (some text) = text ++ v.appended := by
  rw [Value.appends] at h
  split at h
  · next separator hkind => simp [Parameter.combined, Value.appended, hkind, String.append_assoc]
  · cases h

theorem combined_of_not_appends (h : v.appends = false) (text : Option String) :
    v.1.combined v.2 text = v.2 := by
  rw [Value.appends] at h
  split at h
  · cases h
  · next hkind =>
    rw [Parameter.combined.eq_def]
    split
    · next separator text hlist => exact absurd hlist (hkind separator)
    · rfl

/-- Values of lists are put behind what is there. -/
theorem present_of_appends (h : ∀ w ∈ after, w.appends = true) (text : String) :
    present (some text) after = some (text ++ String.join (after.map Value.appended)) := by
  induction after generalizing text with
  | nil => rw [List.map_nil, String.join_nil, String.append_empty]; rfl
  | cons w after ih =>
    have hw : present (some text) (w :: after) = present (some (text ++ w.appended)) after :=
      congrArg (fun t => present (some t) after)
        (combined_of_appends (h w List.mem_cons_self) text)
    rw [hw, ih fun x hx => h x (List.mem_cons_of_mem _ hx), List.map_cons, String.join_cons,
      String.append_assoc]

/-- The values from the last one on that is of no list, or all of them. -/
theorem exists_parts (values : List Value) (hne : values ≠ []) :
    ∃ before v after, values = before ++ v :: after ∧ (∀ w ∈ after, w.appends = true) ∧
      (v.appends = true → before = []) := by
  induction values with
  | nil => exact absurd rfl hne
  | cons first values ih =>
    by_cases hrest : values = []
    · exact ⟨[], first, [], by rw [hrest]; rfl, fun w hw => absurd hw List.not_mem_nil,
        fun _ => rfl⟩
    · obtain ⟨before, v, after, rfl, hafter, hv⟩ := ih hrest
      by_cases hall : v.appends = true
      · obtain rfl := hv hall
        refine ⟨[], first, v :: after, rfl, fun w hw => ?_, fun _ => rfl⟩
        rcases List.mem_cons.1 hw with rfl | hw
        · exact hall
        · exact hafter w hw
      · exact ⟨first :: before, v, after, rfl, hafter, fun h => absurd h hall⟩

theorem present_of_comesTo (h : ComesTo values text) : present none values = some text := by
  obtain ⟨before, v, after, rfl, hafter, hv, rfl⟩ := h
  have hcombined : v.1.combined v.2 (present none before) = v.2 := by
    cases happends : v.appends with
    | true =>
      rw [hv happends]
      exact combined_none v.1 v.2
    | false => exact combined_of_not_appends happends _
  have hparts : present none (before ++ v :: after) =
      present (some (v.1.combined v.2 (present none before))) after :=
    List.foldl_append
  rw [hparts, hcombined, present_of_appends hafter]

/-- **Values that are combined one by one come to what they should**, if there are any. -/
theorem comesTo_present (hne : values ≠ []) :
    ∃ text, present none values = some text ∧ ComesTo values text := by
  obtain ⟨before, v, after, hparts, hafter, hv⟩ := exists_parts values hne
  have hcomes : ComesTo values (v.2 ++ String.join (after.map Value.appended)) :=
    ⟨before, v, after, hparts, hafter, hv, rfl⟩
  exact ⟨_, present_of_comesTo hcomes, hcomes⟩

end Values

/-! ## One step -/

section Step

variable {m : Manifest} {env env' : Environment} {s : Setting} {p : Parameter} {name : String}

theorem get?_insert (env : Environment) (key value name : String) :
    (env.insert key value).get? name = if key = name then some value else env.get? name :=
  Entries.lookup_insert key name value env.entries

theorem contains_eq_false (env : Environment) (name : String) :
    env.contains name = false ↔ env.get? name = none := by
  rw [Table.contains, Option.isSome_eq_false_iff, Option.isNone_iff_eq_none]

theorem mem_keys_iff (env : Environment) (name : String) :
    name ∈ env.keys ↔ env.get? name ≠ none := by
  rw [Table.get?, Ne, Entries.lookup_eq_none_iff, Decidable.not_not]
  rfl

/-- A setting that reaches the table is for a parameter, which accepts its value. -/
theorem addSetting_eq_ok (h : addSetting m env s = .ok env') :
    ∃ v, Stands m s v ∧ env' = v.1.apply v.2 env := by
  rw [addSetting] at h
  split at h
  · cases h
  · next p hp =>
    split at h
    · next value hresolve => exact ⟨(p, value), ⟨hp, hresolve⟩, (Except.ok.inj h).symm⟩
    · cases h

/-- A value is combined with what is under its variable, and nothing else changes. -/
theorem apply_get? (v : Value) (env : Environment) (name : String) :
    (v.1.apply v.2 env).get? name =
      if v.1.variableName = name then some (v.1.combined v.2 (env.get? name))
      else env.get? name := by
  rw [Parameter.apply, get?_insert]
  split
  · next hname => rw [hname]
  · rfl

/-- A default that reaches the table is accepted. -/
theorem addDefault_eq_ok (h : addDefault env p = .ok env') :
    (p.defaultValue = none ∨ env.get? p.variableName ≠ none) ∧ env' = env ∨
      env.get? p.variableName = none ∧ ∃ raw value, p.defaultValue = some raw ∧
        p.resolve raw = .ok value ∧ env' = env.insert p.variableName value := by
  rw [addDefault] at h
  split at h
  · next hdefault => exact .inl ⟨.inl hdefault, (Except.ok.inj h).symm⟩
  · next raw hdefault =>
    split at h
    · next hthere =>
      refine .inl ⟨.inr fun hnone => ?_, (Except.ok.inj h).symm⟩
      rw [(contains_eq_false env _).2 hnone] at hthere
      cases hthere
    · next habsent =>
      rw [Bool.not_eq_true, contains_eq_false] at habsent
      split at h
      · next value hresolve =>
        exact .inr ⟨habsent, raw, value, hdefault, hresolve, (Except.ok.inj h).symm⟩
      · cases h

end Step

/-! ## All steps -/

section Steps

variable {m : Manifest} {env env' : Environment} {settings : Settings} {parameters : List Parameter}
  {name : String}

/-- **What settings leave under a variable**: the values of its own parameters were combined with
what was there. -/
theorem get?_of_settings (h : settings.foldlM (addSetting m) env = .ok env') :
    ∃ values, List.Forall₂ (Stands m) settings values ∧ ∀ name, env'.get? name =
      present (env.get? name) (values.filter (·.1.variableName = name)) := by
  induction settings generalizing env with
  | nil =>
    cases h
    exact ⟨[], .nil, fun name => rfl⟩
  | cons s settings ih =>
    obtain ⟨next, hadd, hrest⟩ := of_bind_eq_ok h
    obtain ⟨v, hstands, rfl⟩ := addSetting_eq_ok hadd
    obtain ⟨values, hvalues, hget⟩ := ih hrest
    refine ⟨v :: values, .cons hstands hvalues, fun name => ?_⟩
    rw [hget, apply_get?, List.filter_cons]
    split
    · next hname => rw [if_pos (decide_eq_true hname)]; rfl
    · next hname => rw [if_neg (by simpa using hname)]

/-- The default of the first parameter that is for a variable and has one. -/
def FirstDefault (parameters : List Parameter) (name text : String) : Prop :=
  ∃ before p after raw, parameters = before ++ p :: after ∧
    (∀ q ∈ before, q.variableName = name → q.defaultValue = none) ∧ p.variableName = name ∧
    p.defaultValue = some raw ∧ p.resolve raw = .ok text

theorem FirstDefault.cons {text : String} {p : Parameter} (h : FirstDefault parameters name text)
    (hp : p.variableName = name → p.defaultValue = none) :
    FirstDefault (p :: parameters) name text := by
  obtain ⟨before, q, after, raw, rfl, hbefore, hq⟩ := h
  refine ⟨p :: before, q, after, raw, rfl, fun x hx => ?_, hq⟩
  rcases List.mem_cons.1 hx with rfl | hx
  · exact hp
  · exact hbefore x hx

/-- A value is not touched by defaults. -/
theorem get?_kept (h : parameters.foldlM addDefault env = .ok env') {text : String}
    (hget : env.get? name = some text) : env'.get? name = some text := by
  refine foldlM_keeps (P := fun env => env.get? name = some text) ?_ hget h
  intro p _ env next hget hadd
  rcases addDefault_eq_ok hadd with ⟨-, rfl⟩ | ⟨habsent, raw, value, -, -, rfl⟩
  · exact hget
  · have hne : p.variableName ≠ name := by
      rintro rfl
      rw [habsent] at hget
      cases hget
    rw [get?_insert, if_neg hne, hget]

/-- **A variable without a value gets the first default that there is for it.** -/
theorem get?_of_defaults (h : parameters.foldlM addDefault env = .ok env')
    (hget : env.get? name = none) :
    (∃ text, env'.get? name = some text ∧ FirstDefault parameters name text) ∨
      env'.get? name = none ∧ ∀ p ∈ parameters, p.variableName = name → p.defaultValue = none := by
  induction parameters generalizing env with
  | nil =>
    cases h
    exact .inr ⟨hget, fun p hp => absurd hp List.not_mem_nil⟩
  | cons p parameters ih =>
    obtain ⟨next, hadd, hrest⟩ := of_bind_eq_ok h
    have hpassed : next.get? name = none → (p.variableName = name → p.defaultValue = none) →
        (∃ text, env'.get? name = some text ∧ FirstDefault (p :: parameters) name text) ∨
          env'.get? name = none ∧
            ∀ q ∈ p :: parameters, q.variableName = name → q.defaultValue = none := by
      intro hnext hp
      rcases ih hrest hnext with ⟨text, htext, hfirst⟩ | ⟨hnone, hall⟩
      · exact .inl ⟨text, htext, hfirst.cons hp⟩
      · exact .inr ⟨hnone, List.forall_mem_cons.2 ⟨hp, hall⟩⟩
    rcases addDefault_eq_ok hadd with ⟨hp, rfl⟩ | ⟨habsent, raw, value, hdefault, hresolve, rfl⟩
    · refine hpassed hget fun hname => hp.resolve_right fun hthere => hthere ?_
      rw [hname, hget]
    · by_cases hname : p.variableName = name
      · refine .inl ⟨value, get?_kept hrest ?_, [], p, parameters, raw, rfl, ?_, hname, hdefault,
          hresolve⟩
        · rw [get?_insert, if_pos hname]
        · exact fun q hq => absurd hq List.not_mem_nil
      · refine hpassed ?_ fun h => absurd h hname
        rw [get?_insert, if_neg hname, hget]

/-- Defaults reach a variable in the same way wherever the same is found under it before. -/
theorem get?_of_defaults_congr {other other' : Environment}
    (h : parameters.foldlM addDefault env = .ok env')
    (h' : parameters.foldlM addDefault other = .ok other')
    (hget : env.get? name = other.get? name) : env'.get? name = other'.get? name := by
  induction parameters generalizing env other with
  | nil =>
    cases h
    cases h'
    exact hget
  | cons p parameters ih =>
    obtain ⟨next, hadd, hrest⟩ := of_bind_eq_ok h
    obtain ⟨next', hadd', hrest'⟩ := of_bind_eq_ok h'
    refine ih hrest hrest' ?_
    rcases addDefault_eq_ok hadd with ⟨hp, rfl⟩ | ⟨habsent, raw, value, hraw, hresolve, rfl⟩
    · rcases addDefault_eq_ok hadd' with ⟨-, rfl⟩ | ⟨habsent', raw', value', hraw', -, rfl⟩
      · exact hget
      · have hne : p.variableName ≠ name := by
          rintro rfl
          refine hp.elim (fun hnone => ?_) fun hthere => hthere (hget.trans habsent')
          rw [hnone] at hraw'
          cases hraw'
        rw [get?_insert, if_neg hne, hget]
    · rcases addDefault_eq_ok hadd' with ⟨hp', rfl⟩ | ⟨-, raw', value', hraw', hresolve', rfl⟩
      · have hne : p.variableName ≠ name := by
          rintro rfl
          refine hp'.elim (fun hnone => ?_) fun hthere => hthere (hget.symm.trans habsent)
          rw [hnone] at hraw
          cases hraw
        rw [get?_insert, if_neg hne, hget]
      · obtain rfl := Option.some.inj (hraw.symm.trans hraw')
        obtain rfl := Except.ok.inj (hresolve.symm.trans hresolve')
        rw [get?_insert, get?_insert, hget]

end Steps

/-! ## The table -/

section Table

variable {m : Manifest} {env env' : Environment} {settings settings' : Settings}
  {values values' : List Value}

theorem Stands.unique {s : Setting} {v w : Value} (hv : Stands m s v) (hw : Stands m s w) :
    v = w := by
  obtain ⟨p, value⟩ := v
  obtain ⟨q, other⟩ := w
  obtain rfl := Option.some.inj (hv.parameter.symm.trans hw.parameter)
  obtain rfl := Except.ok.inj (hv.resolve.symm.trans hw.resolve)
  rfl

/-- The values that given settings stand for. -/
theorem values_unique (h : List.Forall₂ (Stands m) settings values)
    (h' : List.Forall₂ (Stands m) settings values') : values = values' := by
  induction h generalizing values' with
  | nil =>
    cases h'
    rfl
  | cons hv _ ih =>
    cases h' with
    | cons hw hrest => rw [hv.unique hw, ih hrest]

/-- The values of one variable. -/
def valuesOf (name : String) (values : List Value) : List Value :=
  values.filter (·.1.variableName = name)

theorem valuesOf_ne_nil_iff {name : String} :
    valuesOf name values ≠ [] ↔ ∃ v ∈ values, v.1.variableName = name := by
  rw [valuesOf, Ne, List.filter_eq_nil_iff]
  simp

/-- **The same values of a variable make the same entry**, whatever the other settings are. -/
theorem get?_congr {name : String} (h : settings.environment m = .ok env)
    (h' : settings'.environment m = .ok env')
    (hvalues : List.Forall₂ (Stands m) settings.ordered values)
    (hvalues' : List.Forall₂ (Stands m) settings'.ordered values')
    (hsame : valuesOf name values = valuesOf name values') : env.get? name = env'.get? name := by
  obtain ⟨set, hset, hdefaults⟩ := of_bind_eq_ok h
  obtain ⟨set', hset', hdefaults'⟩ := of_bind_eq_ok h'
  obtain ⟨given, hgiven, hget⟩ := get?_of_settings hset
  obtain ⟨given', hgiven', hget'⟩ := get?_of_settings hset'
  obtain rfl := values_unique hvalues hgiven
  obtain rfl := values_unique hvalues' hgiven'
  refine get?_of_defaults_congr hdefaults hdefaults' ?_
  rw [hget, hget']
  exact congrArg _ hsame

/-- A variable that was set holds what its values come to.  Defaults come later, and they leave it
alone. -/
theorem get?_of_values {name : String} (h : settings.environment m = .ok env)
    (hvalues : List.Forall₂ (Stands m) settings.ordered values)
    (hne : valuesOf name values ≠ []) :
    ∃ text, env.get? name = some text ∧ ComesTo (valuesOf name values) text := by
  obtain ⟨set, hset, hdefaults⟩ := of_bind_eq_ok h
  obtain ⟨given, hgiven, hget⟩ := get?_of_settings hset
  obtain rfl := values_unique hvalues hgiven
  obtain ⟨text, htext, hcomes⟩ := comesTo_present hne
  exact ⟨text, get?_kept hdefaults ((hget name).trans htext), hcomes⟩

/-- A variable that was not set gets its first default, if there is one. -/
theorem get?_of_no_values {name : String} (h : settings.environment m = .ok env)
    (hvalues : List.Forall₂ (Stands m) settings.ordered values)
    (hnil : valuesOf name values = []) :
    (∃ text, env.get? name = some text ∧ FirstDefault m.parameters name text) ∨
      env.get? name = none ∧
        ∀ p ∈ m.parameters, p.variableName = name → p.defaultValue = none := by
  obtain ⟨set, hset, hdefaults⟩ := of_bind_eq_ok h
  obtain ⟨given, hgiven, hget⟩ := get?_of_settings hset
  obtain rfl := values_unique hvalues hgiven
  refine get?_of_defaults hdefaults ((hget name).trans ?_)
  rw [← valuesOf, hnil]
  rfl

/-- The table has the variables that were set and those that have a default. -/
theorem mem_keys_of_values (h : settings.environment m = .ok env)
    (hvalues : List.Forall₂ (Stands m) settings.ordered values) (name : String) :
    name ∈ env.keys ↔ (∃ v ∈ values, v.1.variableName = name) ∨
      ∃ p ∈ m.parameters, p.variableName = name ∧ p.defaultValue ≠ none := by
  rw [mem_keys_iff, ← valuesOf_ne_nil_iff]
  by_cases hnil : valuesOf name values = []
  · rcases get?_of_no_values h hvalues hnil with
      ⟨text, htext, before, p, after, raw, hlist, -, hname, hraw, -⟩ | ⟨hnone, hall⟩
    · refine iff_of_true ?_ (.inr ⟨p, ?_, hname, ?_⟩)
      · rw [htext]
        exact Option.some_ne_none text
      · rw [hlist]
        exact List.mem_append_right _ List.mem_cons_self
      · rw [hraw]
        exact Option.some_ne_none raw
    · refine iff_of_false (fun hthere => hthere hnone) ?_
      rintro (hne | ⟨p, hp, hname, hsome⟩)
      · exact hne hnil
      · exact hsome (hall p hp hname)
  · obtain ⟨text, htext, -⟩ := get?_of_values h hvalues hnil
    refine iff_of_true ?_ (.inl hnil)
    rw [htext]
    exact Option.some_ne_none text

/-- **What the table of the settings holds.**  Every setting is for a parameter and stands for a
value of it.  The table has the variables of these parameters and of those that have a default.  A
variable that was set holds what its values come to, in the order of their positions; any other one
the first default that there is for it.  The settings of other variables do not matter. -/
theorem environment_values (h : settings.environment m = .ok env) :
    InOrder settings settings.ordered ∧
      ∃ values, List.Forall₂ (Stands m) settings.ordered values ∧
        (∀ name, name ∈ env.keys ↔ (∃ v ∈ values, v.1.variableName = name) ∨
          ∃ p ∈ m.parameters, p.variableName = name ∧ p.defaultValue ≠ none) ∧
        (∀ name, valuesOf name values ≠ [] →
          ∃ text, env.get? name = some text ∧ ComesTo (valuesOf name values) text) ∧
        (∀ name, valuesOf name values = [] → name ∈ env.keys →
          ∃ text, env.get? name = some text ∧ FirstDefault m.parameters name text) ∧
        ∀ settings' env' values' name, Settings.environment settings' m = .ok env' →
          List.Forall₂ (Stands m) (Settings.ordered settings') values' →
          valuesOf name values' = valuesOf name values → env'.get? name = env.get? name := by
  obtain ⟨set, hset, -⟩ := of_bind_eq_ok h
  obtain ⟨values, hvalues, -⟩ := get?_of_settings hset
  refine ⟨inOrder_ordered settings, values, hvalues, mem_keys_of_values h hvalues,
    fun name => get?_of_values h hvalues, fun name hnil hkey => ?_,
    fun settings' env' values' name h' hvalues' => get?_congr h' h hvalues' hvalues⟩
  rcases get?_of_no_values h hvalues hnil with hfirst | ⟨hnone, -⟩
  · exact hfirst
  · exact absurd hnone ((mem_keys_iff env name).1 hkey)

end Table

namespace Sample

/-- A list of paths and one of files for the same variable, and a parameter that replaces both. -/
def folders : Parameter where
  name := "folders"
  variableName := "DEMO"
  kind := .list .path

@[inherit_doc folders]
def files : Parameter where
  name := "files"
  variableName := "DEMO"
  kind := .list (.literal ",")
  defaultValue := some "none"

@[inherit_doc folders]
def only : Parameter where
  name := "only"
  variableName := "DEMO"
  kind := .string

/-- A parameter with a variable of its own. -/
def speed : Parameter where
  name := "speed"
  variableName := "SPEED"
  kind := .number
  aliases := ⟨[("fast", "9.5")], List.pairwise_singleton _ _⟩
  defaultValue := some "fast"

/-- A manifest with all of them. -/
def mixed : Manifest where
  kernelName := "demo"
  parameters := [folders, files, only, speed]

/-- Settings that were collected parameter by parameter. -/
def mixedSettings : Settings := [
  ⟨1, "folders", "lost"⟩, ⟨5, "folders", "/a"⟩, ⟨7, "files", "b"⟩, ⟨7, "files", "c"⟩,
  ⟨3, "only", "x"⟩
  ]

/-- Their values, by position. -/
def mixedValues : List Value :=
  [(folders, "lost"), (only, "x"), (folders, "/a"), (files, "b"), (files, "c")]

/-- The table that they make. -/
def mixedTable : Environment :=
  ⟨[("DEMO", "x:/a,b,c"), ("SPEED", "9.5")], List.pairwise_pair.2 (by decide)⟩

theorem ordered_mixedSettings : mixedSettings.ordered = [
    ⟨1, "folders", "lost"⟩, ⟨3, "only", "x"⟩, ⟨5, "folders", "/a"⟩, ⟨7, "files", "b"⟩,
    ⟨7, "files", "c"⟩ ] := by
  decide

theorem stands_mixedValues : List.Forall₂ (Stands mixed) mixedSettings.ordered mixedValues := by
  rw [ordered_mixedSettings]
  exact .cons ⟨rfl, rfl⟩ (.cons ⟨rfl, rfl⟩ (.cons ⟨rfl, rfl⟩ (.cons ⟨rfl, rfl⟩
    (.cons ⟨rfl, rfl⟩ .nil))))

theorem environment_mixed : mixedSettings.environment mixed = .ok mixedTable := by
  rw [environment, ordered_mixedSettings]
  decide +kernel

end Sample

open Settings.Sample

/-- A value that replaces loses what was set before it, and the rest is behind it. -/
theorem environment_values_mixed : mixedSettings.environment mixed = .ok mixedTable ∧
    mixedTable.get? "DEMO" = some "x:/a,b,c" ∧ ComesTo (valuesOf "DEMO" mixedValues) "x:/a,b,c" ∧
    FirstDefault mixed.parameters "SPEED" "9.5" := by
  obtain ⟨-, values, hvalues, -, hgiven, hdefault, -⟩ := environment_values environment_mixed
  obtain rfl := values_unique stands_mixedValues hvalues
  obtain ⟨text, htext, hcomes⟩ := hgiven "DEMO" (by decide)
  obtain ⟨text', htext', hfirst⟩ := hdefault "SPEED" (by decide) (by decide)
  obtain rfl : "x:/a,b,c" = text := Option.some.inj htext
  obtain rfl : "9.5" = text' := Option.some.inj htext'
  exact ⟨environment_mixed, htext, hcomes, hfirst⟩

end Settings
end KernelRegistry
