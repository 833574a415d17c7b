import Mathlib.Data.Nat.Find
import KernelRegistry.Proofs.CommandLine.Settings
import KernelRegistry.Proofs.Settings.Values

/-!
# Settings in the order of their positions

Settings are collected in passes, and only their positions tell in which order they count.  If these
are different from each other, the order of the collection is of no account: neither for the table
nor for which of several errors is reported.

* `Refused` — why a setting is refused; what is in the table does not matter.
* `Provides` — the table of the settings alone.
* `DefaultRefused` — the default of a parameter is refused where it is wanted.
* `InOrder.strict`, `ordered_perm` — settings at different positions are put in one order.
* `foldlM_settings`, `foldlM_defaults` — all settings are put into the table, or all defaults,
  unless one is refused.
* `exists_error_iff` — there is an error if and only if one of them is refused.
* `environment_of_positions` — **the table does not depend on the order of the collection, nor does
  the error**: the refused setting at the first position, or else the first refused default.
-/

set_option autoImplicit false
namespace KernelRegistry
namespace Settings

open CommandLine (withDefault)

/-- Why a setting is refused: there is no such parameter, or the parameter does not accept the
value. -/
inductive Refused (m : Manifest) (s : Setting) : Defect → Prop
  | unknown (h : m.parameter? s.parameter = none) : Refused m s (.parameter s.parameter .unknown)
  | value {p : Parameter} {refusal : Refusal} (hp : m.parameter? s.parameter = some p)
      (h : p.resolve s.raw = .error refusal) : Refused m s (.parameter p.name refusal)

/-- The table of the settings alone: each of them stands for a value, and under a variable there is
what its values come to by position. -/
def Provides (m : Manifest) (settings : Settings) (env : Environment) : Prop :=
  ∃ sorted values, InOrder settings sorted ∧ List.Forall₂ (Stands m) sorted values ∧
    ∀ name, (valuesOf name values = [] → env.get? name = none) ∧
      (valuesOf name values ≠ [] →
        ∃ text, env.get? name = some text ∧ ComesTo (valuesOf name values) text)

/-- The default of the parameter at an index is refused, and its variable is not in the table after
the defaults of the parameters before it. -/
structure DefaultRefused (m : Manifest) (env : Environment) (index : Nat) (p : Parameter)
    (refusal : Refusal) : Prop where
  declared : m.parameters[index]? = some p
  absent : ((m.parameters.take index).foldl withDefault env).get? p.variableName = none
  refused : ∃ raw, p.defaultValue = some raw ∧ p.resolve raw = .error refusal

/-! ## Positions -/

section Positions

variable {settings settings' sorted : Settings}

/-- Different positions that are in order increase. -/
theorem InOrder.strict (h : InOrder settings sorted)
    (hdistinct : settings.Pairwise fun s t => s.position ≠ t.position) :
    sorted.Pairwise fun s t => s.position < t.position := by
  have hdistinct : sorted.Pairwise fun s t => s.position ≠ t.position :=
    h.perm.symm.pairwise hdistinct fun hne => hne.symm
  exact (hdistinct.and h.increasing).imp fun hst => Nat.lt_of_le_of_ne hst.2 hst.1

/-- There is one order of settings at different positions, and they are put in this order. -/
theorem InOrder.ordered_eq (h : InOrder settings sorted)
    (hdistinct : settings.Pairwise fun s t => s.position ≠ t.position) :
    settings.ordered = sorted :=
  CommandLine.ordered_eq h.perm.symm (h.strict hdistinct)

/-- **Settings at different positions are put in one order**, whichever they were collected in. -/
theorem ordered_perm (hdistinct : settings.Pairwise fun s t => s.position ≠ t.position)
    (hperm : settings'.Perm settings) : settings'.ordered = settings.ordered :=
  CommandLine.ordered_eq (hperm.trans (inOrder_ordered settings).perm.symm)
    ((inOrder_ordered settings).strict hdistinct)

end Positions

/-! ## Settings -/

section Given

variable {m : Manifest} {settings : Settings} {s : Setting} {v : Value} {defect : Defect}
  {env env' : Environment}

theorem stands_or_refused (m : Manifest) (s : Setting) :
    (∃ v, Stands m s v) ∨ ∃ defect, Refused m s defect := by
  cases hp : m.parameter? s.parameter with
  | none => exact .inr ⟨_, .unknown hp⟩
  | some p =>
    cases hresolve : p.resolve s.raw with
    | ok value => exact .inl ⟨(p, value), hp, hresolve⟩
    | error refusal => exact .inr ⟨_, .value hp hresolve⟩

theorem addSetting_of_stands (h : Stands m s v) (env : Environment) :
    addSetting m env s = .ok (v.1.apply v.2 env) := by
  simp only [addSetting, h.parameter, h.resolve]

/-- A refused setting is refused whatever is in the table. -/
theorem addSetting_of_refused (h : Refused m s defect) (env : Environment) :
    addSetting m env s = .error defect := by
  cases h with
  | unknown h => simp only [addSetting, h]
  | value hp h => simp only [addSetting, hp, h]

/-- **Settings are put into the table** if each of them stands for a value, and only then. -/
theorem foldlM_settings : settings.foldlM (addSetting m) env = .ok env' ↔
    ∃ values, List.Forall₂ (Stands m) settings values ∧
      env' = values.foldl (fun env v => v.1.apply v.2 env) env := by
  induction settings generalizing env with
  | nil =>
    constructor
    · intro h
      exact ⟨[], .nil, (Except.ok.inj h).symm⟩
    · rintro ⟨values, hvalues, rfl⟩
      cases hvalues
      rfl
  | cons s settings ih =>
    constructor
    · intro h
      obtain ⟨next, hadd, hrest⟩ := of_bind_eq_ok h
      obtain ⟨v, hstands, rfl⟩ := addSetting_eq_ok hadd
      obtain ⟨values, hvalues, rfl⟩ := ih.1 hrest
      exact ⟨v :: values, .cons hstands hvalues, rfl⟩
    · rintro ⟨values, hvalues, rfl⟩
      cases hvalues with
      | cons hstands hvalues =>
        rw [foldlM_cons_of_ok (addSetting_of_stands hstands env)]
        exact ih.2 ⟨_, hvalues, rfl⟩

/-- Combining the values of a variable one by one, and looking at all of them at once, are the
same. -/
theorem get?_eq_present_iff {values : List Value} {name : String} :
    env.get? name = present none (valuesOf name values) ↔
      (valuesOf name values = [] → env.get? name = none) ∧
        (valuesOf name values ≠ [] →
          ∃ text, env.get? name = some text ∧ ComesTo (valuesOf name values) text) := by
  by_cases hnil : valuesOf name values = []
  · rw [hnil]
    simp [present]
  · constructor
    · intro hget
      obtain ⟨text, htext, hcomes⟩ := comesTo_present hnil
      exact ⟨fun h => absurd h hnil, fun _ => ⟨text, hget.trans htext, hcomes⟩⟩
    · rintro ⟨-, hsome⟩
      obtain ⟨text, htext, hcomes⟩ := hsome hnil
      rw [htext, present_of_comesTo hcomes]

/-- **The settings provide the table that they are put into**, one after the other by position. -/
theorem provides_iff (hdistinct : settings.Pairwise fun s t => s.position ≠ t.position) :
    Provides m settings env ↔ settings.ordered.foldlM (addSetting m) .empty = .ok env := by
  constructor
  · rintro ⟨sorted, values, hsorted, hvalues, hget⟩
    have hset : sorted.foldlM (addSetting m) .empty =
        .ok (values.foldl (fun env v => v.1.apply v.2 env) .empty) :=
      foldlM_settings.2 ⟨values, hvalues, rfl⟩
    obtain ⟨values', hvalues', hput⟩ := get?_of_settings hset
    obtain rfl := values_unique hvalues hvalues'
    have hsame : values.foldl (fun env v => v.1.apply v.2 env) Table.empty = env :=
      Table.ext <| Entries.eq_of_lookup (Table.sorted _) env.sorted fun name =>
        (hput name).trans (get?_eq_present_iff.2 (hget name)).symm
    rw [hsorted.ordered_eq hdistinct, hset, hsame]
  · intro hset
    obtain ⟨values, hvalues, hput⟩ := get?_of_settings hset
    exact ⟨_, values, inOrder_ordered settings, hvalues, fun name =>
      get?_eq_present_iff.1 (hput name)⟩

/-- Settings none of which is refused provide a table. -/
theorem exists_provided (settings : Settings)
    (h : ∀ s ∈ settings, ∀ defect, ¬ Refused m s defect) (env : Environment) :
    ∃ env', settings.foldlM (addSetting m) env = .ok env' := by
  induction settings generalizing env with
  | nil => exact ⟨env, rfl⟩
  | cons s settings ih =>
    obtain ⟨v, hv⟩ := (stands_or_refused m s).resolve_right fun ⟨defect, hrefused⟩ =>
      h s List.mem_cons_self defect hrefused
    rw [foldlM_cons_of_ok (addSetting_of_stands hv env)]
    exact ih (fun t ht => h t (List.mem_cons_of_mem _ ht)) _

/-- None of the settings that are put into the table is refused. -/
theorem not_refused (h : settings.foldlM (addSetting m) env = .ok env') :
    ∀ s ∈ settings, ∀ defect, ¬ Refused m s defect := by
  induction settings generalizing env with
  | nil => exact fun s hs => (List.not_mem_nil hs).elim
  | cons s settings ih =>
    obtain ⟨next, hadd, hrest⟩ := of_bind_eq_ok h
    refine List.forall_mem_cons.2 ⟨fun defect hrefused => ?_, ih hrest⟩
    cases (addSetting_of_refused hrefused env).symm.trans hadd

/-- **The first refused setting is reported.** -/
theorem foldlM_settings_of_refused (hs : s ∈ settings) (hrefused : Refused m s defect)
    (hsorted : settings.Pairwise fun s t => s.position < t.position)
    (hfirst : ∀ t ∈ settings, t.position < s.position → ∀ d, ¬ Refused m t d) (env : Environment) :
    settings.foldlM (addSetting m) env = .error defect := by
  obtain ⟨before, after, rfl⟩ := List.append_of_mem hs
  have hbefore : ∀ t ∈ before, ∀ d, ¬ Refused m t d := fun t ht =>
    hfirst t (List.mem_append_left _ ht)
      ((List.pairwise_append.1 hsorted).2.2 t ht s List.mem_cons_self)
  obtain ⟨env', henv'⟩ := exists_provided before hbefore env
  exact foldlM_of_error henv' (addSetting_of_refused hrefused env') after

theorem exists_refused (h : settings.foldlM (addSetting m) env = .error defect) :
    ∃ s ∈ settings, Refused m s defect := by
  obtain ⟨before, s, after, b, rfl, -, herror⟩ := foldlM_eq_error h
  refine ⟨s, List.mem_append_right _ List.mem_cons_self, ?_⟩
  rcases stands_or_refused m s with ⟨v, hv⟩ | ⟨d, hd⟩
  · cases (addSetting_of_stands hv b).symm.trans herror
  · cases (addSetting_of_refused hd b).symm.trans herror
    exact hd

end Given

/-! ## Defaults -/

section Defaults

variable {m : Manifest} {env env' : Environment} {p : Parameter} {parameters : List Parameter}
  {index : Nat} {refusal : Refusal} {defect : Defect}

/-- A default that is put into the table is the one that is asked for. -/
theorem addDefault_eq_withDefault (h : addDefault env p = .ok env') : env' = withDefault env p := by
  rw [withDefault]
  rcases addDefault_eq_ok h with ⟨hp, rfl⟩ | ⟨habsent, raw, value, hdefault, hresolve, rfl⟩
  · cases hdefault : p.defaultValue with
    | none => rfl
    | some raw =>
      have hthere : env'.contains p.variableName = true := by
        rw [← Bool.not_eq_false, contains_eq_false]
        exact hp.resolve_left (by rw [hdefault]; exact Option.some_ne_none raw)
      simp only [hthere, if_true]
  · rw [hdefault]
    simp only [(contains_eq_false env _).2 habsent, Parameter.resolve_eq_ok hresolve]
    rfl

theorem foldlM_defaults (h : parameters.foldlM addDefault env = .ok env') :
    env' = parameters.foldl withDefault env := by
  induction parameters generalizing env with
  | nil => exact (Except.ok.inj h).symm
  | cons p parameters ih =>
    obtain ⟨next, hadd, hrest⟩ := of_bind_eq_ok h
    rw [List.foldl_cons, ← addDefault_eq_withDefault hadd]
    exact ih hrest

/-- A default that is not put into the table is refused where it is wanted. -/
theorem addDefault_eq_error_iff : addDefault env p = .error defect ↔
    env.get? p.variableName = none ∧ ∃ raw refusal, p.defaultValue = some raw ∧
      p.resolve raw = .error refusal ∧ defect = .parameter p.name refusal := by
  rw [addDefault, ← contains_eq_false]
  cases hdefault : p.defaultValue with
  | none => simp
  | some raw =>
    cases hcontains : env.contains p.variableName with
    | true => simp
    | false =>
      cases hresolve : p.resolve raw with
      | ok value => simp [hresolve]
      | error refusal => simp [hresolve, eq_comm]

/-- If some of the defaults are not put into the table, one of them is refused. -/
theorem exists_defaultRefused {count : Nat}
    (h : (m.parameters.take count).foldlM addDefault env = .error defect) :
    ∃ index p refusal, index < count ∧ DefaultRefused m env index p refusal ∧
      defect = .parameter p.name refusal := by
  obtain ⟨before, p, after, b, hsplit, hbefore, herror⟩ := foldlM_eq_error h
  obtain ⟨habsent, raw, refusal, hdefault, hresolve, rfl⟩ := addDefault_eq_error_iff.1 herror
  have hparameters : m.parameters = before ++ (p :: after ++ m.parameters.drop count) := by
    rw [← List.append_assoc, ← hsplit, List.take_append_drop]
  have hlength : before.length < count := by
    have := congrArg List.length hsplit
    rw [List.length_take, List.length_append, List.length_cons] at this
    omega
  refine ⟨before.length, p, refusal, hlength, ⟨?_, ?_, raw, hdefault, hresolve⟩, rfl⟩
  · rw [hparameters, List.getElem?_append_right (Nat.le_refl _), Nat.sub_self]
    rfl
  · rwa [hparameters, List.take_left, ← foldlM_defaults hbefore]

/-- **The first refused default is reported.** -/
theorem foldlM_defaults_of_refused (h : DefaultRefused m env index p refusal)
    (hfirst : ∀ index' q refusal', DefaultRefused m env index' q refusal' → index ≤ index') :
    m.parameters.foldlM addDefault env = .error (.parameter p.name refusal) := by
  obtain ⟨raw, hdefault, hresolve⟩ := h.refused
  obtain ⟨hlt, hp⟩ := List.getElem?_eq_some_iff.1 h.declared
  rw [← List.take_append_drop index m.parameters, List.drop_eq_getElem_cons hlt, hp]
  cases htake : (m.parameters.take index).foldlM addDefault env with
  | ok b =>
    refine foldlM_of_error htake (addDefault_eq_error_iff.2 ⟨?_, raw, refusal, hdefault, hresolve,
      rfl⟩) _
    rw [foldlM_defaults htake]
    exact h.absent
  | error d =>
    obtain ⟨index', q, refusal', hlt', hrefused, -⟩ := exists_defaultRefused htake
    exact absurd (hfirst index' q refusal' hrefused) (Nat.not_le.2 hlt')

/-- **Defaults are put into the table** unless one of them is refused. -/
theorem foldlM_defaults_iff : (∃ defect, m.parameters.foldlM addDefault env = .error defect) ↔
    ∃ index p refusal, DefaultRefused m env index p refusal := by
  constructor
  · rintro ⟨defect, h⟩
    rw [← List.take_length (l := m.parameters)] at h
    obtain ⟨index, p, refusal, -, hrefused, -⟩ := exists_defaultRefused h
    exact ⟨index, p, refusal, hrefused⟩
  · rintro ⟨index, hrefused⟩
    classical
    have hexists : ∃ index, ∃ p refusal, DefaultRefused m env index p refusal := ⟨index, hrefused⟩
    obtain ⟨p, refusal, hleast⟩ := Nat.find_spec hexists
    exact ⟨_, foldlM_defaults_of_refused hleast fun index' q refusal' h =>
      Nat.find_min' hexists ⟨q, refusal', h⟩⟩

end Defaults

/-! ## The table -/

section Table

variable {m : Manifest} {settings : Settings}

theorem mem_ordered {s : Setting} : s ∈ settings.ordered ↔ s ∈ settings :=
  (inOrder_ordered settings).perm.mem_iff

/-- A setting that does not reach the table decides the error, since the defaults come later. -/
theorem environment_of_error {defect : Defect}
    (h : settings.ordered.foldlM (addSetting m) .empty = .error defect) :
    settings.environment m = .error defect := by
  rw [Settings.environment, h]
  rfl

/-- Once the settings are in the table, what is left are the defaults. -/
theorem environment_of_provides {env : Environment}
    (hdistinct : settings.Pairwise fun s t => s.position ≠ t.position)
    (h : Provides m settings env) :
    settings.environment m = m.parameters.foldlM addDefault env := by
  rw [Settings.environment, (provides_iff hdistinct).1 h]
  rfl

/-- There is an error if a setting is refused, or else a default, and only then. -/
theorem exists_error_iff (hdistinct : settings.Pairwise fun s t => s.position ≠ t.position) :
    (∃ defect, settings.environment m = .error defect) ↔
      (∃ s ∈ settings, ∃ defect, Refused m s defect) ∨
        ∃ env index p refusal, Provides m settings env ∧
          DefaultRefused m env index p refusal := by
  cases hset : settings.ordered.foldlM (addSetting m) .empty with
  | error defect =>
    obtain ⟨s, hs, hrefused⟩ := exists_refused hset
    exact iff_of_true ⟨defect, environment_of_error hset⟩
      (.inl ⟨s, mem_ordered.1 hs, defect, hrefused⟩)
  | ok env =>
    have hprovides := (provides_iff hdistinct).2 hset
    constructor
    · rintro ⟨defect, h⟩
      rw [environment_of_provides hdistinct hprovides] at h
      obtain ⟨index, p, refusal, hrefused⟩ := foldlM_defaults_iff.1 ⟨defect, h⟩
      exact .inr ⟨env, index, p, refusal, hprovides, hrefused⟩
    · rintro (⟨s, hs, defect, hrefused⟩ | ⟨env', index, p, refusal, hprovides', hrefused⟩)
      · exact absurd hrefused (not_refused hset s (mem_ordered.2 hs) defect)
      · rw [environment_of_provides hdistinct hprovides']
        exact foldlM_defaults_iff.2 ⟨index, p, refusal, hrefused⟩

/-- **The table does not depend on the order in which settings at different positions were
collected, nor does the error.**  There is an error if and only if some setting is refused, or else
a default is refused where it is wanted; it is that of the refused setting at the first position, or
else that of the first refused default.  Without one, the table is that of the settings and of the
defaults. -/
theorem environment_of_positions
    (hdistinct : settings.Pairwise fun s t => s.position ≠ t.position) :
    (∀ settings' : Settings, settings'.Perm settings →
      settings'.environment m = settings.environment m) ∧
    ((∃ defect, settings.environment m = .error defect) ↔
      (∃ s ∈ settings, ∃ defect, Refused m s defect) ∨
        ∃ env index p refusal, Provides m settings env ∧ DefaultRefused m env index p refusal) ∧
    (∀ s ∈ settings, ∀ defect, Refused m s defect →
      (∀ t ∈ settings, t.position < s.position → ∀ defect', ¬ Refused m t defect') →
      settings.environment m = .error defect) ∧
    (∀ env index p refusal, Provides m settings env → DefaultRefused m env index p refusal →
      (∀ index' q refusal', DefaultRefused m env index' q refusal' → index ≤ index') →
      settings.environment m = .error (.parameter p.name refusal)) ∧
    ∀ env, Provides m settings env → (∀ index p refusal, ¬ DefaultRefused m env index p refusal) →
      settings.environment m = .ok (m.parameters.foldl withDefault env) := by
  refine ⟨fun settings' hperm => ?_, exists_error_iff hdistinct,
    fun s hs defect hrefused hfirst => ?_,
    fun env index p refusal hprovides hrefused hfirst => ?_, fun env hprovides hnone => ?_⟩
  · rw [Settings.environment, Settings.environment, ordered_perm hdistinct hperm]
  · exact environment_of_error (foldlM_settings_of_refused (mem_ordered.2 hs) hrefused
      ((inOrder_ordered settings).strict hdistinct)
      (fun t ht => hfirst t (mem_ordered.1 ht)) .empty)
  · rw [environment_of_provides hdistinct hprovides]
    exact foldlM_defaults_of_refused hrefused hfirst
  · rw [environment_of_provides hdistinct hprovides]
    cases hdefaults : m.parameters.foldlM addDefault env with
    | ok env' => rw [foldlM_defaults hdefaults]
    | error defect =>
      obtain ⟨index, p, refusal, hrefused⟩ := foldlM_defaults_iff.1 ⟨defect, hdefaults⟩
      exact absurd hrefused (hnone index p refusal)

end Table

namespace Sample

/-- A setting of no parameter, and before it one whose value is no number. -/
def refusedSettings : Settings := [⟨5, "nope", "x"⟩, ⟨2, "speed", "soon"⟩]

theorem refused_speed :
    Refused mixed ⟨2, "speed", "soon"⟩ (.parameter "speed" (.notNumber "soon")) := by
  have hspeed : mixed.parameter? "speed" = some speed := by decide +kernel
  have hsoon : speed.resolve "soon" = .error (.notNumber "soon") := rfl
  exact Refused.value (p := speed) hspeed hsoon

/-- Settings of one variable that were not collected in the order of their positions. -/
def scatteredSettings : Settings := [
  ⟨5, "folders", "/a"⟩, ⟨7, "files", "b"⟩, ⟨1, "folders", "lost"⟩, ⟨3, "only", "x"⟩
  ]

/-- Their values, by position. -/
def scatteredValues : List Value :=
  [(folders, "lost"), (only, "x"), (folders, "/a"), (files, "b")]

/-- The table that they make on their own. -/
def scatteredTable : Environment := ⟨[("DEMO", "x:/a,b")], List.pairwise_singleton _ _⟩

theorem provides_scattered : Provides mixed scatteredSettings scatteredTable := by
  have hordered : scatteredSettings.ordered =
      [⟨1, "folders", "lost"⟩, ⟨3, "only", "x"⟩, ⟨5, "folders", "/a"⟩, ⟨7, "files", "b"⟩] := by
    decide
  have hvalues : List.Forall₂ (Stands mixed) scatteredSettings.ordered scatteredValues := by
    rw [hordered]
    exact .cons ⟨rfl, rfl⟩ (.cons ⟨rfl, rfl⟩ (.cons ⟨rfl, rfl⟩ (.cons ⟨rfl, rfl⟩ .nil)))
  refine ⟨_, scatteredValues, inOrder_ordered _, hvalues, fun name => ?_⟩
  by_cases hname : "DEMO" = name
  · subst hname
    have hreplaces : ¬ Value.appends (only, "x") = true := by decide
    refine ⟨fun hnone => absurd hnone (by decide), fun _ => ⟨"x:/a,b", rfl, [(folders, "lost")],
      (only, "x"), [(folders, "/a"), (files, "b")], rfl, by decide,
      fun happends => absurd happends hreplaces, rfl⟩⟩
  · have hnone : valuesOf name scatteredValues = [] := by
      rw [valuesOf, List.filter_eq_nil_iff]
      have hvariable : ∀ v ∈ scatteredValues, v.1.variableName = "DEMO" := by decide
      intro v hv
      rw [hvariable v hv]
      simpa using hname
    refine ⟨fun _ => ?_, fun hne => absurd hnone hne⟩
    simp only [scatteredTable, Table.get?, Entries.lookup, if_neg hname]

/-- All defaults are accepted. -/
theorem not_defaultRefused_mixed {env : Environment} {index : Nat} {p : Parameter}
    {refusal : Refusal} : ¬ DefaultRefused mixed env index p refusal := by
  intro h
  obtain ⟨raw, hdefault, hresolve⟩ := h.refused
  have haccepted : ∀ p ∈ mixed.parameters, ∀ raw, p.defaultValue = some raw →
      ∃ value, p.resolve raw = .ok value := by
    simp only [mixed, List.forall_mem_cons]
    refine ⟨nofun, ?_, nofun, ?_, fun p hp => absurd hp List.not_mem_nil⟩
    · rintro raw ⟨⟩
      exact ⟨"none", rfl⟩
    · rintro raw ⟨⟩
      exact ⟨"9.5", rfl⟩
  obtain ⟨value, hok⟩ := haccepted p (List.mem_of_getElem? h.declared) raw hdefault
  cases hok.symm.trans hresolve

end Sample

open Settings.Sample in
/-- The value that is no number is reported, whichever of the two was collected first; and settings
that are accepted make the same table, whichever were collected first. -/
theorem environment_of_positions_reversed :
    refusedSettings.environment mixed = .error (.parameter "speed" (.notNumber "soon")) ∧
      Settings.environment refusedSettings.reverse mixed =
        .error (.parameter "speed" (.notNumber "soon")) ∧
      ∃ env : Environment, scatteredSettings.environment mixed = .ok env ∧
        Settings.environment scatteredSettings.reverse mixed = .ok env ∧
        env.get? "DEMO" = some "x:/a,b" ∧ env.get? "SPEED" = some "9.5" := by
  have hdistinct : refusedSettings.Pairwise fun s t => s.position ≠ t.position := by decide
  obtain ⟨horder, -, hfirst, -⟩ := environment_of_positions (m := mixed) hdistinct
  have hearlier : ∀ t ∈ refusedSettings, t.position < 2 → ∀ defect, ¬ Refused mixed t defect := by
    intro t ht hlt
    have hnone : ∀ t ∈ refusedSettings, ¬ t.position < 2 := by decide
    exact absurd hlt (hnone t ht)
  have hspeed := hfirst _ (by decide) _ refused_speed hearlier
  have hscattered : scatteredSettings.Pairwise fun s t => s.position ≠ t.position := by decide
  obtain ⟨hsame, -, -, -, htable⟩ := environment_of_positions (m := mixed) hscattered
  have hok := htable _ provides_scattered fun _ _ _ => not_defaultRefused_mixed
  exact ⟨hspeed, (horder _ (List.reverse_perm _)).trans hspeed, _, hok,
    (hsame _ (List.reverse_perm _)).trans hok, by decide +kernel, by decide +kernel⟩

end Settings
end KernelRegistry
