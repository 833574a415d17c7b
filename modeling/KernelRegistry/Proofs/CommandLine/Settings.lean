import Mathlib.Data.List.Flatten
import Mathlib.Data.List.Nodup
import KernelRegistry.Proofs.CommandLine.Items
import KernelRegistry.Proofs.Settings.Order

/-!
# Settings on the command line

Settings reach the program in two lists, that of the options of each parameter and that of the
assignments.  Their positions bring them back into the order in which they were written.

* `Occurrence.setting?` — the setting that was given, in either way.
* `collected_perm` — every setting is collected, and once.
* `ordered_eq` — **collected settings are put in the order of the command line**.
* `withSetting`, `withDefault` — the table with a setting, and with a default.
* `environment_of_words` — **the table is that of the settings in the order in which they were
  written**, and of the defaults.
-/

set_option autoImplicit false
namespace KernelRegistry
namespace CommandLine

open Text (Bytes encode)

/-! ## Collected settings -/

/-- The setting that was given, in either way. -/
def Occurrence.setting? : Occurrence → Option Setting
  | parameter position name raw => some ⟨position, name, raw⟩
  | assignment position name value => some ⟨position, name, value⟩
  | _ => none

/-- The settings of parameters with the given names, and then the assignments. -/
def collected (names : List String) (given : List Occurrence) : Settings :=
  names.flatMap (fun name => given.filterMap (Occurrence.direct? name)) ++
    given.filterMap Occurrence.assigned?

section Collected

variable {given : List Occurrence} {names : List String} {position : Nat} {name raw : String}
  {settings sorted : Settings}

theorem settingsOf_eq (m : Manifest) (given : List Occurrence) :
    settingsOf m given = collected (m.parameters.map Parameter.name) given := by
  rw [settingsOf, collected, List.flatMap_map]

theorem filterMap_direct_ne {name' : String} (h : name ≠ name') (given : List Occurrence) :
    (Occurrence.parameter position name raw :: given).filterMap (Occurrence.direct? name') =
      given.filterMap (Occurrence.direct? name') :=
  List.filterMap_cons_none (if_neg h)

theorem flatMap_direct_notMem (h : name ∉ names) (given : List Occurrence) :
    names.flatMap (fun n => (Occurrence.parameter position name raw :: given).filterMap
      (Occurrence.direct? n)) =
      names.flatMap fun n => given.filterMap (Occurrence.direct? n) := by
  refine List.flatMap_congr fun n hn => filterMap_direct_ne ?_ given
  rintro rfl
  exact h hn

/-- An option of a parameter is collected where the parameter has its turn. -/
theorem flatMap_direct_perm (hnodup : names.Nodup) (hname : name ∈ names)
    (given : List Occurrence) :
    (names.flatMap fun n => (Occurrence.parameter position name raw :: given).filterMap
      (Occurrence.direct? n)).Perm
      (⟨position, name, raw⟩ :: names.flatMap fun n => given.filterMap (Occurrence.direct? n)) := by
  induction names with
  | nil => cases hname
  | cons n names ih =>
    obtain ⟨hn, hnames⟩ := List.nodup_cons.1 hnodup
    rw [List.flatMap_cons, List.flatMap_cons]
    rcases List.mem_cons.1 hname with rfl | hname
    · have hfirst : (Occurrence.parameter position name raw).direct? name =
          some ⟨position, name, raw⟩ := if_pos rfl
      rw [List.filterMap_cons_some hfirst, flatMap_direct_notMem hn]
      exact .refl _
    · have hne : name ≠ n := fun heq => hn (heq ▸ hname)
      rw [filterMap_direct_ne hne]
      exact ((ih hnames hname).append_left _).trans List.perm_middle

/-- **Every setting is collected once**, if the names are all different and those of the parameters
that were given are among them. -/
theorem collected_perm (hnodup : names.Nodup)
    (hnames : ∀ position name raw, Occurrence.parameter position name raw ∈ given → name ∈ names) :
    (collected names given).Perm (given.filterMap Occurrence.setting?) := by
  induction given with
  | nil =>
    have hnone : (names.flatMap fun _ => ([] : Settings)) = [] :=
      List.flatMap_eq_nil_iff.2 fun _ _ => rfl
    rw [collected, List.filterMap_nil, List.append_nil, List.filterMap_nil]
    exact hnone ▸ .refl _
  | cons o given ih =>
    have hrest := ih fun position name raw h => hnames position name raw (List.mem_cons_of_mem _ h)
    cases o with
    | parameter position name raw =>
      have hname := hnames position name raw List.mem_cons_self
      exact ((flatMap_direct_perm hnodup hname given).append_right _).trans (hrest.cons _)
    | assignment position name value => exact List.perm_middle.trans (hrest.cons _)
    | switch s => exact hrest
    | held h value => exact hrest

/-- **Settings are put in the order of their positions**, whatever order they were collected in. -/
theorem ordered_eq (hperm : settings.Perm sorted)
    (hsorted : sorted.Pairwise (fun s t => s.position < t.position)) :
    settings.ordered = sorted := by
  have horder := Settings.inOrder_ordered settings
  have hmembers := horder.perm.trans hperm
  have hdistinct : (sorted.map Setting.position).Nodup :=
    List.pairwise_map.2 (hsorted.imp fun hlt => Nat.ne_of_lt hlt)
  refine List.Perm.eq_of_pairwise ?_ horder.increasing (hsorted.imp Nat.le_of_lt) hmembers
  intro s t hs ht hle hge
  exact List.inj_on_of_nodup_map hdistinct (hmembers.subset hs) ht (Nat.le_antisymm hle hge)

end Collected

/-! ## Positions -/

section Positions

variable {item : Item} {items : List Item} {start : Nat} {s : Setting}

theorem length_words_pos (item : Item) : 0 < item.words.length := by
  rw [Item.words]
  split
  · split
    · exact Nat.zero_lt_one
    · exact Nat.zero_lt_two
  · exact Nat.zero_lt_one

theorem setting?_occurrence (item : Item) (position : Nat) :
    (item.occurrence position).setting? =
      item.setting?.map fun s => ⟨position, s.1.name, s.2⟩ := by
  cases item with
  | setting p raw assigned attached => cases assigned <;> rfl
  | held h held attached => rfl
  | switch s => rfl

/-- Settings stand at positions that increase, none before the first argument. -/
theorem positions_increase (start : Nat) (items : List Item) :
    (∀ s ∈ (Item.occurrences start items).filterMap Occurrence.setting?, start ≤ s.position) ∧
      ((Item.occurrences start items).filterMap Occurrence.setting?).Pairwise
        (fun s t => s.position < t.position) := by
  induction items generalizing start with
  | nil => exact ⟨fun s hs => (List.not_mem_nil hs).elim, .nil⟩
  | cons item items ih =>
    obtain ⟨hle, hpairwise⟩ := ih (start + item.words.length)
    have hlength := length_words_pos item
    have hrest : ∀ s ∈ (Item.occurrences (start + item.words.length) items).filterMap
        Occurrence.setting?, start ≤ s.position := fun s hs => by
      have := hle s hs
      omega
    rw [Item.occurrences]
    cases hsetting : (item.occurrence (start + item.words.length - 1)).setting? with
    | none =>
      rw [List.filterMap_cons_none hsetting]
      exact ⟨hrest, hpairwise⟩
    | some s =>
      rw [List.filterMap_cons_some hsetting]
      rw [setting?_occurrence] at hsetting
      obtain ⟨setting, -, rfl⟩ := Option.map_eq_some_iff.1 hsetting
      refine ⟨fun t ht => ?_, List.pairwise_cons.2 ⟨fun t ht => ?_, hpairwise⟩⟩
      · rcases List.mem_cons.1 ht with rfl | ht
        · show start ≤ start + item.words.length - 1
          omega
        · exact hrest t ht
      · have := hle t ht
        show start + item.words.length - 1 < t.position
        omega

theorem Item.Valid.mem {m : Manifest} (h : item.Valid m) {setting : Parameter × String}
    (hsetting : item.setting? = some setting) : setting.1 ∈ m.parameters := by
  cases item with
  | setting p raw assigned attached =>
    cases hsetting
    exact h.1
  | held h' value attached => cases hsetting
  | switch s => cases hsetting

/-- An option of a parameter that is read was written, with the name of a parameter. -/
theorem name_of_mem_occurrences {m : Manifest}
    (hknown : ∀ item ∈ items, ∀ setting, item.setting? = some setting → setting.1 ∈ m.parameters)
    {position : Nat} {name raw : String}
    (h : Occurrence.parameter position name raw ∈ Item.occurrences start items) :
    name ∈ m.parameters.map Parameter.name := by
  induction items generalizing start with
  | nil => cases h
  | cons item items ih =>
    rcases List.mem_cons.1 h with h | h
    · cases item with
      | setting p raw' assigned attached =>
        cases assigned with
        | false =>
          cases h
          exact List.mem_map_of_mem (hknown _ List.mem_cons_self _ rfl)
        | true => cases h
      | held h' value attached => cases h
      | switch s => cases h
    · exact ih (fun item hitem => hknown item (List.mem_cons_of_mem _ hitem)) h

/-- **What is collected from items comes in the order in which they were written.** -/
theorem ordered_of_known {m : Manifest} (hm : m.check = .ok ())
    (hknown : ∀ item ∈ items, ∀ setting, item.setting? = some setting → setting.1 ∈ m.parameters) :
    (settingsOf m (Item.occurrences 0 items)).ordered =
      (Item.occurrences 0 items).filterMap Occurrence.setting? := by
  rw [settingsOf_eq]
  exact ordered_eq (collected_perm (Manifest.accepted hm).2
    fun _ _ _ h => name_of_mem_occurrences hknown h) (positions_increase 0 items).2

theorem ordered_settingsOf {m : Manifest} (hm : m.check = .ok ())
    (hvalid : ∀ item ∈ items, item.Valid m) :
    (settingsOf m (Item.occurrences 0 items)).ordered =
      (Item.occurrences 0 items).filterMap Occurrence.setting? :=
  ordered_of_known hm fun item hitem _ hsetting => (hvalid item hitem).mem hsetting

end Positions

/-! ## The table -/

/-- The table with a setting: its value, the alias looked up once, goes to the parameter. -/
def withSetting (env : Environment) (setting : Parameter × String) : Environment :=
  setting.1.apply (setting.1.expand setting.2) env

/-- The table with the default of a parameter, unless its variable is there. -/
def withDefault (env : Environment) (p : Parameter) : Environment :=
  match p.defaultValue with
  | some raw =>
    if env.contains p.variableName then env else env.insert p.variableName (p.expand raw)
  | none => env

section Environment

variable {m : Manifest} {items : List Item} {env : Environment}

theorem foldlM_addSetting (hm : m.check = .ok ()) (hvalid : ∀ item ∈ items, item.Valid m)
    (start : Nat) (env : Environment) :
    ((Item.occurrences start items).filterMap Occurrence.setting?).foldlM
      (Settings.addSetting m) env =
      .ok ((items.filterMap Item.setting?).foldl withSetting env) := by
  induction items generalizing start env with
  | nil => rfl
  | cons item items ih =>
    have hrest := ih fun item hitem => hvalid item (List.mem_cons_of_mem _ hitem)
    have hoccurrence := setting?_occurrence item (start + item.words.length - 1)
    rw [Item.occurrences]
    cases hsetting : item.setting? with
    | none =>
      rw [hsetting, Option.map_none] at hoccurrence
      rw [List.filterMap_cons_none hoccurrence, List.filterMap_cons_none hsetting, hrest]
    | some setting =>
      rw [hsetting, Option.map_some] at hoccurrence
      cases item with
      | setting p raw assigned attached =>
        cases hsetting
        obtain ⟨hp, ⟨value, hresolve⟩, -⟩ := hvalid _ List.mem_cons_self
        have hadd : ∀ position, Settings.addSetting m env ⟨position, p.name, raw⟩ =
            .ok (withSetting env (p, raw)) := fun position => by
          rw [Settings.addSetting, Manifest.parameter?_name hm hp]
          simp only [hresolve]
          rw [Parameter.resolve_eq_ok hresolve]
          rfl
        rw [List.filterMap_cons_some hoccurrence, foldlM_cons_of_ok (hadd _), hrest]
        rfl
      | held h value attached => cases hsetting
      | switch s => cases hsetting

theorem foldlM_addDefault {parameters : List Parameter} (h : ∀ p ∈ parameters, p.Accepted)
    (env : Environment) :
    parameters.foldlM Settings.addDefault env = .ok (parameters.foldl withDefault env) := by
  induction parameters generalizing env with
  | nil => rfl
  | cons p parameters ih =>
    have hadd : Settings.addDefault env p = .ok (withDefault env p) := by
      rw [Settings.addDefault, withDefault]
      cases hdefault : p.defaultValue with
      | none => rfl
      | some raw =>
        have hresolve := (h p List.mem_cons_self).resolve_default raw hdefault
        simp only [hresolve]
        split
        · rfl
        · rfl
    rw [foldlM_cons_of_ok hadd, ih fun q hq => h q (List.mem_cons_of_mem _ hq)]
    rfl

/-- **Settings reach the table in the order in which they were written.**  A command line of valid
items, among which the options that may be given once are given once and at most one chooses the
location, is accepted; its table is that of the settings from left to right, and of the defaults. -/
theorem environment_of_words (hm : m.check = .ok ()) (program : Bytes)
    (hvalid : ∀ item ∈ items, item.Valid m) (honce : (items.filterMap Item.once?).Nodup)
    (hlocation : (items.filter (·.key.choosesLocation)).length ≤ 1) :
    ∃ invocation, Invocation.parse m (program :: items.flatMap Item.words) = .ok invocation ∧
      invocation.settings.environment m =
        .ok (m.parameters.foldl withDefault
          ((items.filterMap Item.setting?).foldl withSetting .empty)) := by
  refine ⟨⟨.of (Item.occurrences 0 items), settingsOf m (Item.occurrences 0 items)⟩, ?_, ?_⟩
  · rw [Invocation.parse, List.tail_cons, occurrences_items hm hvalid honce hlocation]
    rfl
  · rw [Settings.environment, ordered_settingsOf hm hvalid, foldlM_addSetting hm hvalid]
    exact foldlM_addDefault (Manifest.accepted hm).1 _

end Environment

namespace Sample

/-- A list of paths, one of which has a short name. -/
def paths : Parameter where
  name := "paths"
  variableName := "DEMO_PATHS"
  kind := .list .path
  aliases := ⟨[("home", "/h")], List.pairwise_singleton _ _⟩

/-- One of two levels. -/
def level : Parameter where
  name := "level"
  variableName := "DEMO_LEVEL"
  kind := .oneOf ["low", "high"]
  defaultValue := some "low"

/-- A manifest with both. -/
def leveled : Manifest where
  kernelName := "demo"
  parameters := [level, paths]

/-- Paths in three spellings, with other options between them. -/
def leveledItems : List Item := [
  .setting paths "a=b" true false, .switch .user, .setting paths "home" false false,
  .held .python (encode "python3") false, .setting paths "" false true
  ]

/-- The table that they make. -/
def leveledTable : Environment :=
  ⟨[("DEMO_LEVEL", "low"), ("DEMO_PATHS", "a=b:/h:")], List.pairwise_pair.2 (by decide)⟩

theorem check_leveled : leveled.check = .ok () := by decide +kernel

theorem valid_leveledItems : ∀ item ∈ leveledItems, item.Valid leveled := by
  have hpaths : paths ∈ leveled.parameters := List.mem_cons_of_mem _ List.mem_cons_self
  have hresolve : ∀ raw, ∃ value, paths.resolve raw = .ok value := fun raw => ⟨_, rfl⟩
  have halone : StandsAlone (encode "home") := .inr (by decide)
  have hpython : StandsAlone (encode "python3") := .inr (by decide)
  intro item hitem
  simp only [leveledItems, List.mem_cons, List.not_mem_nil, or_false] at hitem
  rcases hitem with rfl | rfl | rfl | rfl | rfl
  · exact ⟨hpaths, hresolve _, fun h => nomatch h⟩
  · exact trivial
  · exact ⟨hpaths, hresolve _, fun _ _ => halone⟩
  · exact ⟨fun _ => ⟨"python3", rfl⟩, (nomatch ·), fun _ => hpython⟩
  · exact ⟨hpaths, hresolve _, fun _ h => nomatch h⟩

end Sample

/-- The paths are joined in the order in which they were written, and the level is the default. -/
theorem environment_of_leveledItems : ∃ invocation,
    Invocation.parse Sample.leveled (encode "install" :: Sample.leveledItems.flatMap Item.words) =
        .ok invocation ∧
      invocation.settings.environment Sample.leveled = .ok Sample.leveledTable := by
  obtain ⟨invocation, hparse, henvironment⟩ := environment_of_words Sample.check_leveled
    (encode "install") Sample.valid_leveledItems (by decide) (by decide)
  refine ⟨invocation, hparse, henvironment.trans ?_⟩
  decide

end CommandLine
end KernelRegistry
