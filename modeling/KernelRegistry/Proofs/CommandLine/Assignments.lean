import KernelRegistry.Proofs.CommandLine.Accepted
import KernelRegistry.Proofs.CommandLine.Settings

/-!
# What can go wrong with the values of an accepted command line

The reader of the command line checks the values that are given by the option of a parameter, and of
an assignment only the name.  A default was checked with the manifest.  What is left to be refused
when the table is made are the values of assignments.

* `writtenAssignments` — the assignments in the arguments, found without the reader.
* `writtenAssignments_words` — **they are those of the items** that the command line was written as.
* `assignments_unique` — a text is one assignment at most.
* `Item.assignment?`, `offence?` — the assignment of an item, and why it is refused.
* `addSettings_items`, `environment_items` — the settings of items reach the table, and it is made,
  unless an assignment is refused.
* `environment_of_accepted` — **an accepted command line makes a table unless the value of an
  assignment is refused**, and then the first such value is reported.
-/

set_option autoImplicit false
namespace KernelRegistry
namespace CommandLine

open Text (Bytes encode)

/-! ## Assignments in arguments -/

/-- The option for assignments. -/
def assignmentOption : Bytes := encode "--param"

/-- The assignments that are written in arguments, each behind the option or behind the option and
an equals sign. -/
def writtenAssignments : List Bytes → List Bytes
  | [] => []
  | argument :: arguments =>
    if argument = [dash, dash] then []
    else if argument = assignmentOption then
      match arguments with
      | value :: rest => value :: writtenAssignments rest
      | [] => []
    else if (assignmentOption ++ [equals]).isPrefixOf argument then
      argument.drop (assignmentOption.length + 1) :: writtenAssignments arguments
    else writtenAssignments arguments

/-- The assignment that an item is. -/
def Item.assignment? : Item → Option (Parameter × String)
  | setting p raw true _ => some (p, raw)
  | _ => none

/-- An assignment as it is written. -/
def assignmentText (a : Parameter × String) : Bytes := encode (a.1.name ++ "=" ++ a.2)

section Scan

variable {m : Manifest} {argument value : Bytes} {arguments : List Bytes} {item : Item}
    {name : Bytes}

theorem assignmentOption_eq :
    assignmentOption = dash :: dash :: assigned (encode "param") none := by
  decide

/-- One step of the scan. -/
theorem writtenAssignments_cons (argument : Bytes) (arguments : List Bytes) :
    writtenAssignments (argument :: arguments) =
      if argument = [dash, dash] then []
      else if argument = assignmentOption then
        arguments.head?.toList ++ writtenAssignments arguments.tail
      else if (assignmentOption ++ [equals]).isPrefixOf argument then
        argument.drop (assignmentOption.length + 1) :: writtenAssignments arguments
      else writtenAssignments arguments := by
  cases arguments with
  | nil => rw [writtenAssignments.eq_def]; rfl
  | cons value rest => rw [writtenAssignments.eq_def]; rfl

theorem not_prefix_of_plain (h : Shape.of argument = .plain) (rest : Bytes) :
    argument ≠ dash :: dash :: rest := by
  rintro rfl
  rcases Shape.of_eq_plain_iff.1 h with h | h
  · simp at h
  · exact h rfl

theorem writtenAssignments_skip (hescape : argument ≠ [dash, dash])
    (hoption : argument ≠ assignmentOption)
    (hattached : ¬ (assignmentOption ++ [equals]) <+: argument) :
    writtenAssignments (argument :: arguments) = writtenAssignments arguments := by
  have hprefix : (assignmentOption ++ [equals]).isPrefixOf argument = false := by
    rw [← Bool.not_eq_true, List.isPrefixOf_iff_prefix]
    exact hattached
  rw [writtenAssignments_cons, if_neg hescape, if_neg hoption, hprefix, if_neg Bool.false_ne_true]

/-- An argument that is no option is passed over. -/
theorem writtenAssignments_plain (h : Shape.of argument = .plain) :
    writtenAssignments (argument :: arguments) = writtenAssignments arguments := by
  have hno := not_prefix_of_plain h
  refine writtenAssignments_skip (hno []) (hno _) ?_
  rintro ⟨rest, hrest⟩
  exact hno _ hrest.symm

/-- Another option is passed over. -/
theorem writtenAssignments_other {value : Option Bytes} (hequals : equals ∉ name)
    (hne : assigned name value ≠ []) (hname : name ≠ encode "param") :
    writtenAssignments ((dash :: dash :: assigned name value) :: arguments) =
      writtenAssignments arguments := by
  have hparam : equals ∉ encode "param" := by decide
  have hsplit : ∀ value', assigned name value ≠ assigned (encode "param") value' :=
    fun value' heq => hname ((assigned_inj hequals hparam).1 heq).1
  refine writtenAssignments_skip ?_ ?_ ?_
  · intro heq
    exact hne (List.cons.inj (List.cons.inj heq).2).2
  · intro heq
    rw [assignmentOption_eq] at heq
    exact hsplit none (List.cons.inj (List.cons.inj heq).2).2
  · rintro ⟨rest, hrest⟩
    refine hsplit (some rest) ?_
    rw [assignmentOption_eq] at hrest
    have htail := (List.cons.inj (List.cons.inj hrest).2).2
    rw [← htail]
    exact List.append_assoc _ _ _

theorem writtenAssignments_separate : writtenAssignments
    ((dash :: dash :: assigned (encode "param") none) :: value :: arguments) =
      value :: writtenAssignments arguments := by
  have hescape : assignmentOption ≠ [dash, dash] := by decide
  rw [← assignmentOption_eq, writtenAssignments_cons, if_neg hescape, if_pos rfl]
  rfl

theorem writtenAssignments_attached : writtenAssignments
    ((dash :: dash :: assigned (encode "param") (some value)) :: arguments) =
      value :: writtenAssignments arguments := by
  have hargument : dash :: dash :: assigned (encode "param") (some value) =
      assignmentOption ++ [equals] ++ value := by
    rw [assignmentOption_eq, List.append_assoc]
    rfl
  have hprefix : (assignmentOption ++ [equals]).isPrefixOf (assignmentOption ++ [equals] ++ value) =
      true :=
    List.isPrefixOf_iff_prefix.2 (List.prefix_append _ _)
  have hlength : (assignmentOption ++ [equals]).length = assignmentOption.length + 1 := by simp
  have hoption : assignmentOption ++ [equals] ++ value ≠ assignmentOption := fun heq => by
    simpa using congrArg List.length heq
  have hescape : assignmentOption ++ [equals] ++ value ≠ [dash, dash] := by
    rw [assignmentOption_eq]
    intro heq
    cases (List.cons.inj (List.cons.inj heq).2).2
  rw [hargument, writtenAssignments_cons, if_neg hescape, if_neg hoption, if_pos hprefix, ← hlength,
    List.drop_left]

/-- A text is one assignment to the parameters of a manifest at most. -/
theorem assignmentText_inj {a b : Parameter × String} (hm : m.check = .ok ())
    (ha : m.parameter? a.1.name = some a.1) (hb : m.parameter? b.1.name = some b.1)
    (h : assignmentText a = assignmentText b) : a = b := by
  have hsplit : ∀ c : Parameter × String, m.parameter? c.1.name = some c.1 →
      splitAssignment (c.1.name ++ "=" ++ c.2) = some (c.1.name, c.2) := fun c hc =>
    splitAssignment_eq ((Manifest.accepted hm).1 c.1 (mem_of_parameter? hc).1).isOptionName c.2
  have htext : a.1.name ++ "=" ++ a.2 = b.1.name ++ "=" ++ b.2 := Text.encode_injective h
  obtain ⟨hname, hraw⟩ := Prod.mk.inj
    (Option.some.inj
      ((hsplit a ha).symm.trans ((congrArg splitAssignment htext).trans (hsplit b hb))))
  refine Prod.ext (Option.some.inj ?_) hraw
  rw [← ha, ← hb, hname]

/-- Assignments are determined by how they are written. -/
theorem assignments_unique (hm : m.check = .ok ()) :
    ∀ {assignments assignments' : List (Parameter × String)},
      (∀ a ∈ assignments, m.parameter? a.1.name = some a.1) →
      (∀ a ∈ assignments', m.parameter? a.1.name = some a.1) →
      assignments.map assignmentText = assignments'.map assignmentText → assignments = assignments'
  | [], [], _, _, _ => rfl
  | a :: as, b :: bs, has, hbs, h => by
    obtain ⟨hhead, htail⟩ := List.cons.inj h
    rw [assignmentText_inj hm (has a List.mem_cons_self) (hbs b List.mem_cons_self) hhead,
      assignments_unique hm (fun c hc => has c (List.mem_cons_of_mem _ hc))
        (fun c hc => hbs c (List.mem_cons_of_mem _ hc)) htail]

/-! ### Items -/

/-- The options of items have names of their own. -/
theorem Item.Taken.isOptionName (hm : m.check = .ok ()) (h : item.Taken m) :
    isOptionName item.key.name = true ∧ (item.key.name = "param" ↔ item.key = .assignment) := by
  have hown : ∀ key ∈ ownKeys, key.name = "param" ↔ key = .assignment := by decide
  cases item with
  | setting p raw assigned attached =>
    cases assigned with
    | false =>
      have haccepted := (Manifest.accepted hm).1 p (mem_of_parameter? (h.known _ rfl)).1
      refine ⟨haccepted.isOptionName, iff_of_false (fun hname => ?_) (nomatch ·)⟩
      have hreserved : "param" ∈ reservedNames := by decide
      have hnot := haccepted.notReserved
      rw [show p.name = "param" from hname] at hnot
      exact hnot hreserved
    | true => exact ⟨(own_names .assignment (by decide)).2.1, iff_of_true rfl rfl⟩
  | held held value attached =>
    exact ⟨(own_names _ (mem_ownKeys_held held)).2.1, hown _ (mem_ownKeys_held held)⟩
  | switch s => exact ⟨(own_names _ (mem_ownKeys_switch s)).2.1, hown _ (mem_ownKeys_switch s)⟩

theorem Item.Taken.equals_not_mem (hm : m.check = .ok ()) (h : item.Taken m) :
    equals ∉ encode item.key.name := by
  obtain ⟨c, cs, hchars, -, hequals⟩ := names_of_isOptionName (h.isOptionName hm).1
  intro hmem
  exact hequals ((Text.mem_encodeChars_iff (a := '=') (by decide)).1 hmem)

theorem value?_of_assignment (h : item.key = .assignment) :
    ∃ a, item.assignment? = some a ∧ item.value? = some (assignmentText a) := by
  cases item with
  | setting p raw assigned attached =>
    cases assigned with
    | false => cases h
    | true => exact ⟨(p, raw), rfl, rfl⟩
  | held held value attached => cases h
  | switch s => cases h

theorem assignment?_eq_none (h : item.key ≠ .assignment) : item.assignment? = none := by
  cases item with
  | setting p raw assigned attached =>
    cases assigned with
    | false => rfl
    | true => exact absurd rfl h
  | held held value attached => rfl
  | switch s => rfl

/-- The first item is an assignment, or is passed over. -/
theorem writtenAssignments_item (hm : m.check = .ok ()) (h : item.Taken m) (rest : List Bytes) :
    writtenAssignments (item.words ++ rest) =
      (item.assignment?.map assignmentText).toList ++ writtenAssignments rest := by
  obtain ⟨hoption, hparam⟩ := h.isOptionName hm
  have hnot := h.equals_not_mem hm
  have hne : ∀ value, assigned (encode item.key.name) value ≠ [] := fun value =>
    (Shape.of_eq_long_iff.1 (Progress.shape_of_name hoption value)).2.1
  by_cases hkey : item.key = .assignment
  · obtain ⟨a, ha, hvalue⟩ := value?_of_assignment hkey
    rw [ha, Option.map_some, Option.toList_some]
    cases hattached : item.isAttached with
    | true =>
      rw [words_attached hvalue hattached, hkey]
      exact writtenAssignments_attached
    | false =>
      rw [words_separate hvalue hattached, hkey]
      exact writtenAssignments_separate
  · have hname : encode item.key.name ≠ encode "param" := fun heq =>
      hkey (hparam.1 (Text.encode_injective heq))
    rw [assignment?_eq_none hkey, Option.map_none, Option.toList_none, List.nil_append]
    cases hvalue : item.value? with
    | some value =>
      cases hattached : item.isAttached with
      | true =>
        rw [words_attached hvalue hattached]
        exact writtenAssignments_other hnot (hne _) hname
      | false =>
        rw [words_separate hvalue hattached]
        exact (writtenAssignments_other hnot (hne _) hname).trans
          (writtenAssignments_plain (standsAlone_iff.1 (h.standsAlone value hvalue hattached)))
    | none =>
      cases item with
      | switch s =>
        rw [words_switch]
        exact writtenAssignments_other hnot (hne _) hname
      | setting p raw assigned attached => cases assigned <;> cases hvalue
      | held held value attached => cases hvalue

/-- **The assignments in the arguments are those of the items**, in their order. -/
theorem writtenAssignments_words (hm : m.check = .ok ()) {items : List Item}
    (h : ∀ item ∈ items, item.Taken m) {ending : List Bytes}
    (hending : ending = [] ∨ ending = [[dash, dash]]) :
    writtenAssignments (items.flatMap Item.words ++ ending) =
      (items.filterMap Item.assignment?).map assignmentText := by
  induction items with
  | nil => rcases hending with rfl | rfl <;> rfl
  | cons item items ih =>
    rw [List.flatMap_cons, List.append_assoc,
      writtenAssignments_item hm (h item List.mem_cons_self),
      ih fun x hx => h x (List.mem_cons_of_mem _ hx)]
    cases hitem : item.assignment? with
    | none =>
      rw [List.filterMap_cons_none hitem]
      rfl
    | some a =>
      rw [List.filterMap_cons_some hitem]
      rfl

end Scan

/-! ## Values -/

/-- Why the value of an assignment is refused. -/
def offence? (a : Parameter × String) : Option Defect :=
  match a.1.resolve a.2 with
  | .ok _ => none
  | .error refusal => some (.parameter a.1.name refusal)

section Values

variable {m : Manifest} {items : List Item} {p : Parameter} {raw : String} {env : Environment}
  {a : Parameter × String}

theorem offence?_eq_none_iff : offence? a = none ↔ ∃ value, a.1.resolve a.2 = .ok value := by
  rw [offence?]
  cases a.1.resolve a.2 with
  | ok value => exact iff_of_true rfl ⟨value, rfl⟩
  | error refusal => exact iff_of_false (nomatch ·) fun ⟨_, h⟩ => nomatch h

/-- A value is refused for what it is, never because its parameter is unknown. -/
theorem refusal_of_resolve {refusal : Refusal} (h : p.resolve raw = .error refusal) :
    (∃ value, refusal = .notNumber value) ∨ ∃ values value, refusal = .notAmong values value := by
  rw [Parameter.resolve] at h
  cases haccept : Parameter.accept p.kind (p.expand raw) with
  | ok u =>
    rw [haccept] at h
    cases h
  | error refusal' =>
    rw [haccept] at h
    cases h
    rw [Parameter.accept.eq_def] at haccept
    split at haccept
    · split at haccept
      · cases haccept
      · cases haccept
        exact .inl ⟨_, rfl⟩
    · split at haccept
      · cases haccept
      · cases haccept
        exact .inr ⟨_, _, rfl⟩
    · cases haccept
    · cases haccept

theorem offence?_of_error {refusal : Refusal} (h : a.1.resolve a.2 = .error refusal) :
    offence? a = some (.parameter a.1.name refusal) := by
  rw [offence?, h]

theorem offence?_ne_unknown (a : Parameter × String) (name : String) :
    offence? a ≠ some (.parameter name .unknown) := by
  cases hresolve : a.1.resolve a.2 with
  | ok value =>
    rw [offence?_eq_none_iff.2 ⟨value, hresolve⟩]
    nofun
  | error refusal =>
    rw [offence?_of_error hresolve]
    rcases refusal_of_resolve hresolve with ⟨value, rfl⟩ | ⟨values, value, rfl⟩
    · nofun
    · nofun

/-- A setting of a parameter reaches the table unless its value is refused. -/
theorem addSetting_known (h : m.parameter? p.name = some p) (position : Nat) (env : Environment) :
    Settings.addSetting m env ⟨position, p.name, raw⟩ =
      match p.resolve raw with
      | .ok value => .ok (p.apply value env)
      | .error refusal => .error (.parameter p.name refusal) := by
  cases hresolve : p.resolve raw <;> simp only [Settings.addSetting, h, hresolve]

/-- **The settings of items reach the table unless an assignment is refused**; the first that is
refused is reported. -/
theorem addSettings_items (htaken : ∀ item ∈ items, item.Taken m) (start : Nat)
    (env : Environment) :
    match (items.filterMap Item.assignment?).findSome? offence? with
    | some defect => ((Item.occurrences start items).filterMap Occurrence.setting?).foldlM
        (Settings.addSetting m) env = .error defect
    | none => ∃ env', ((Item.occurrences start items).filterMap Occurrence.setting?).foldlM
        (Settings.addSetting m) env = .ok env' := by
  induction items generalizing start env with
  | nil => exact ⟨env, rfl⟩
  | cons item items ih =>
    have hrest := ih fun x hx => htaken x (List.mem_cons_of_mem _ hx)
    have hitem := htaken item List.mem_cons_self
    have hoccurrence := setting?_occurrence item (start + item.words.length - 1)
    rw [Item.occurrences]
    cases item with
    | setting p raw assigned attached =>
      have hknown := hitem.known _ rfl
      rw [List.filterMap_cons_some hoccurrence, List.foldlM_cons, addSetting_known hknown]
      cases hresolve : p.resolve raw with
      | ok value =>
        have hnone : offence? (p, raw) = none := offence?_eq_none_iff.2 ⟨value, hresolve⟩
        cases assigned with
        | true =>
          have hitem : (Item.setting p raw true attached).assignment? = some (p, raw) := rfl
          rw [List.filterMap_cons_some hitem, List.findSome?_cons, hnone]
          exact hrest _ _
        | false =>
          have hitem : (Item.setting p raw false attached).assignment? = none := rfl
          rw [List.filterMap_cons_none hitem]
          exact hrest _ _
      | error refusal =>
        cases assigned with
        | true =>
          have hsome : offence? (p, raw) = some (.parameter p.name refusal) :=
            offence?_of_error hresolve
          have hitem : (Item.setting p raw true attached).assignment? = some (p, raw) := rfl
          rw [List.filterMap_cons_some hitem, List.findSome?_cons, hsome]
          rfl
        | false =>
          -- The reader has checked the value of the parameter's own option.
          obtain ⟨value, hvalue⟩ := hitem.resolves _ rfl (by simp [Item.key])
          rw [hvalue] at hresolve
          cases hresolve
    | held held value attached =>
      rw [List.filterMap_cons_none hoccurrence, List.filterMap_cons_none rfl]
      exact hrest _ _
    | switch s =>
      rw [List.filterMap_cons_none hoccurrence, List.filterMap_cons_none rfl]
      exact hrest _ _

/-- **The table of items is made unless an assignment is refused.**  After their settings only the
defaults are left, and these were checked with the manifest. -/
theorem environment_items (hm : m.check = .ok ()) (htaken : ∀ item ∈ items, item.Taken m) :
    match (items.filterMap Item.assignment?).findSome? offence? with
    | some defect => (settingsOf m (Item.occurrences 0 items)).environment m = .error defect
    | none => ∃ env, (settingsOf m (Item.occurrences 0 items)).environment m = .ok env := by
  have hknown : ∀ item ∈ items, ∀ setting, item.setting? = some setting →
      setting.1 ∈ m.parameters := fun item hitem setting hsetting =>
    (mem_of_parameter? ((htaken item hitem).known setting hsetting)).1
  have henvironment : (settingsOf m (Item.occurrences 0 items)).environment m =
      (((Item.occurrences 0 items).filterMap Occurrence.setting?).foldlM
        (Settings.addSetting m) .empty).bind fun env =>
          m.parameters.foldlM Settings.addDefault env := by
    rw [Settings.environment, ordered_of_known hm hknown]
    rfl
  have hsettings := addSettings_items htaken 0 .empty
  rw [henvironment]
  cases hfirst : (items.filterMap Item.assignment?).findSome? offence? with
  | some defect =>
    rw [hfirst] at hsettings
    rw [hsettings]
    rfl
  | none =>
    rw [hfirst] at hsettings
    obtain ⟨env, henv⟩ := hsettings
    exact ⟨_, by rw [henv]; exact foldlM_addDefault (Manifest.accepted hm).1 env⟩

/-- An assignment that was taken note of is to a parameter of the manifest. -/
theorem parameter?_of_assignment (htaken : ∀ item ∈ items, item.Taken m)
    (ha : a ∈ items.filterMap Item.assignment?) : m.parameter? a.1.name = some a.1 := by
  obtain ⟨item, hitem, hassignment⟩ := List.mem_filterMap.1 ha
  refine (htaken item hitem).known a ?_
  cases item with
  | setting p raw assigned attached =>
    cases assigned with
    | true => exact hassignment
    | false => cases hassignment
  | held held value attached => cases hassignment
  | switch s => cases hassignment

/-- The first value that is refused is the offence of several assignments. -/
theorem findSome?_offence?_of_first {before after : List (Parameter × String)} {refusal : Refusal}
    (hbefore : ∀ b ∈ before, ∃ value, b.1.resolve b.2 = .ok value)
    (hrefusal : a.1.resolve a.2 = .error refusal) :
    (before ++ a :: after).findSome? offence? = some (.parameter a.1.name refusal) := by
  have hnone : before.findSome? offence? = none :=
    List.findSome?_eq_none_iff.2 fun b hb => offence?_eq_none_iff.2 (hbefore b hb)
  rw [List.findSome?_append, hnone, Option.none_or, List.findSome?_cons,
    offence?_of_error hrefusal]

/-- **What can go wrong with the values of an accepted command line.**  The assignments in its
arguments are to parameters of the manifest.  The table is made if and only if each of their values
is accepted; otherwise the first one that is not is reported, as the parameter refuses it. -/
theorem environment_of_accepted {argv : List Bytes} {invocation : Invocation}
    (hm : m.check = .ok ()) (h : Invocation.parse m argv = .ok invocation) :
    ∃ assignments : List (Parameter × String),
      writtenAssignments argv.tail = assignments.map assignmentText ∧
      (∀ a ∈ assignments, m.parameter? a.1.name = some a.1) ∧
      ((∃ env, invocation.settings.environment m = .ok env) ↔
        ∀ a ∈ assignments, ∃ value, a.1.resolve a.2 = .ok value) ∧
      (∀ before a after refusal, assignments = before ++ a :: after →
        (∀ b ∈ before, ∃ value, b.1.resolve b.2 = .ok value) → a.1.resolve a.2 = .error refusal →
        invocation.settings.environment m = .error (.parameter a.1.name refusal)) ∧
      ∀ name, invocation.settings.environment m ≠ .error (.parameter name .unknown) := by
  obtain ⟨given, hgiven, h⟩ := of_bind_eq_ok h
  cases h
  obtain ⟨items, ending, htaken, rfl, harguments, hending⟩ := exists_items hm hgiven
  have henvironment := environment_items hm htaken
  refine ⟨items.filterMap Item.assignment?, ?_, fun a => parameter?_of_assignment htaken,
    ?_, ?_, ?_⟩
  · rw [harguments]
    exact writtenAssignments_words hm htaken hending
  · cases hfirst : (items.filterMap Item.assignment?).findSome? offence? with
    | none =>
      rw [hfirst] at henvironment
      refine iff_of_true henvironment fun a ha => ?_
      exact offence?_eq_none_iff.1 (List.findSome?_eq_none_iff.1 hfirst a ha)
    | some defect =>
      rw [hfirst] at henvironment
      obtain ⟨a, ha, hoffence⟩ := List.exists_of_findSome?_eq_some hfirst
      refine iff_of_false ?_ fun hall => ?_
      · rintro ⟨env, henv⟩
        cases henvironment.symm.trans henv
      · rw [offence?_eq_none_iff.2 (hall a ha)] at hoffence
        cases hoffence
  · intro before a after refusal hlist hbefore hrefusal
    rwa [hlist, findSome?_offence?_of_first hbefore hrefusal] at henvironment
  · intro name hunknown
    cases hfirst : (items.filterMap Item.assignment?).findSome? offence? with
    | none =>
      rw [hfirst] at henvironment
      obtain ⟨env, henv⟩ := henvironment
      cases henv.symm.trans hunknown
    | some defect =>
      rw [hfirst] at henvironment
      obtain ⟨a, -, hoffence⟩ := List.exists_of_findSome?_eq_some hfirst
      obtain rfl := Except.error.inj (henvironment.symm.trans hunknown)
      exact offence?_ne_unknown a name hoffence

end Values

namespace Sample

/-- The level by its own option and in two assignments, the second of which is refused. -/
def extremeArguments : List Bytes :=
  ["install", "--level", "high", "--param", "level=low", "--paths=home",
    "--param=level=extreme"].map
    encode

/-- The invocation that they give. -/
def extremeInvocation : Invocation where
  arguments := {
    user := false, sysPrefix := false, location := none, legacy := false, replace := false,
    python := none, manifest := none, assignments := ["level=low", "level=extreme"],
    debug := false }
  settings :=
    [⟨1, "level", "high"⟩, ⟨4, "paths", "home"⟩, ⟨3, "level", "low"⟩, ⟨5, "level", "extreme"⟩]

theorem parse_extreme : Invocation.parse leveled extremeArguments = .ok extremeInvocation := by
  decide +kernel

theorem written_extreme : writtenAssignments extremeArguments.tail =
    [(level, "low"), (level, "extreme")].map assignmentText := by decide

theorem known_extreme : ∀ a ∈ [(level, "low"), (level, "extreme")],
    leveled.parameter? a.1.name = some a.1 := by
  have hlevel : leveled.parameter? "level" = some level := by decide +kernel
  intro a ha
  rcases List.mem_pair.1 ha with rfl | rfl
  · exact hlevel
  · exact hlevel

end Sample

open CommandLine.Sample in
/-- The second assignment is reported. -/
theorem environment_of_accepted_extreme :
    leveled.check = .ok () ∧ Invocation.parse leveled extremeArguments = .ok extremeInvocation ∧
      extremeInvocation.settings.environment leveled =
        .error (.parameter "level" (.notAmong ["low", "high"] "extreme")) := by
  obtain ⟨assignments, hwritten, hknown, -, hrefused, -⟩ :=
    environment_of_accepted check_leveled parse_extreme
  obtain rfl := assignments_unique check_leveled known_extreme hknown
    (written_extreme.symm.trans hwritten)
  refine ⟨check_leveled, parse_extreme, hrefused [(level, "low")] _ [] _ rfl ?_ rfl⟩
  intro b hb
  obtain rfl := List.mem_singleton.1 hb
  exact ⟨"low", rfl⟩

end CommandLine
end KernelRegistry
