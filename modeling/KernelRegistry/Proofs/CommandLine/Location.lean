import KernelRegistry.Proofs.CommandLine.Assignments
import KernelRegistry.Request

/-!
# The location that a command line chooses

A location is looked for in what was read, option by option, with a preference among the options.
No preference is needed on a command line that is accepted: at most one of them is there, and
no value of another option is taken for it.

* `writtenRegistries` — the registries that are chosen in the arguments, found without the reader.
* `writtenRegistries_words` — **they are those of the items** that the command line was written as.
* `Arguments.registry_of` — the preference, in terms of the registries that were given.
* `length_registries_le` — more than one is refused.
* `registry_of_accepted` — **an accepted command line chooses at most one registry**, and that is
  the one that the kernel is installed in.
-/

set_option autoImplicit false
namespace KernelRegistry
namespace CommandLine

open Text (Bytes encode)

/-! ## Registries in arguments -/

/-- The registry that an argument chooses, given the arguments after it. -/
def chosen? (argument : Bytes) (arguments : List Bytes) : Option Registry :=
  if argument = encode "--user" then some .user
  else if argument = encode "--sys-prefix" then some .interpreter
  else if argument = encode "--legacy" then some .legacy
  else if argument = encode "--prefix" then arguments.head?.map fun value => .below ⟨value⟩
  else if (encode "--prefix=").isPrefixOf argument then
    some (.below ⟨argument.drop (encode "--prefix=").length⟩)
  else none

/-- The registries that are chosen in the arguments before two dashes. -/
def writtenRegistries : List Bytes → List Registry
  | [] => []
  | argument :: arguments =>
    if argument = [dash, dash] then []
    else (chosen? argument arguments).toList ++ writtenRegistries arguments

/-- The registry that a switch chooses. -/
def Switch.target? : Switch → Option Registry
  | user => some .user
  | sysPrefix => some .interpreter
  | legacy => some .legacy
  | replace | debug => none

/-- The registry that an item chooses: a setting chooses none, whatever its value is. -/
def Item.target? : Item → Option Registry
  | switch s => s.target?
  | held .location value _ => some (.below ⟨value⟩)
  | _ => none

/-- The arguments are the words of items that the reader has checked, perhaps with two dashes behind
them. -/
def WrittenAs (m : Manifest) (items : List Item) (arguments : List Bytes) : Prop :=
  (∀ item ∈ items, item.Taken m) ∧
    ∃ ending, (ending = [] ∨ ending = [[dash, dash]]) ∧
      arguments = items.flatMap Item.words ++ ending

/-- The registry that is meant: an empty directory means the one that all users share. -/
def meant : Registry → Registry
  | .below p => if p.isEmpty then .system else .below p
  | r => r

section Scan

variable {m : Manifest} {argument value name name' : Bytes} {arguments : List Bytes} {item : Item}
  {v v' : Option Bytes}

/-- An argument is an option if it is spelled with its name and without a value. -/
theorem argument_eq_option (hname : equals ∉ name) (hname' : equals ∉ name') :
    dash :: dash :: assigned name v = dash :: dash :: name' ↔ name = name' ∧ v = none := by
  simp only [List.cons.injEq, true_and]
  change assigned name v = assigned name' none ↔ _
  exact assigned_inj hname hname'

theorem locationOptions_eq : encode "--user" = dash :: dash :: encode "user" ∧
    encode "--sys-prefix" = dash :: dash :: encode "sys-prefix" ∧
    encode "--legacy" = dash :: dash :: encode "legacy" ∧
    encode "--prefix" = dash :: dash :: encode "prefix" := by
  decide

theorem prefixOption_eq (value : Bytes) :
    encode "--prefix=" ++ value = dash :: dash :: assigned (encode "prefix") (some value) := by
  have hoption : encode "--prefix=" = dash :: dash :: (encode "prefix" ++ [equals]) := by decide
  rw [hoption, assigned, List.cons_append, List.cons_append, List.append_assoc]
  rfl

/-- The option for a directory has its value behind it. -/
theorem isPrefixOf_prefixOption (hname : equals ∉ name) :
    (encode "--prefix=").isPrefixOf (dash :: dash :: assigned name v) = true ↔
      name = encode "prefix" ∧ v ≠ none := by
  have hprefix : equals ∉ encode "prefix" := by decide
  rw [List.isPrefixOf_iff_prefix]
  constructor
  · rintro ⟨value, hvalue⟩
    rw [prefixOption_eq, List.cons.injEq, List.cons.injEq] at hvalue
    obtain ⟨rfl, rfl⟩ := (assigned_inj hprefix hname).1 hvalue.2.2
    exact ⟨rfl, Option.some_ne_none value⟩
  · rintro ⟨rfl, hv⟩
    obtain ⟨value, rfl⟩ := Option.ne_none_iff_exists'.1 hv
    exact ⟨value, prefixOption_eq value⟩

/-- The registry that an option with a name chooses. -/
theorem chosen?_assigned (hname : equals ∉ name) (v : Option Bytes) (arguments : List Bytes) :
    chosen? (dash :: dash :: assigned name v) arguments =
      if name = encode "user" ∧ v = none then some .user
      else if name = encode "sys-prefix" ∧ v = none then some .interpreter
      else if name = encode "legacy" ∧ v = none then some .legacy
      else if name = encode "prefix" then
        (v.or arguments.head?).map fun value => .below ⟨value⟩
      else none := by
  obtain ⟨huser, hinterpreter, hlegacy, hprefix⟩ := locationOptions_eq
  rw [chosen?, huser, hinterpreter, hlegacy, hprefix]
  simp only [argument_eq_option hname (show equals ∉ encode "user" by decide),
    argument_eq_option hname (show equals ∉ encode "sys-prefix" by decide),
    argument_eq_option hname (show equals ∉ encode "legacy" by decide),
    argument_eq_option hname (show equals ∉ encode "prefix" by decide),
    isPrefixOf_prefixOption hname]
  by_cases hdirectory : name = encode "prefix"
  · subst hdirectory
    cases v with
    | none => simp
    | some value =>
      have hdrop : (dash :: dash :: assigned (encode "prefix") (some value)).drop
          (encode "--prefix=").length = value := by
        rw [← prefixOption_eq, List.drop_left]
      simp [hdrop]
  · simp [hdirectory]

/-- An argument that is no option chooses nothing. -/
theorem chosen?_plain (h : Shape.of argument = .plain) (arguments : List Bytes) :
    chosen? argument arguments = none := by
  have hno := not_prefix_of_plain h
  obtain ⟨huser, hinterpreter, hlegacy, hprefix⟩ := locationOptions_eq
  have hattached : (encode "--prefix=").isPrefixOf argument = false := by
    rw [← Bool.not_eq_true, List.isPrefixOf_iff_prefix]
    rintro ⟨value, hvalue⟩
    rw [prefixOption_eq] at hvalue
    exact hno _ hvalue.symm
  rw [chosen?, huser, hinterpreter, hlegacy, hprefix, if_neg (hno _), if_neg (hno _),
    if_neg (hno _), if_neg (hno _), hattached, if_neg Bool.false_ne_true]

theorem writtenRegistries_plain (h : Shape.of argument = .plain) :
    writtenRegistries (argument :: arguments) = writtenRegistries arguments := by
  rw [writtenRegistries, if_neg (not_prefix_of_plain h []), chosen?_plain h]
  rfl

/-! ### Items -/

/-- The option of an item chooses what the item does: its value stands behind it or comes next. -/
theorem chosen?_item (hm : m.check = .ok ()) (h : item.Taken m)
    (hvalue : ∀ value, item.value? = some value → v.or arguments.head? = some value)
    (hnone : item.value? = none → v = none) :
    chosen? (dash :: dash :: assigned (encode item.key.name) v) arguments = item.target? := by
  have hname : ∀ s, encode item.key.name = encode s ↔ item.key.name = s := fun s =>
    ⟨Text.encode_injective, congrArg encode⟩
  rw [chosen?_assigned (h.equals_not_mem hm)]
  simp only [hname]
  cases item with
  | setting p raw assigned attached =>
    cases assigned with
    | false =>
      have haccepted := (Manifest.accepted hm).1 p (mem_of_parameter? (h.known _ rfl)).1
      have hne : ∀ name ∈ reservedNames, p.name ≠ name := fun name hreserved heq =>
        haccepted.notReserved (heq ▸ hreserved)
      simp [Item.key, Key.name, Item.target?, hne "user" (by decide),
        hne "sys-prefix" (by decide), hne "legacy" (by decide), hne "prefix" (by decide)]
    | true => simp [Item.key, Key.name, Item.target?]
  | held held value attached =>
    cases held with
    | location => simp [Item.key, Key.name, Held.name, Item.target?, hvalue value rfl]
    | python => simp [Item.key, Key.name, Held.name, Item.target?]
    | manifest => simp [Item.key, Key.name, Held.name, Item.target?]
  | switch s =>
    obtain rfl := hnone rfl
    cases s <;> simp [Item.key, Key.name, Switch.name, Item.target?, Switch.target?]

/-- The first item chooses its registry, if it does choose one. -/
theorem writtenRegistries_item (hm : m.check = .ok ()) (h : item.Taken m) (rest : List Bytes) :
    writtenRegistries (item.words ++ rest) = item.target?.toList ++ writtenRegistries rest := by
  have hescape : ∀ v, dash :: dash :: assigned (encode item.key.name) v ≠ [dash, dash] := by
    intro v heq
    have hshape := Progress.shape_of_name (h.isOptionName hm).1 v
    rw [heq] at hshape
    cases hshape
  have hfirst : ∀ v arguments, (∀ value, item.value? = some value →
      v.or arguments.head? = some value) → (item.value? = none → v = none) →
      writtenRegistries ((dash :: dash :: assigned (encode item.key.name) v) :: arguments) =
        item.target?.toList ++ writtenRegistries arguments := by
    intro v arguments hsome hnone
    rw [writtenRegistries, if_neg (hescape v), chosen?_item hm h hsome hnone]
  cases hvalue : item.value? with
  | some value =>
    rw [hvalue] at hfirst
    cases hattached : item.isAttached with
    | true =>
      rw [words_attached hvalue hattached]
      exact hfirst (some value) rest (fun _ heq => heq) (fun heq => nomatch heq)
    | false =>
      have hskip : writtenRegistries (value :: rest) = writtenRegistries rest :=
        writtenRegistries_plain (standsAlone_iff.1 (h.standsAlone value hvalue hattached))
      rw [words_separate hvalue hattached, ← hskip]
      exact hfirst none (value :: rest) (fun _ heq => heq) (fun heq => nomatch heq)
  | none =>
    cases item with
    | switch s =>
      rw [words_switch]
      exact hfirst none rest (fun _ heq => nomatch heq) (fun _ => rfl)
    | setting p raw assigned attached => cases assigned <;> cases hvalue
    | held held value attached => cases hvalue

/-- **The registries that are chosen in the arguments are those of the items**, in their order. -/
theorem writtenRegistries_words (hm : m.check = .ok ()) {items : List Item}
    (h : ∀ item ∈ items, item.Taken m) {ending : List Bytes}
    (hending : ending = [] ∨ ending = [[dash, dash]]) :
    writtenRegistries (items.flatMap Item.words ++ ending) = items.filterMap Item.target? := by
  induction items with
  | nil => rcases hending with rfl | rfl <;> rfl
  | cons item items ih =>
    rw [List.flatMap_cons, List.append_assoc,
      writtenRegistries_item hm (h item List.mem_cons_self),
      ih fun x hx => h x (List.mem_cons_of_mem _ hx)]
    cases hitem : item.target? with
    | none =>
      rw [List.filterMap_cons_none hitem]
      rfl
    | some r =>
      rw [List.filterMap_cons_some hitem]
      rfl

end Scan

/-! ## What was given -/

/-- The registry that an option chooses that was given. -/
def Occurrence.target? : Occurrence → Option Registry
  | switch s => s.target?
  | held .location value => some (.below ⟨value⟩)
  | _ => none

/-- The directory that a registry is below. -/
def directory? : Registry → Option Path
  | .below p => some p
  | _ => none

/-- The registry that is preferred among several. -/
def preferred (registries : List Registry) : Registry :=
  if registries.contains .user then .user
  else if registries.contains .interpreter then .interpreter
  else if registries.contains .legacy then .legacy
  else
    match registries.findSome? directory? with
    | some p => if p.isEmpty then .system else .below p
    | none => .system

section Given

variable {m : Manifest} {items : List Item} {given : List Occurrence}

theorem target?_occurrence (item : Item) (position : Nat) :
    (item.occurrence position).target? = item.target? := by
  cases item with
  | setting p raw assigned attached => cases assigned <;> rfl
  | held held value attached => cases held <;> rfl
  | switch s => rfl

theorem filterMap_target? (start : Nat) (items : List Item) :
    (Item.occurrences start items).filterMap Occurrence.target? =
      items.filterMap Item.target? := by
  induction items generalizing start with
  | nil => rfl
  | cons item items ih =>
    rw [Item.occurrences, List.filterMap_cons, List.filterMap_cons, target?_occurrence, ih]

/-- Different options choose different registries. -/
theorem eq_switch {s : Switch} {r : Registry} {o : Occurrence} (hs : s.target? = some r)
    (ho : o.target? = some r) : o = .switch s := by
  cases o with
  | switch s' => cases s <;> cases hs <;> cases s' <;> first | rfl | cases ho
  | held held value => cases s <;> cases hs <;> cases held <;> cases ho
  | assignment position name value => cases ho
  | parameter position name raw => cases ho

/-- A switch was given exactly if its registry was chosen. -/
theorem contains_switch {s : Switch} {r : Registry} (hs : s.target? = some r)
    (given : List Occurrence) :
    given.contains (.switch s) = (given.filterMap Occurrence.target?).contains r := by
  rw [Bool.eq_iff_iff, List.contains_iff_mem, List.contains_iff_mem, List.mem_filterMap]
  constructor
  · intro h
    exact ⟨_, h, hs⟩
  · rintro ⟨o, ho, hr⟩
    exact eq_switch hs hr ▸ ho

theorem heldValue?_location (given : List Occurrence) :
    (heldValue? given .location).map Path.mk =
      (given.filterMap Occurrence.target?).findSome? directory? := by
  induction given with
  | nil => rfl
  | cons o given ih =>
    cases o with
    | switch s => cases s <;> exact ih
    | held held value =>
      cases held with
      | location => rfl
      | python => exact ih
      | manifest => exact ih
    | assignment position name value => exact ih
    | parameter position name raw => exact ih

/-- **The preference among the options** is one among the registries that were chosen. -/
theorem Arguments.registry_of (given : List Occurrence) :
    (Arguments.of given).registry = preferred (given.filterMap Occurrence.target?) := by
  have huser : Switch.user.target? = some .user := rfl
  have hinterpreter : Switch.sysPrefix.target? = some .interpreter := rfl
  have hlegacy : Switch.legacy.target? = some .legacy := rfl
  rw [preferred, ← contains_switch huser, ← contains_switch hinterpreter, ← contains_switch hlegacy,
    ← heldValue?_location]
  rfl

/-- Without another one, every registry is preferred. -/
theorem preferred_singleton (r : Registry) : preferred [r] = meant r := by
  cases r <;> rfl

/-- The options that choose a registry are those that are counted. -/
theorem length_registries (given : List Occurrence) :
    (given.filterMap Occurrence.target?).length =
      ((given.filter (·.choosesLocation)).filterMap (·.once?)).length := by
  induction given with
  | nil => rfl
  | cons o given ih =>
    cases o with
    | switch s => cases s <;> first | exact ih | exact congrArg Nat.succ ih
    | held held value => cases held <;> first | exact ih | exact congrArg Nat.succ ih
    | assignment position name value => exact ih
    | parameter position name raw => exact ih

/-- **More than one registry is refused.** -/
theorem length_registries_le {u : Unit} (h : checkLocations given = .ok u) :
    (given.filterMap Occurrence.target?).length ≤ 1 := by
  rw [length_registries]
  rw [checkLocations] at h
  generalize (given.filter (·.choosesLocation)).filterMap (·.once?) = options at h ⊢
  rcases options with - | ⟨first, - | ⟨other, others⟩⟩
  · exact Nat.zero_le 1
  · exact Nat.le_refl 1
  · cases h

/-- **Accepted command lines choose at most one registry.**  It is that of the only option for it in
the arguments, wherever it stands, with the bytes of a directory as they were written, or else the
one that all users share; and it is the one that the kernel is installed in.  However the arguments
were written, the values of other options do not choose one. -/
theorem registry_of_accepted {argv : List Bytes} {invocation : Invocation}
    (hm : m.check = .ok ()) (h : Invocation.parse m argv = .ok invocation) :
    (writtenRegistries argv.tail = [] ∧ invocation.arguments.registry = .system ∨
      ∃ r, writtenRegistries argv.tail = [r] ∧ invocation.arguments.registry = meant r) ∧
    (∀ machine request, Request.of machine m invocation = .ok request →
      request.registry = invocation.arguments.registry) ∧
    (∃ items, WrittenAs m items argv.tail) ∧
    ∀ items, WrittenAs m items argv.tail →
      writtenRegistries argv.tail = items.filterMap Item.target? := by
  obtain ⟨given, hgiven, h⟩ := of_bind_eq_ok h
  cases h
  obtain ⟨items, ending, htaken, hitems, harguments, hending⟩ := exists_items hm hgiven
  have hwritten : writtenRegistries argv.tail = given.filterMap Occurrence.target? := by
    rw [harguments, writtenRegistries_words hm htaken hending, hitems, filterMap_target?]
  refine ⟨?_, ?_, ⟨items, htaken, ending, hending, harguments⟩, ?_⟩
  · obtain ⟨p, -, hchecked⟩ := of_bind_eq_ok hgiven
    obtain ⟨settled, -, hchecked⟩ := of_bind_eq_ok hchecked
    obtain ⟨u, hlocations, hchecked⟩ := of_bind_eq_ok hchecked
    cases hchecked
    have hlength := length_registries_le hlocations
    rw [hwritten, Arguments.registry_of]
    generalize given.filterMap Occurrence.target? = registries at hlength ⊢
    rcases registries with - | ⟨r, - | ⟨r', rs⟩⟩
    · exact .inl ⟨rfl, rfl⟩
    · exact .inr ⟨r, rfl, preferred_singleton r⟩
    · simp at hlength
  · intro machine request hrequest
    obtain ⟨environment, -, hrequest⟩ := of_bind_eq_ok hrequest
    obtain ⟨u, -, hrequest⟩ := of_bind_eq_ok hrequest
    cases hrequest
    rfl
  · rintro items' ⟨htaken', ending', hending', harguments'⟩
    rw [harguments']
    exact writtenRegistries_words hm htaken' hending'

end Given

namespace Sample

/-- A directory between two settings, the second of which has the name of an option in it. -/
def prefixArguments : List Bytes :=
  ["install", "--level", "high", "--prefix", "/opt/env", "--paths=--user"].map encode

def prefixInvocation : Invocation where
  arguments := {
    user := false, sysPrefix := false, location := some (.ofString "/opt/env"), legacy := false,
    replace := false, python := none, manifest := none, assignments := [], debug := false }
  settings := [⟨1, "level", "high"⟩, ⟨4, "paths", "--user"⟩]

theorem parse_prefix : Invocation.parse leveled prefixArguments = .ok prefixInvocation := by
  decide +kernel

end Sample

open CommandLine.Sample in
/-- The directory is chosen, and not the registry of the user. -/
theorem registry_of_accepted_prefix :
    leveled.check = .ok () ∧ Invocation.parse leveled prefixArguments = .ok prefixInvocation ∧
      writtenRegistries prefixArguments.tail = [.below (.ofString "/opt/env")] ∧
      prefixInvocation.arguments.registry = .below (.ofString "/opt/env") := by
  have hwritten : writtenRegistries prefixArguments.tail = [.below (.ofString "/opt/env")] := by
    decide
  obtain ⟨hchosen, -⟩ := registry_of_accepted check_leveled parse_prefix
  rw [hwritten] at hchosen
  rcases hchosen with ⟨hnil, -⟩ | ⟨r, hr, hregistry⟩
  · cases hnil
  · cases hr
    exact ⟨check_leveled, parse_prefix, hwritten, hregistry⟩

end CommandLine
end KernelRegistry
