import KernelRegistry.Proofs.Decimal.Numeral
import KernelRegistry.Proofs.Manifest

/-!
# What is demanded of a manifest, and in which order

The check of a manifest stops at the first thing it does not like.  Here everything it looks for is
listed in order, each demand with the defect that is reported where it is broken: first the name of
the kernel, then one parameter after the other.

* `Demand`, `FirstBroken`, `Decides` — demands with their faults, the first one that is broken, and
  checks that report it.
* `HasForm` — texts of a first character and further ones; `isKernelName_iff`, `isVariableName_iff`
  and `isOptionName_iff` say which characters the tests of names let pass.
* `Suits` — the values of a kind.
* `Parameter.demands`, `Manifest.demands` — what is demanded.
* `Parameter.WellFormed`, `Manifest.WellFormed` — what it comes to, in no order.
* `Manifest.check_iff` — **the well-formed manifests are accepted, and any other one is refused with
  the fault of the first broken demand**.
-/

set_option autoImplicit false
namespace KernelRegistry

/-! ## Demands -/

/-- A condition, and the fault that is reported where it is broken. -/
structure Demand (ε : Type) where
  holds : Prop
  fault : ε

namespace Demand

variable {ε ε' : Type} {ds ds' : List (Demand ε)} {d : Demand ε} {x y : Except ε Unit} {fault : ε}

/-- The same demand, with its fault reported in another way. -/
def reportedAs (report : ε → ε') (d : Demand ε) : Demand ε' := ⟨d.holds, report d.fault⟩

/-- The first demand that is broken. -/
def FirstBroken (d : Demand ε) (ds : List (Demand ε)) : Prop :=
  ∃ before after, ds = before ++ d :: after ∧ (∀ e ∈ before, e.holds) ∧ ¬ d.holds

/-- The outcome says whether all demands hold, and reports the first one that is broken.  Checks
that are made one after the other decide their demands in this order. -/
structure Decides (x : Except ε Unit) (ds : List (Demand ε)) : Prop where
  ok : (∀ d ∈ ds, d.holds) → x = .ok ()
  error : ∀ d, FirstBroken d ds → x = .error d.fault

theorem FirstBroken.mem (h : FirstBroken d ds) : d ∈ ds ∧ ¬ d.holds := by
  obtain ⟨before, after, rfl, -, hbroken⟩ := h
  exact ⟨by simp, hbroken⟩

/-- Either all demands hold or there is a first one that is broken. -/
theorem all_or_exists_firstBroken (ds : List (Demand ε)) :
    (∀ d ∈ ds, d.holds) ∨ ∃ d, FirstBroken d ds := by
  induction ds with
  | nil => exact .inl fun d hd => (List.not_mem_nil hd).elim
  | cons d ds ih =>
    by_cases hd : d.holds
    · rcases ih with hall | ⟨e, before, after, rfl, hbefore, hbroken⟩
      · exact .inl (List.forall_mem_cons.2 ⟨hd, hall⟩)
      · exact .inr ⟨e, d :: before, after, rfl, List.forall_mem_cons.2 ⟨hd, hbefore⟩, hbroken⟩
    · exact .inr ⟨d, [], ds, rfl, fun e he => (List.not_mem_nil he).elim, hd⟩

/-- The first demand that is broken is the first one of the front part, or that part holds. -/
theorem firstBroken_append :
    FirstBroken d (ds ++ ds') ↔
      FirstBroken d ds ∨ (∀ e ∈ ds, e.holds) ∧ FirstBroken d ds' := by
  constructor
  · rintro ⟨before, after, heq, hbefore, hbroken⟩
    rcases List.append_eq_append_iff.1 heq with ⟨more, rfl, rfl⟩ | ⟨more, rfl, hmore⟩
    · obtain ⟨hds, hmore⟩ := List.forall_mem_append.1 hbefore
      exact .inr ⟨hds, more, after, rfl, hmore, hbroken⟩
    · cases more with
      | nil =>
        rw [List.append_nil]
        exact .inr ⟨hbefore, [], after, hmore.symm, fun e he => (List.not_mem_nil he).elim, hbroken⟩
      | cons e more =>
        obtain ⟨rfl, rfl⟩ := List.cons.inj hmore
        exact .inl ⟨before, more, rfl, hbefore, hbroken⟩
  · rintro (⟨before, after, rfl, hbefore, hbroken⟩ | ⟨hds, before, after, rfl, hbefore, hbroken⟩)
    · exact ⟨before, after ++ ds', by simp, hbefore, hbroken⟩
    · exact ⟨ds ++ before, after, by simp, List.forall_mem_append.2 ⟨hds, hbefore⟩, hbroken⟩

namespace Decides

theorem eq_ok_iff (h : Decides x ds) : x = .ok () ↔ ∀ d ∈ ds, d.holds := by
  refine ⟨fun hok => ?_, h.ok⟩
  rcases all_or_exists_firstBroken ds with hall | ⟨d, hd⟩
  · exact hall
  · rw [h.error d hd] at hok
    cases hok

theorem eq_error_iff (h : Decides x ds) :
    x = .error fault ↔ ∃ d, FirstBroken d ds ∧ d.fault = fault := by
  constructor
  · intro herror
    rcases all_or_exists_firstBroken ds with hall | ⟨d, hd⟩
    · rw [h.ok hall] at herror
      cases herror
    · rw [h.error d hd] at herror
      exact ⟨d, hd, Except.error.inj herror⟩
  · rintro ⟨d, hd, rfl⟩
    exact h.error d hd

theorem nil : Decides (.ok ()) ([] : List (Demand ε)) :=
  ⟨fun _ => rfl, fun _ hd => (List.not_mem_nil hd.mem.1).elim⟩

/-- One demand after another. -/
theorem bind (h : Decides x ds) (h' : Decides y ds') :
    Decides (x >>= fun _ => y) (ds ++ ds') := by
  constructor
  · intro hall
    obtain ⟨hds, hds'⟩ := List.forall_mem_append.1 hall
    rw [h.ok hds]
    exact h'.ok hds'
  · intro d hd
    rcases firstBroken_append.1 hd with hd | ⟨hds, hd⟩
    · rw [h.error d hd]
      rfl
    · rw [h.ok hds]
      exact h'.error d hd

/-- One more demand in front. -/
theorem cons {holds : Prop} (h : Decides x [⟨holds, fault⟩]) (h' : Decides y ds') :
    Decides (x >>= fun _ => y) (⟨holds, fault⟩ :: ds') :=
  h.bind h'

theorem of_iff {holds : Prop} (hok : holds → x = .ok ()) (herror : ¬ holds → x = .error fault) :
    Decides x [⟨holds, fault⟩] := by
  refine ⟨fun hall => hok (hall _ (List.mem_singleton.2 rfl)), fun d hd => ?_⟩
  obtain ⟨hmem, hbroken⟩ := hd.mem
  obtain rfl := List.mem_singleton.1 hmem
  exact herror hbroken

theorem reportedAs (report : ε → ε') (h : Decides x ds) :
    Decides (x.mapError report) (ds.map (.reportedAs report)) := by
  constructor
  · intro hall
    rw [h.ok fun d hd => hall _ (List.mem_map_of_mem hd)]
    rfl
  · rintro d ⟨before, after, heq, hbefore, hbroken⟩
    obtain ⟨front, back, rfl, rfl, hback⟩ := List.map_eq_append_iff.1 heq
    obtain ⟨d, rest, rfl, rfl, -⟩ := List.map_eq_cons_iff.1 hback
    rw [h.error d ⟨front, rest, rfl, fun e he => hbefore _ (List.mem_map_of_mem he), hbroken⟩]
    rfl

end Decides
end Demand

/-! ## The forms of names -/

/-- A letter without an accent. -/
def Letter (c : Char) : Prop := ('a' ≤ c ∧ c ≤ 'z') ∨ ('A' ≤ c ∧ c ≤ 'Z')

/-- A decimal digit. -/
def Digit (c : Char) : Prop := '0' ≤ c ∧ c ≤ '9'

/-- A character of a registered name. -/
def RegistryChar (c : Char) : Prop :=
  ('a' ≤ c ∧ c ≤ 'z') ∨ Digit c ∨ c = '.' ∨ c = '_' ∨ c = '-'

/-- A first character and further ones, each of a class.  No text of this form is empty. -/
def HasForm (first more : Char → Prop) (s : String) : Prop :=
  ∃ c cs, s.toList = c :: cs ∧ first c ∧ ∀ d ∈ cs, more d

/-- The name of a kernel, whatever its case. -/
def IsKernelName (s : String) : Prop := HasForm RegistryChar RegistryChar (Text.lowercase s)

/-- The name of an environment variable. -/
def IsVariableName (s : String) : Prop :=
  HasForm (fun c => Letter c ∨ c = '_') (fun c => Letter c ∨ Digit c ∨ c = '_') s

/-- The name of an option. -/
def IsOptionName (s : String) : Prop :=
  HasForm Letter (fun c => Letter c ∨ Digit c ∨ c = '-' ∨ c = '_') s

section Forms

variable {c : Char} {s : String}

theorem isDigit_iff_digit : c.isDigit = true ↔ Digit c := Decimal.isDigit_iff

theorem isLower_iff : c.isLower = true ↔ 'a' ≤ c ∧ c ≤ 'z' := by
  change (decide (c.val ≥ 'a'.val) && decide (c.val ≤ 'z'.val)) = true ↔ _
  rw [Bool.and_eq_true, decide_eq_true_eq, decide_eq_true_eq]
  exact Iff.rfl

theorem isUpper_iff : c.isUpper = true ↔ 'A' ≤ c ∧ c ≤ 'Z' := by
  change decide (c.val ≥ 'A'.val ∧ c.val ≤ 'Z'.val) = true ↔ _
  rw [decide_eq_true_eq]
  exact Iff.rfl

theorem isAlpha_iff : c.isAlpha = true ↔ Letter c := by
  change (c.isUpper || c.isLower) = true ↔ _
  rw [Bool.or_eq_true, isUpper_iff, isLower_iff]
  exact or_comm

theorem isAlphanum_iff : c.isAlphanum = true ↔ Letter c ∨ Digit c := by
  rw [Char.isAlphanum, Bool.or_eq_true, isAlpha_iff, isDigit_iff_digit]

theorem isRegistryChar_iff : isRegistryChar c = true ↔ RegistryChar c := by
  simp only [isRegistryChar, RegistryChar, Bool.or_eq_true, decide_eq_true_eq, isLower_iff,
    isDigit_iff_digit, or_assoc]

theorem hasForm_iff {first more : Char → Bool} {First More : Char → Prop}
    (hfirst : ∀ c, first c = true ↔ First c) (hmore : ∀ c, more c = true ↔ More c) :
    hasForm first more s = true ↔ HasForm First More s := by
  rw [hasForm]
  split
  · next c cs heq =>
    rw [Bool.and_eq_true, hfirst, List.all_eq_true]
    constructor
    · rintro ⟨hc, hcs⟩
      exact ⟨c, cs, heq, hc, fun d hd => (hmore d).1 (hcs d hd)⟩
    · rintro ⟨c', cs', heq', hc, hcs⟩
      obtain ⟨rfl, rfl⟩ := List.cons.inj (heq.symm.trans heq')
      exact ⟨hc, fun d hd => (hmore d).2 (hcs d hd)⟩
  · next heq =>
    refine iff_of_false Bool.false_ne_true ?_
    rintro ⟨c, cs, heq', -, -⟩
    rw [heq] at heq'
    cases heq'

theorem isKernelName_iff : isKernelName s = true ↔ IsKernelName s :=
  hasForm_iff (fun _ => isRegistryChar_iff) fun _ => isRegistryChar_iff

theorem isVariableName_iff : isVariableName s = true ↔ IsVariableName s :=
  hasForm_iff (fun c => by simp [isAlpha_iff]) fun c => by simp [isAlphanum_iff, or_assoc]

theorem isOptionName_iff : isOptionName s = true ↔ IsOptionName s :=
  hasForm_iff (fun _ => isAlpha_iff) fun c => by simp [isAlphanum_iff, or_assoc]

end Forms

/-! ## One parameter -/

/-- The values of a kind: numerals with blanks around them, the values to choose from, any text. -/
def Suits : Kind → String → Prop
  | .number, value => Decimal.Numeral (Text.trim value).toList
  | .oneOf values, value => value ∈ values
  | .string, _ | .list _, _ => True

namespace Parameter

variable {p : Parameter} {kind : Kind} {value : String} {condition : Bool} {refusal : Refusal}

/-- The demands on a value, of which there is one at most. -/
def valueDemands : Kind → String → List (Demand Refusal)
  | .number, value => [⟨Suits .number value, .notNumber value⟩]
  | .oneOf values, value => [⟨Suits (.oneOf values) value, .notAmong values value⟩]
  | .string, _ | .list _, _ => []

/-- The demands on a default.  A default that is an alias stands for the value of the alias, so the
demand is on that value and not on the alias. -/
def defaultDemands (p : Parameter) : List (Demand Refusal) :=
  match p.defaultValue with
  | some raw =>
    match p.aliases.get? raw with
    | some value => valueDemands p.kind value
    | none => valueDemands p.kind raw
  | none => []

/-- The demands on a declaration, in the order in which they are looked at. -/
def demands (p : Parameter) : List (Demand Refusal) :=
  ⟨IsVariableName p.variableName, .badVariable p.variableName⟩ ::
  ⟨IsOptionName p.name, .badName⟩ ::
  ⟨p.name ∉ reservedNames, .reservedName⟩ ::
  ⟨p.kind ≠ .oneOf [], .noValues⟩ ::
  p.defaultDemands

/-- A declaration that is as it should be. -/
structure WellFormed (p : Parameter) : Prop where
  variableName : IsVariableName p.variableName
  name : IsOptionName p.name
  notReserved : p.name ∉ reservedNames
  hasValues : p.kind ≠ .oneOf []
  /-- A default that is no alias has to be a value of the kind. -/
  plainDefault : ∀ raw, p.defaultValue = some raw → p.aliases.get? raw = none → Suits p.kind raw
  /-- The alias itself need not be one: a number can be called by a word. -/
  aliasedDefault : ∀ raw, p.defaultValue = some raw → ∀ value, p.aliases.get? raw = some value →
    Suits p.kind value

theorem forall_valueDemands_iff : (∀ d ∈ valueDemands kind value, d.holds) ↔ Suits kind value := by
  cases kind <;> simp [valueDemands, Suits]

theorem forall_defaultDemands_iff : (∀ d ∈ p.defaultDemands, d.holds) ↔
    (∀ raw, p.defaultValue = some raw → p.aliases.get? raw = none → Suits p.kind raw) ∧
      ∀ raw, p.defaultValue = some raw → ∀ value, p.aliases.get? raw = some value →
        Suits p.kind value := by
  rw [defaultDemands]
  split
  · next raw hdefault =>
    split
    · next value halias => simp [forall_valueDemands_iff, hdefault, halias]
    · next halias => simp [forall_valueDemands_iff, hdefault, halias]
  · next hdefault => simp [hdefault]

theorem forall_demands_iff : (∀ d ∈ p.demands, d.holds) ↔ p.WellFormed := by
  simp only [demands, List.forall_mem_cons, forall_defaultDemands_iff]
  constructor
  · rintro ⟨hvariable, hname, hreserved, hvalues, hplain, haliased⟩
    exact ⟨hvariable, hname, hreserved, hvalues, hplain, haliased⟩
  · rintro ⟨hvariable, hname, hreserved, hvalues, hplain, haliased⟩
    exact ⟨hvariable, hname, hreserved, hvalues, hplain, haliased⟩

/-! ### The check of a declaration -/

theorem accept_decides (kind : Kind) (value : String) :
    Demand.Decides (accept kind value) (valueDemands kind value) := by
  cases kind with
  | string => exact .nil
  | list separator => exact .nil
  | number =>
    rw [accept, valueDemands]
    exact .of_iff (fun h => if_pos (Decimal.isNumeral_iff.2 h)) fun h =>
      if_neg (mt Decimal.isNumeral_iff.1 h)
  | oneOf values =>
    rw [accept, valueDemands]
    exact .of_iff (fun h => if_pos (List.contains_iff_mem.2 h)) fun h =>
      if_neg (mt List.contains_iff_mem.1 h)

/-- Refusing on a condition demands that it does not hold. -/
theorem refuseIf_decides {holds : Prop} (h : condition = false ↔ holds) :
    Demand.Decides (refuseIf condition refusal) [⟨holds, refusal⟩] := by
  cases condition with
  | false => exact .of_iff (fun _ => rfl) fun hnot => absurd (h.1 rfl) hnot
  | true => exact .of_iff (fun hholds => nomatch h.2 hholds) fun _ => rfl

theorem checkDefault_decides (p : Parameter) :
    Demand.Decides (match p.defaultValue with
      | some value => (p.resolve value).map fun _ => ()
      | none => .ok ()) p.defaultDemands := by
  rw [defaultDemands]
  split
  · next raw heq =>
    have hsame : ((p.resolve raw).map fun _ => ()) = accept p.kind (p.expand raw) := by
      rw [resolve]
      cases accept p.kind (p.expand raw) <;> rfl
    rw [hsame, expand]
    split
    · next value halias =>
      rw [halias]
      exact accept_decides _ _
    · next halias =>
      rw [halias]
      exact accept_decides _ _
  · exact .nil

theorem check_decides (p : Parameter) : Demand.Decides p.check p.demands := by
  have hvariable : (!isVariableName p.variableName) = false ↔ IsVariableName p.variableName := by
    rw [← isVariableName_iff, Bool.not_eq_false']
  have hname : (!isOptionName p.name) = false ↔ IsOptionName p.name := by
    rw [← isOptionName_iff, Bool.not_eq_false']
  have hreserved : reservedNames.contains p.name = false ↔ p.name ∉ reservedNames := by
    rw [← List.contains_iff_mem, Bool.not_eq_true]
  have hvalues : decide (p.kind = .oneOf []) = false ↔ p.kind ≠ .oneOf [] := decide_eq_false_iff_not
  exact .cons (refuseIf_decides hvariable) <| .cons (refuseIf_decides hname) <|
    .cons (refuseIf_decides hreserved) <| .cons (refuseIf_decides hvalues) p.checkDefault_decides

end Parameter

/-! ## All of a manifest -/

namespace Manifest

variable {m : Manifest} {before : List String} {parameters : List Parameter}

/-- The demands on a parameter that stands after others with the given names. -/
def parameterDemands (before : List String) (p : Parameter) : List (Demand Defect) :=
  (p.demands ++ [Demand.mk (p.name ∉ before) Refusal.declaredTwice]).map
    (.reportedAs (.parameter p.name))

/-- The demands on all parameters, in the order of their declarations. -/
def parametersDemands (before : List String) : List Parameter → List (Demand Defect)
  | [] => []
  | p :: ps => parameterDemands before p ++ parametersDemands (p.name :: before) ps

/-- The demands on a manifest: its name comes before its parameters. -/
def demands (m : Manifest) : List (Demand Defect) :=
  ⟨IsKernelName m.kernelName, .badKernelName m.kernelName⟩ :: parametersDemands [] m.parameters

/-- A manifest that is as it should be. -/
structure WellFormed (m : Manifest) : Prop where
  kernelName : IsKernelName m.kernelName
  parameters : ∀ p ∈ m.parameters, p.WellFormed
  /-- Different declarations have different names. -/
  distinct : m.parameters.Pairwise fun p q => p.name ≠ q.name

theorem forall_parameterDemands_iff {p : Parameter} :
    (∀ d ∈ parameterDemands before p, d.holds) ↔ p.WellFormed ∧ p.name ∉ before := by
  rw [parameterDemands, List.forall_mem_map]
  show (∀ d ∈ p.demands ++ [_], d.holds) ↔ _
  rw [List.forall_mem_append, Parameter.forall_demands_iff]
  simp

theorem forall_parametersDemands_iff : (∀ d ∈ parametersDemands before parameters, d.holds) ↔
    (∀ p ∈ parameters, p.WellFormed ∧ p.name ∉ before) ∧
      parameters.Pairwise fun p q => p.name ≠ q.name := by
  induction parameters generalizing before with
  | nil => simp [parametersDemands]
  | cons p ps ih =>
    rw [parametersDemands, List.forall_mem_append, forall_parameterDemands_iff, ih,
      List.forall_mem_cons, List.pairwise_cons]
    simp only [List.mem_cons, not_or]
    constructor
    · rintro ⟨hp, hps, hdistinct⟩
      exact ⟨⟨hp, fun q hq => ⟨(hps q hq).1, (hps q hq).2.2⟩⟩,
        fun q hq => Ne.symm (hps q hq).2.1, hdistinct⟩
    · rintro ⟨⟨hp, hps⟩, hne, hdistinct⟩
      exact ⟨hp, fun q hq => ⟨(hps q hq).1, Ne.symm (hne q hq), (hps q hq).2⟩, hdistinct⟩

theorem forall_demands_iff : (∀ d ∈ m.demands, d.holds) ↔ m.WellFormed := by
  rw [demands, List.forall_mem_cons, forall_parametersDemands_iff]
  constructor
  · rintro ⟨hname, hparameters, hdistinct⟩
    exact ⟨hname, fun p hp => (hparameters p hp).1, hdistinct⟩
  · rintro ⟨hname, hparameters, hdistinct⟩
    exact ⟨hname, fun p hp => ⟨hparameters p hp, List.not_mem_nil⟩, hdistinct⟩

/-- The check of one parameter and of the rest, as two steps. -/
theorem checkParameters_cons (before : List String) (p : Parameter) (ps : List Parameter) :
    checkParameters before (p :: ps) =
      ((p.check >>= fun _ => Parameter.refuseIf (before.contains p.name) .declaredTwice).mapError
        (.parameter p.name) >>= fun _ => checkParameters (p.name :: before) ps) := by
  rw [checkParameters, Parameter.refuseIf]
  cases p.check with
  | error refusal => rfl
  | ok u =>
    by_cases hbefore : before.contains p.name = true
    · rw [if_pos hbefore]
      simp only [hbefore, if_true]
      rfl
    · rw [if_neg hbefore]
      simp only [hbefore]
      rfl

theorem checkParameters_decides (before : List String) (parameters : List Parameter) :
    Demand.Decides (checkParameters before parameters) (parametersDemands before parameters) := by
  induction parameters generalizing before with
  | nil => exact .nil
  | cons p ps ih =>
    rw [checkParameters_cons]
    exact .bind (.reportedAs _ (p.check_decides.bind (Parameter.refuseIf_decides (by simp)))) (ih _)

theorem check_decides (m : Manifest) : Demand.Decides m.check m.demands := by
  have hcheck : m.check = ((if isKernelName m.kernelName then .ok () else
      .error (.badKernelName m.kernelName)) >>= fun _ => checkParameters [] m.parameters) := by
    rw [check]
    split <;> rfl
  rw [hcheck]
  refine .cons (.of_iff (fun h => if_pos ?_) fun h => if_neg ?_)
    (checkParameters_decides [] m.parameters)
  · exact isKernelName_iff.2 h
  · exact mt isKernelName_iff.1 h

/-- **The well-formed manifests are accepted**, and any other one is refused with the fault of the
first broken demand. -/
theorem check_iff (m : Manifest) : (m.check = .ok () ↔ m.WellFormed) ∧
    ∀ defect, m.check = .error defect ↔
      ∃ d, Demand.FirstBroken d m.demands ∧ d.fault = defect :=
  ⟨m.check_decides.eq_ok_iff.trans forall_demands_iff, fun _ => m.check_decides.eq_error_iff⟩

end Manifest
end KernelRegistry
