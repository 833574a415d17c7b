import KernelRegistry.Parameter.Reader
import KernelRegistry.Proofs.Presentation.Members

/-!
# Declarations of parameters by their members

A declaration is read twice: the members of all kinds as they come, the others afterwards from the
documents that were kept.  Which of those matter depends on the kind, whose name may come last.

* `Kind.Shown`, `Parameter.Shown` — what the members of an object have to show.
* `Kind.ofMembers_of_shown` — the kind is found among kept members in any order.
* `Parameter.takes_shown` — **an object that shows a declaration is read as it.**
* `Parameter.shown_writtenMembers` — what is written shows it.
-/

set_option autoImplicit false
namespace KernelRegistry

open Json

/-! ## Kinds -/

namespace Kind

section Tag

variable {name : String} {v : Json} {tag : Tag} {members : List (String × Json)}

theorem splitTag_of_not_mem {found : Option Tag} (h : "type" ∉ members.map Prod.fst) :
    splitTag found members = .ok (found, members) := by
  induction members with
  | nil => rfl
  | cons m members ih =>
    obtain ⟨hkey, hrest⟩ := not_or.1 (List.mem_cons.not.1 h)
    rw [splitTag.eq_def]
    simp only
    rw [if_neg (Ne.symm hkey), ih hrest]
    rfl

/-- The name of the kind is found wherever it is, and the other members are kept. -/
theorem splitTag_of_lookup (honce : AtMostOnce "type" members)
    (h : Entries.lookup "type" members = some v) (htag : Tag.ofDocument v = .ok tag) :
    splitTag none members = .ok (some tag, members.filter fun m => m.1 ≠ "type") := by
  induction members with
  | nil => cases h
  | cons m members ih =>
    rw [Entries.lookup_cons] at h
    rw [splitTag, List.filter_cons]
    split
    · next hkey =>
      rw [if_pos hkey] at h
      cases h
      have hrest : "type" ∉ members.map Prod.fst := hkey ▸ (hkey ▸ honce).of_cons
      have hfilter : members.filter (fun m => m.1 ≠ "type") = members :=
        List.filter_eq_self.2 fun n hn =>
          decide_eq_true fun hname => hrest (hname ▸ List.mem_map_of_mem hn)
      rw [htag, if_neg (by simp [hkey]), hfilter]
      exact splitTag_of_not_mem hrest
    · next hkey =>
      rw [if_neg hkey] at h
      rw [ih honce.tail h, if_pos (by simp [hkey])]
      rfl

variable {α : Type} {read : Json → Except Reason α} {a : α}

theorem only_of_not_mem {found : Option α} (h : name ∉ members.map Prod.fst) :
    only name read found members = .ok found := by
  induction members with
  | nil => rfl
  | cons m members ih =>
    obtain ⟨hkey, hrest⟩ := not_or.1 (List.mem_cons.not.1 h)
    rw [only.eq_def]
    simp only
    rw [if_neg (Ne.symm hkey), ih hrest]

theorem only_of_lookup (honce : AtMostOnce name members)
    (h : Entries.lookup name members = some v) (hread : read v = .ok a) :
    only name read none members = .ok (some a) := by
  induction members with
  | nil => cases h
  | cons m members ih =>
    rw [Entries.lookup_cons] at h
    rw [only]
    split
    · next hkey =>
      rw [if_pos hkey] at h
      cases h
      have hrest : name ∉ members.map Prod.fst := hkey ▸ (hkey ▸ honce).of_cons
      rw [hread]
      exact only_of_not_mem hrest
    · next hkey =>
      rw [if_neg hkey] at h
      exact ih honce.tail h

/-- A member that may be left out gives what it shows, or what is meant without it. -/
theorem only_of_shows {leftOut : α} (honce : AtMostOnce name members)
    (h : Shows (fun v => read v = .ok a) (a = leftOut) (Entries.lookup name members)) :
    ∃ found, only name read none members = .ok found ∧ found.getD leftOut = a := by
  cases hlookup : Entries.lookup name members with
  | none =>
    rw [hlookup] at h
    exact ⟨none, only_of_not_mem (Entries.lookup_eq_none_iff.1 hlookup), Eq.symm h⟩
  | some v =>
    rw [hlookup] at h
    exact ⟨some a, only_of_lookup honce hlookup h, rfl⟩

end Tag

theorem ofDocument_document (separator : Separator) :
    Separator.ofDocument separator.document = .ok separator := by
  cases separator with
  | path => rfl
  | file => rfl
  | literal text => rfl

theorem texts_map (values : List String) :
    Content.texts (.array (values.map .string)) = .ok values := by
  rw [Content.texts, List.mapM_map]
  induction values with
  | nil => rfl
  | cons value values ih =>
    rw [List.mapM_cons]
    simp only [Function.comp_apply, Content.text, bind, Except.bind] at ih ⊢
    rw [ih]
    rfl

/-- The names of the members that belong to the kind. -/
def memberNames : Kind → List String
  | .string | .number => ["type"]
  | .list _ => ["type", "separator"]
  | .oneOf _ => ["type", "values"]

/-- The members show the kind by its name and what else belongs to it. -/
def Shown (members : List (String × Json)) : Kind → Prop
  | .string => Entries.lookup "type" members = some (.string "string")
  | .number => Entries.lookup "type" members = some (.string "number")
  | .list separator => Entries.lookup "type" members = some (.string "list") ∧
      Shows (· = separator.document) (separator = defaultSeparator)
        (Entries.lookup "separator" members)
  | .oneOf values => Entries.lookup "type" members = some (.string "one_of") ∧
      Shows (ShowsTexts values) (values = []) (Entries.lookup "values" members)

/-- **The kind is found** among members in any order. -/
theorem ofMembers_of_shown {kind : Kind} {members : List (String × Json)}
    (honce : ∀ name ∈ kind.memberNames, AtMostOnce name members) (h : kind.Shown members) :
    ofMembers members = .ok kind := by
  have hsplit : ∀ {v : Json} {tag : Tag}, Entries.lookup "type" members = some v →
      Tag.ofDocument v = .ok tag → splitTag none members =
        .ok (some tag, members.filter fun m => m.1 ≠ "type") :=
    splitTag_of_lookup (honce "type" (by cases kind <;> exact List.mem_cons_self))
  have hothers : ∀ {name : String}, name ≠ "type" →
      Entries.lookup name (members.filter fun m => m.1 ≠ "type") = Entries.lookup name members :=
    fun hname => Entries.lookup_filter (p := fun key => key ≠ "type") (by simpa using hname) members
  rw [ofMembers]
  cases kind with
  | string =>
    rw [hsplit h rfl]
    rfl
  | number =>
    rw [hsplit h rfl]
    rfl
  | list separator =>
    obtain ⟨htag, hseparator⟩ := h
    have hshows : Shows (fun v => Separator.ofDocument v = .ok separator)
        (separator = defaultSeparator) (Entries.lookup "separator" members) :=
      hseparator.imp fun v hv => hv ▸ ofDocument_document separator
    rw [← hothers (by decide)] at hshows
    obtain ⟨found, honly, hfound⟩ :=
      only_of_shows ((honce "separator" (by simp [memberNames])).filter _) hshows
    rw [hsplit htag rfl]
    simp only [bind, Except.bind, honly, hfound]
    rfl
  | oneOf values =>
    obtain ⟨htag, hvalues⟩ := h
    have hshows : Shows (fun v => Content.texts v = .ok values) (values = [])
        (Entries.lookup "values" members) :=
      hvalues.imp fun v hv => hv ▸ texts_map values
    rw [← hothers (by decide)] at hshows
    obtain ⟨found, honly, hfound⟩ :=
      only_of_shows ((honce "values" (by simp [memberNames])).filter _) hshows
    rw [hsplit htag rfl]
    simp only [bind, Except.bind, honly, hfound]
    rfl

/-- Only what is found under its own names matters. -/
theorem Shown.of_lookup {kind : Kind} {members members' : List (String × Json)}
    (h : kind.Shown members) (hlookup : ∀ name ∈ kind.memberNames,
      Entries.lookup name members' = Entries.lookup name members) : kind.Shown members' := by
  cases kind with
  | string => exact (hlookup "type" (by simp [memberNames])).trans h
  | number => exact (hlookup "type" (by simp [memberNames])).trans h
  | list separator =>
    refine ⟨(hlookup "type" (by simp [memberNames])).trans h.1, ?_⟩
    rw [hlookup "separator" (by simp [memberNames])]
    exact h.2
  | oneOf values =>
    refine ⟨(hlookup "type" (by simp [memberNames])).trans h.1, ?_⟩
    rw [hlookup "values" (by simp [memberNames])]
    exact h.2

theorem separator_fits {P : Number → Prop} {depth : Nat} (separator : Separator) :
    Fits P (depth + 2) separator.document := by
  cases separator with
  | path => exact .string
  | file => exact .string
  | literal text =>
    refine .object fun m hm => ?_
    obtain rfl := List.mem_singleton.1 hm
    exact .string

/-- The members of a kind are nested no deeper than a list of texts, so the limit of the reader is
not in their way. -/
theorem Shown.fits {P : Number → Prop} {depth : Nat} {kind : Kind}
    {members : List (String × Json)} (h : kind.Shown members) {name : String} {v : Json}
    (hname : name ∈ kind.memberNames) (hlookup : Entries.lookup name members = some v) :
    Fits P (depth + 2) v := by
  have htag : ∀ {s : String}, name = "type" → Entries.lookup "type" members = some (.string s) →
      Fits P (depth + 2) v := by
    rintro s rfl hs
    rw [hlookup] at hs
    cases hs
    exact .string
  cases kind with
  | string => exact htag (List.mem_singleton.1 hname) h
  | number => exact htag (List.mem_singleton.1 hname) h
  | list separator =>
    rcases List.mem_cons.1 hname with hname | hname
    · exact htag hname h.1
    · obtain rfl := List.mem_singleton.1 hname
      obtain rfl := h.2.of_eq_some hlookup
      exact separator_fits separator
  | oneOf values =>
    rcases List.mem_cons.1 hname with hname | hname
    · exact htag hname h.1
    · obtain rfl := List.mem_singleton.1 hname
      obtain rfl := h.2.of_eq_some hlookup
      exact texts_fits values

end Kind

/-! ## Declarations -/

namespace Parameter

variable {p : Parameter} {depth : Nat} {members : List (String × Json)}

/-- The names of the members that a declaration can have. -/
def memberNames (p : Parameter) : List String :=
  ["name", "env_var", "description", "aliases", "default"] ++ p.kind.memberNames

/-- The members show the declaration: each of its own occurs at most once, in any order, and what
is absent or empty may be left out.  Others may stand among them, with fewer than `depth` brackets
open at a time. -/
structure Shown (depth : Nat) (p : Parameter) (members : List (String × Json)) : Prop where
  once : ∀ name ∈ p.memberNames, AtMostOnce name members
  name : Entries.lookup "name" members = some (.string p.name)
  variableName : Entries.lookup "env_var" members = some (.string p.variableName)
  kind : p.kind.Shown members
  description : Shows (ShowsText p.description) (p.description = none)
    (Entries.lookup "description" members)
  aliases : Shows (ShowsTable p.aliases) (p.aliases = .empty) (Entries.lookup "aliases" members)
  default : Shows (ShowsText p.defaultValue) (p.defaultValue = none)
    (Entries.lookup "default" members)
  others : ∀ m ∈ members, m.1 ∉ p.memberNames → Fits (fun _ => True) depth m.2

/-- The change that reading a member makes to the draft, if the members show the declaration. -/
def change (p : Parameter) (m : String × Json) (d : Draft) : Draft :=
  if m.1 = "name" then { d with name := some p.name }
  else if m.1 = "env_var" then { d with variableName := some p.variableName }
  else if m.1 = "description" then { d with description := p.description }
  else if m.1 = "aliases" then { d with aliases := p.aliases }
  else if m.1 = "default" then { d with defaultValue := p.defaultValue }
  else { d with others := d.others ++ [m] }

theorem has_iff {name : String} : fields.has name = true ↔
    name ∈ ["name", "env_var", "description", "aliases", "default"] := by
  simp [Fields.has, fields, Field.of, @eq_comm _ name]

theorem memberNames_not_has {name : String} (h : name ∈ p.kind.memberNames) :
    fields.has name = false := by
  have hall : ∀ name ∈ ["type", "separator", "values"], fields.has name = false := by decide
  have hkind : p.kind.memberNames ⊆ ["type", "separator", "values"] := by
    cases p.kind with
    | string => simp [Kind.memberNames]
    | number => simp [Kind.memberNames]
    | list separator => simp [Kind.memberNames]
    | oneOf values => simp [Kind.memberNames]
  exact hall name (hkind h)

/-- A member that is kept may be nested as deep as documents are read there. -/
theorem Shown.fits (h : p.Shown (depth + 2) members) {m : String × Json} (hm : m ∈ members)
    (hhas : fields.has m.1 = false) : Fits (fun _ => True) (depth + 2) m.2 := by
  by_cases hname : m.1 ∈ p.memberNames
  · have hkind : m.1 ∈ p.kind.memberNames := by
      refine (List.mem_append.1 hname).resolve_left fun hcommon => ?_
      rw [has_iff.2 hcommon] at hhas
      cases hhas
    exact h.kind.fits hkind ((h.once _ hname).lookup_eq hm)
  · exact h.others m hm hname

/-! ### Members -/

theorem takesMember_common {m : String × Json} {entry : String × (Draft → Draft)}
    (hhas : fields.has m.1 = true) (h : TakesMember fields.readMember fields.has m entry) :
    TakesMember (readMember depth) fields.has m entry := by
  refine ⟨h.1, fun before hfresh => ?_⟩
  have hreader : readMember depth before m.1 = fields.readMember before m.1 := if_pos hhas
  rw [hreader]
  exact h.2 before hfresh

theorem takesMember_kept {m : String × Json} (hhas : fields.has m.1 = false)
    (hfits : Fits (fun _ => True) depth m.2) :
    TakesMember (readMember depth) fields.has m
      (m.1, fun d => { d with others := d.others ++ [m] }) := by
  refine ⟨rfl, fun before _ k d hd => ?_⟩
  have hreader : readMember depth before m.1 = afterColon fun input =>
      (readValue depth input).map (·.map fun v (d : Draft) =>
        { d with others := d.others ++ [(m.1, v)] }) := by
    refine (if_neg (by rw [← Fields.has, hhas]; decide)).trans (congrArg afterColon ?_)
    funext input
    cases readValue depth input with
    | error failure => rfl
    | ok step => rfl
  rw [hreader]
  exact afterColon_complete (((takes_value hfits).map _) hd)

theorem Shown.takesMember (h : p.Shown (depth + 2) members) {m : String × Json} (hm : m ∈ members) :
    TakesMember (readMember (depth + 2)) fields.has m (m.1, p.change m) := by
  obtain ⟨key, v⟩ := m
  have hfound : key ∈ p.memberNames → Entries.lookup key members = some v :=
    fun hname => (h.once key hname).lookup_eq hm
  by_cases hname : key = "name"
  · subst hname
    have hv := h.name.symm.trans (hfound (by simp [memberNames]))
    cases hv
    exact takesMember_common rfl (takesMember_field rfl ((takes_text _ _).map _))
  by_cases hvariable : key = "env_var"
  · subst hvariable
    have hv := h.variableName.symm.trans (hfound (by simp [memberNames]))
    cases hv
    exact takesMember_common rfl (takesMember_field rfl ((takes_text _ _).map _))
  by_cases hdescription : key = "description"
  · subst hdescription
    have hv := h.description.of_eq_some (hfound (by simp [memberNames]))
    exact takesMember_common rfl (takesMember_field rfl ((takes_optional_text hv).map _))
  by_cases haliases : key = "aliases"
  · subst haliases
    have hv := h.aliases.of_eq_some (hfound (by simp [memberNames]))
    exact takesMember_common rfl (takesMember_field rfl ((takes_text_table hv).map _))
  by_cases hdefault : key = "default"
  · subst hdefault
    have hv := h.default.of_eq_some (hfound (by simp [memberNames]))
    exact takesMember_common rfl (takesMember_field rfl ((takes_optional_text hv).map _))
  · have hhas : fields.has key = false := by
      rw [← Bool.not_eq_true, has_iff]
      simp [hname, hvariable, hdescription, haliases, hdefault]
    have hchange : p.change (key, v) = fun d => { d with others := d.others ++ [(key, v)] } := by
      funext d
      simp [change, hname, hvariable, hdescription, haliases, hdefault]
    rw [hchange]
    exact takesMember_kept hhas (h.fits hm hhas)

/-! ### What is left of them -/

theorem change_others (p : Parameter) (m : String × Json) (d : Draft) :
    (p.change m d).others = if fields.has m.1 then d.others else d.others ++ [m] := by
  by_cases hhas : m.1 ∈ ["name", "env_var", "description", "aliases", "default"]
  · rw [if_pos (has_iff.2 hhas), change]
    simp only [List.mem_cons, List.not_mem_nil, or_false] at hhas
    split_ifs <;> first | rfl | tauto
  · rw [if_neg (has_iff.not.2 hhas)]
    simp only [List.mem_cons, List.not_mem_nil, or_false, not_or] at hhas
    obtain ⟨hname, hvariable, hdescription, haliases, hdefault⟩ := hhas
    simp [change, hname, hvariable, hdescription, haliases, hdefault]

theorem applyAll_others (p : Parameter) (members : List (String × Json)) (d : Draft) :
    (applyAll (members.map p.change) d).others =
      d.others ++ members.filter fun m => !fields.has m.1 := by
  induction members generalizing d with
  | nil => exact (List.append_nil _).symm
  | cons m members ih =>
    have hstep := ih (p.change m d)
    rw [change_others] at hstep
    refine hstep.trans ?_
    rw [List.filter_cons]
    cases fields.has m.1 with
    | true => simp
    | false => simp

/-- **The draft that the members leave** is complete. -/
theorem Shown.complete (h : p.Shown depth members) :
    (applyAll (members.map p.change) {}).complete = .ok p := by
  have hname : (applyAll (members.map p.change) {}).name = some p.name :=
    applyAll_change "name" (fun m hm s => by simp [change, hm])
      (fun m hm s => by rw [change, if_neg hm]; split_ifs <;> rfl)
      fun hnone => by cases h.name.symm.trans hnone
  have hvariable : (applyAll (members.map p.change) {}).variableName = some p.variableName :=
    applyAll_change "env_var" (fun m hm s => by simp [change, hm])
      (fun m hm s => by simp only [change]; split_ifs <;> rfl)
      fun hnone => by cases h.variableName.symm.trans hnone
  have hdescription : (applyAll (members.map p.change) {}).description = p.description :=
    applyAll_change "description" (fun m hm s => by simp [change, hm])
      (fun m hm s => by simp only [change]; split_ifs <;> rfl)
      fun hnone => (h.description.of_eq_none hnone).symm
  have haliases : (applyAll (members.map p.change) {}).aliases = p.aliases :=
    applyAll_change "aliases" (fun m hm s => by simp [change, hm])
      (fun m hm s => by simp only [change]; split_ifs <;> rfl)
      fun hnone => (h.aliases.of_eq_none hnone).symm
  have hdefault : (applyAll (members.map p.change) {}).defaultValue = p.defaultValue :=
    applyAll_change "default" (fun m hm s => by simp [change, hm])
      (fun m hm s => by simp only [change]; split_ifs <;> rfl)
      fun hnone => (h.default.of_eq_none hnone).symm
  have hothers := applyAll_others p members {}
  have hkept : ∀ name ∈ p.kind.memberNames,
      Entries.lookup name (members.filter fun m => !fields.has m.1) = Entries.lookup name members :=
    fun name hmem => Entries.lookup_filter (p := fun key => !fields.has key)
      (by rw [memberNames_not_has hmem]; rfl) members
  have hkind : Kind.ofMembers (members.filter fun m => !fields.has m.1) = .ok p.kind :=
    Kind.ofMembers_of_shown
      (fun name hmem => (h.once name (List.mem_append_right _ hmem)).filter _)
      (h.kind.of_lookup hkept)
  rw [Draft.complete, hname, hvariable, hothers]
  simp only [List.nil_append, hkind, hdescription, haliases, hdefault]
  rfl

/-- **An object that shows a declaration is read as it.** -/
theorem takes_shown (h : p.Shown (depth + 2) members) :
    Takes (reader (depth + 3)) (.object members) p := by
  intro k d hd b text rest hb hwritten hrest
  obtain ⟨ms, rfl, hms⟩ := document_eq_object hd
  obtain ⟨k, inner, rfl, rfl, hmembers⟩ := written_object.1 hwritten
  have hmark := skipBlank_mark (c := '{') hb (by decide) (inner ++ rest)
  have honce : ((members.map Prod.fst).filter fields.has).Nodup :=
    nodup_filter_keys fun name hhas => h.once name (List.mem_append_left _ (has_iff.1 hhas))
  obtain ⟨hshorter, hread⟩ :=
    readMembers_of_changes hms (fun m hm => h.takesMember hm) honce hmembers rest
  refine ⟨Nat.lt_trans hshorter (skipBlank_length_lt hmark), ?_⟩
  have hchanges : (members.map fun m => (m.1, p.change m)).map Prod.snd = members.map p.change := by
    rw [List.map_map]
    rfl
  have hcomplete := h.complete
  rw [← hchanges] at hcomplete
  rw [reader.eq_def]
  split
  · next hskip =>
    cases hmark.symm.trans hskip
    change readMembers (readMember (depth + 3 - 1)) _ = _ at hread
    simp only [bind, Except.bind, hread, hcomplete]
    rfl
  · next hobject => exact absurd hmark (hobject _)

/-! ### Declarations as they are written -/

theorem kindMembers_keys (kind : Kind) :
    kind.members.map Prod.fst = kind.memberNames := by
  cases kind with
  | string => rfl
  | number => rfl
  | list separator => rfl
  | oneOf values => rfl

theorem kindMembers_shown (kind : Kind) : kind.Shown kind.members := by
  cases kind with
  | string => rfl
  | number => rfl
  | list separator => exact ⟨rfl, rfl⟩
  | oneOf values => exact ⟨rfl, rfl⟩

theorem lookup_kindMembers {kind : Kind} {name : String} (h : name ∉ kind.memberNames) :
    Entries.lookup name kind.members = none :=
  Entries.lookup_eq_none_iff.2 (by rwa [kindMembers_keys])

/-- The members of a declaration as they are written. -/
def writtenMembers (p : Parameter) : List (String × Json) :=
  [("name", .string p.name), ("env_var", .string p.variableName)] ++ p.kind.members ++
    textMember? "description" p.description ++ tableMember? "aliases" p.aliases ++
    textMember? "default" p.defaultValue

theorem writtenMembers_keys (p : Parameter) : List.Sublist (p.writtenMembers.map Prod.fst)
    (["name", "env_var"] ++ p.kind.memberNames ++ ["description"] ++ ["aliases"] ++
      ["default"]) := by
  simp only [writtenMembers, List.map_append, kindMembers_keys]
  exact (((List.Sublist.refl _).append textMember?_keys).append tableMember?_keys).append
    textMember?_keys

theorem writtenMembers_once (p : Parameter) (name : String) : AtMostOnce name p.writtenMembers := by
  refine List.nodup_iff_count_le_one.1 (p.writtenMembers_keys.nodup ?_) name
  cases p.kind with
  | string => decide
  | number => decide
  | list separator => simp [Kind.memberNames]
  | oneOf values => simp [Kind.memberNames]

theorem mem_memberNames {m : String × Json} (hm : m ∈ p.writtenMembers) : m.1 ∈ p.memberNames := by
  have hmem := p.writtenMembers_keys.subset (List.mem_map_of_mem hm)
  simp only [memberNames, List.mem_append, List.mem_cons, List.not_mem_nil, or_false] at hmem ⊢
  tauto

/-- A member with a name of the kind is looked up among the members of the kind. -/
theorem lookup_writtenMembers {name : String} (hname : name ∈ p.kind.memberNames) :
    Entries.lookup name p.writtenMembers = Entries.lookup name p.kind.members := by
  have hhas := memberNames_not_has hname
  rw [← Bool.not_eq_true, has_iff] at hhas
  simp only [List.mem_cons, List.not_mem_nil, or_false, not_or] at hhas
  obtain ⟨hname, hvariable, hdescription, haliases, hdefault⟩ := hhas
  simp [writtenMembers, Entries.lookup, Ne.symm hname, Ne.symm hvariable, Ne.symm hdescription,
    Ne.symm haliases, Ne.symm hdefault]

/-- **What is written shows the declaration**, and nothing else stands among it. -/
theorem shown_writtenMembers (depth : Nat) (p : Parameter) : p.Shown depth p.writtenMembers := by
  have hnone : ∀ {name : String}, fields.has name = true →
      Entries.lookup name p.kind.members = none := fun hhas =>
    lookup_kindMembers fun hmem => by cases hhas.symm.trans (memberNames_not_has hmem)
  have hdescription :
    Entries.lookup "description" p.writtenMembers = p.description.map .string := by
    simp [writtenMembers, Entries.lookup, hnone (show fields.has "description" = true from rfl)]
  have haliases : Entries.lookup "aliases" p.writtenMembers =
      if p.aliases.entries.isEmpty = false then some p.aliases.document else none := by
    simp [writtenMembers, Entries.lookup, hnone (show fields.has "aliases" = true from rfl)]
  have hdefault : Entries.lookup "default" p.writtenMembers = p.defaultValue.map .string := by
    simp [writtenMembers, Entries.lookup, hnone (show fields.has "default" = true from rfl)]
  constructor
  case once => exact fun name _ => p.writtenMembers_once name
  case name => rfl
  case variableName => rfl
  case kind => exact (kindMembers_shown p.kind).of_lookup fun name => lookup_writtenMembers
  case description => exact hdescription ▸ showsText_member
  case aliases => exact haliases ▸ showsTable_member
  case default => exact hdefault ▸ showsText_member
  case others => exact fun m hm hother => absurd (mem_memberNames hm) hother

theorem kindMembers_fits {P : Number → Prop} (kind : Kind) : ∀ m ∈ kind.members, Fits P 2 m.2 := by
  cases kind with
  | string => exact List.forall_mem_singleton.2 .string
  | number => exact List.forall_mem_singleton.2 .string
  | list separator =>
    exact List.forall_mem_cons.2 ⟨.string,
      List.forall_mem_singleton.2 (Kind.separator_fits separator)⟩
  | oneOf values =>
    exact List.forall_mem_cons.2 ⟨.string, List.forall_mem_singleton.2 (texts_fits values)⟩

theorem document_fits {P : Number → Prop} (p : Parameter) : Fits P 3 p.document := by
  refine .object fun m hm => ?_
  simp only [List.mem_append] at hm
  rcases hm with (((hm | hm) | hm) | hm) | hm
  · simp only [List.mem_cons, List.not_mem_nil, or_false] at hm
    rcases hm with rfl | rfl
    · exact .string
    · exact .string
  · exact kindMembers_fits p.kind m hm
  · exact textMember?_fits m hm
  · exact tableMember?_fits m hm
  · exact textMember?_fits m hm

end Parameter

end KernelRegistry
