import KernelRegistry.Proofs.Json.Refused
import KernelRegistry.Proofs.Presentation.KernelSpec
import KernelRegistry.Proofs.Template.FixedPoint

/-!
# The problems of an installed file

The text of an installed file is read a second time, as a kernelspec.  It is always a document, so
there is something wrong with it only if a member has another form than a kernelspec wants, or if
there is nothing to launch or no name.

* `WellFormed` — the members that a kernelspec knows have the form that it wants.
* `missing` — what a kernelspec cannot do without and is not there.
* `offence?` — what is wrong with a member; `judgesMember` — **the reader of kernelspecs refuses a
  member for it**, and nothing else.
* `problems_of_text` — **the problems of any text of an object**.
* `problems_of_render` — **the problems of an installed file**.
-/

set_option autoImplicit false
namespace KernelRegistry

open Json

namespace KernelSpec

/-! ## Forms -/

/-- The documents that are texts. -/
def isText : Json → Bool
  | .string _ => true
  | _ => false

/-- The documents that are texts or null. -/
def isOptionalText : Json → Bool
  | .null => true
  | v => isText v

/-- The documents that are lists of texts. -/
def isTexts : Json → Bool
  | .array items => items.all isText
  | _ => false

/-- The documents that are objects whose members are texts. -/
def isTextTable : Json → Bool
  | .object members => members.all fun m => isText m.2
  | _ => false

/-- The members that a kernelspec knows have the form that it wants, as far as they are there. -/
@[mk_iff]
structure WellFormed (members : List (String × Json)) : Prop where
  argv : (Entries.lookup "argv" members).all isTexts = true
  displayName : (Entries.lookup "display_name" members).all isOptionalText = true
  language : (Entries.lookup "language" members).all isOptionalText = true
  interruptMode : (Entries.lookup "interrupt_mode" members).all isOptionalText = true
  env : (Entries.lookup "env" members).all isTextTable = true

/-- There are no arguments, or the list of them is empty. -/
def lacksArgv (members : List (String × Json)) : Bool :=
  match Entries.lookup "argv" members with
  | none | some (.array []) => true
  | some _ => false

/-- There is no name, or it is null. -/
def lacksDisplayName (members : List (String × Json)) : Bool :=
  match Entries.lookup "display_name" members with
  | none | some .null => true
  | some _ => false

/-- What a kernelspec cannot do without and is not there. -/
def missing (members : List (String × Json)) : List Problem :=
  (if lacksArgv members then [.noArgv] else []) ++
    if lacksDisplayName members then [.noDisplayName] else []

/-! ## Members -/

/-- What is wrong with a member. -/
def offence? (m : String × Json) : Option Reason :=
  if m.1 = "argv" then listOffence? (textOffence? "a string") m.2
  else if m.1 = "display_name" ∨ m.1 = "language" ∨ m.1 = "interrupt_mode" then
    optionalOffence? (textOffence? "a string") m.2
  else if m.1 = "env" then tableOffence? (textOffence? "a string") m.2
  else none

section Members

variable {members : List (String × Json)} {m : String × Json} {v : Json} {text : String}
  {reason : Reason}

theorem isNone_textOffence? (v : Json) : (textOffence? "a string" v).isNone = isText v := by
  cases v <;> rfl

theorem isNone_optionalOffence? (v : Json) :
    (optionalOffence? (textOffence? "a string") v).isNone = isOptionalText v := by
  cases v <;> rfl

theorem isNone_listOffence? (v : Json) :
    (listOffence? (textOffence? "a string") v).isNone = isTexts v := by
  cases v with
  | array items =>
    rw [Bool.eq_iff_iff]
    simp [listOffence?, isTexts, ← isNone_textOffence?]
  | _ => rfl

theorem isNone_tableOffence? (v : Json) :
    (tableOffence? (textOffence? "a string") v).isNone = isTextTable v := by
  cases v with
  | object members =>
    rw [Bool.eq_iff_iff]
    simp [tableOffence?, isTextTable, ← isNone_textOffence?]
  | _ => rfl

/-- What is wrong with a member is the type of one of its parts. -/
theorem offence?_eq_some (h : offence? m = some reason) :
    ∃ found expected, reason = .wrongType found expected := by
  have htext : ∀ {v}, textOffence? "a string" v = some reason →
      ∃ found expected, reason = .wrongType found expected := by
    intro v hv
    cases v <;> cases hv <;> exact ⟨_, _, rfl⟩
  rw [offence?] at h
  split_ifs at h
  · rw [listOffence?.eq_def] at h
    split at h
    · obtain ⟨x, -, hx⟩ := List.exists_of_findSome?_eq_some h
      exact htext hx
    · cases h
      exact ⟨_, _, rfl⟩
  · rw [optionalOffence?.eq_def] at h
    split at h
    · cases h
    · exact htext h
  · rw [tableOffence?.eq_def] at h
    split at h
    · obtain ⟨x, -, hx⟩ := List.exists_of_findSome?_eq_some h
      exact htext hx
    · cases h
      exact ⟨_, _, rfl⟩

/-- **The reader of kernelspecs refuses a member for what is wrong with it**, and takes any
other. -/
theorem judgesMember (m : String × Json) : JudgesMember fields m (offence? m) := by
  obtain ⟨key, v⟩ := m
  have htext := judges_text "a string"
  by_cases hargv : key = "argv"
  · subst hargv
    exact judgesMember_field rfl htext.list
  by_cases hdisplay : key = "display_name"
  · subst hdisplay
    exact judgesMember_field rfl htext.optional
  by_cases hlanguage : key = "language"
  · subst hlanguage
    exact judgesMember_field rfl htext.optional
  by_cases hinterrupt : key = "interrupt_mode"
  · subst hinterrupt
    exact judgesMember_field rfl htext.optional
  by_cases henv : key = "env"
  · subst henv
    exact judgesMember_field rfl htext.table
  · have hoffence : offence? (key, v) = none := by
      simp [offence?, hargv, hdisplay, hlanguage, hinterrupt, henv]
    rw [hoffence]
    refine judgesMember_other ?_
    simp [fields, Field.of, Ne.symm hargv, Ne.symm hdisplay, Ne.symm hlanguage,
      Ne.symm hinterrupt, Ne.symm henv]

/-- Nothing is wrong with the members exactly if they are well-formed. -/
theorem findSome?_offence? (honce : ∀ name ∈ memberNames, AtMostOnce name members) :
    members.findSome? offence? = none ↔ WellFormed members := by
  rw [List.findSome?_eq_none_iff]
  constructor
  · intro h
    have hform : ∀ name (p : Json → Bool), (∀ v, (offence? (name, v)).isNone = p v) →
        (Entries.lookup name members).all p = true := by
      intro name p hp
      rw [Option.all_eq_true]
      intro v hv
      rw [← hp, h _ (Entries.mem_of_lookup hv)]
      rfl
    exact ⟨hform _ _ isNone_listOffence?, hform _ _ isNone_optionalOffence?,
      hform _ _ isNone_optionalOffence?, hform _ _ isNone_optionalOffence?,
      hform _ _ isNone_tableOffence?⟩
  · intro h m hm
    obtain ⟨key, v⟩ := m
    have hform : ∀ {p : Json → Bool}, key ∈ memberNames →
        (Entries.lookup key members).all p = true → p v = true := fun hkey hp =>
      (Option.all_eq_true ..).1 hp v ((honce key hkey).lookup_eq hm)
    rw [← Option.isNone_iff_eq_none, offence?]
    split_ifs with hargv htext henv
    · obtain rfl := hargv
      rw [isNone_listOffence?]
      exact hform (by simp [memberNames]) h.argv
    · rw [isNone_optionalOffence?]
      rcases htext with rfl | rfl | rfl
      · exact hform (by simp [memberNames]) h.displayName
      · exact hform (by simp [memberNames]) h.language
      · exact hform (by simp [memberNames]) h.interruptMode
    · obtain rfl := henv
      rw [isNone_tableOffence?]
      exact hform (by simp [memberNames]) h.env
    · rfl

/-! ## Well-formed members -/

theorem exists_text (h : isText v = true) : ∃ s, v = .string s := by
  cases v with
  | string s => exact ⟨s, rfl⟩
  | _ => cases h

theorem exists_showsText (h : isOptionalText v = true) : ∃ text, ShowsText text v := by
  cases v with
  | null => exact ⟨none, rfl⟩
  | string s => exact ⟨some s, rfl⟩
  | _ => cases h

theorem exists_showsTexts (h : isTexts v = true) : ∃ texts, ShowsTexts texts v := by
  cases v with
  | array items =>
    have hitems : items ∈ Set.range (List.map Json.string) := by
      rw [Set.range_list_map]
      intro x hx
      obtain ⟨s, rfl⟩ := exists_text (List.all_eq_true.1 h x hx)
      exact ⟨s, rfl⟩
    obtain ⟨texts, rfl⟩ := hitems
    exact ⟨texts, rfl⟩
  | _ => cases h

theorem exists_showsTable (h : isTextTable v = true) : ∃ t, ShowsTable t v := by
  cases v with
  | object members =>
    have hmembers : members ∈
        Set.range (List.map fun e : String × String => (e.1, Json.string e.2)) := by
      rw [Set.range_list_map]
      intro m hm
      obtain ⟨s, hs⟩ := exists_text (List.all_eq_true.1 h m hm)
      exact ⟨(m.1, s), Prod.ext rfl hs.symm⟩
    obtain ⟨entries, rfl⟩ := hmembers
    exact ⟨_, entries, rfl, rfl⟩
  | _ => cases h

/-- What is found shows something, if it has the form for it, and so does nothing. -/
theorem exists_shows {α : Type} {P : α → Json → Prop} {p : Json → Bool} {found : Option Json}
    (h : found.all p = true) (hp : ∀ {v}, p v = true → ∃ a, P a v) (leftOut : α) :
    ∃ a, Shows (P a) (a = leftOut) found := by
  cases found with
  | none => exact ⟨leftOut, rfl⟩
  | some v => exact hp h

/-- **Well-formed members show a kernelspec**, which has no arguments or no name if they lack
them. -/
theorem WellFormed.exists_shown (h : WellFormed members)
    (honce : ∀ name ∈ memberNames, AtMostOnce name members) :
    ∃ spec : KernelSpec, spec.Shown members ∧ spec.argv.isEmpty = lacksArgv members ∧
      spec.displayName.isNone = lacksDisplayName members := by
  obtain ⟨argv, hargv⟩ := exists_shows h.argv exists_showsTexts []
  obtain ⟨displayName, hdisplay⟩ := exists_shows h.displayName exists_showsText none
  obtain ⟨language, hlanguage⟩ := exists_shows h.language exists_showsText none
  obtain ⟨interruptMode, hinterrupt⟩ := exists_shows h.interruptMode exists_showsText none
  obtain ⟨env, henv⟩ := exists_shows h.env exists_showsTable .empty
  refine ⟨⟨argv, displayName, language, interruptMode, env⟩,
    ⟨honce, hargv, hdisplay, hlanguage, hinterrupt, henv⟩, ?_, ?_⟩
  · rw [lacksArgv]
    cases hfound : Entries.lookup "argv" members with
    | none =>
      obtain rfl := hargv.of_eq_none hfound
      rfl
    | some v =>
      obtain rfl := hargv.of_eq_some hfound
      cases argv <;> rfl
  · rw [lacksDisplayName]
    cases hfound : Entries.lookup "display_name" members with
    | none =>
      obtain rfl := hdisplay.of_eq_none hfound
      rfl
    | some v =>
      have hshown := hdisplay.of_eq_some hfound
      cases displayName with
      | none =>
        obtain rfl := hshown
        rfl
      | some s =>
        obtain rfl := hshown
        rfl

/-! ## Texts -/

/-- **The problems of any text of an object** in which no member of a kernelspec occurs twice: what
is wrong with the first member that something is wrong with, or else what is missing. -/
theorem problems_of_text (htext : (Json.object members).HasText text)
    (honce : ∀ name ∈ memberNames, AtMostOnce name members) :
    match members.findSome? offence? with
    | some reason => ∃ failure, problems text = [.mismatch failure] ∧ failure.reason = reason
    | none => problems text = missing members := by
  cases hoffence : members.findSome? offence? with
  | some reason =>
    have hnodup := nodup_filter_keys fun name hhas => honce name (has_iff.1 hhas)
    have hrefuses : Refuses (readRecord fields {}) (.object members) reason :=
      refuses_members judgesMember hnodup hoffence
    obtain ⟨failure, hread, hreason⟩ := readWhole?_of_refuses hrefuses htext
    refine ⟨failure, ?_, hreason⟩
    rw [problems, parse, hread]
  | none =>
    obtain ⟨spec, hshown, hargv, hdisplay⟩ :=
      ((findSome?_offence? honce).1 hoffence).exists_shown honce
    have hread := readWhole?_of_takes (takes_shown hshown) htext
    rw [problems, parse, hread, missing, ← hargv, ← hdisplay]

end Members

/-! ## Installed files -/

section Rendered

variable {members : List (String × Json)} {text : String} {template : String} {directory : Path}
  {env : Environment}

theorem reread_object (members : List (String × Json)) :
    (Json.object members).reread = .object (members.map fun m => (m.1, m.2.reread)) :=
  congrArg Json.object (mapNumbersMembers_eq members)

theorem hasText_pretty_reread {depth : Nat} {v : Json} (h : Fits Number.Readable depth v) :
    v.reread.HasText (pretty v) :=
  hasText_pretty_mapNumbers (h.imp fun _ hn => hn.reread)

/-- Forms do not depend on numbers. -/
theorem isText_reread (v : Json) : isText v.reread = isText v := by
  cases v <;> rfl

theorem isOptionalText_reread (v : Json) : isOptionalText v.reread = isOptionalText v := by
  cases v <;> rfl

theorem isTexts_reread (v : Json) : isTexts v.reread = isTexts v := by
  cases v with
  | array items =>
    rw [Json.reread, mapNumbers, mapNumbersItems_eq, isTexts, isTexts, List.all_map]
    exact congrArg items.all (funext isText_reread)
  | _ => rfl

theorem isTextTable_reread (v : Json) : isTextTable v.reread = isTextTable v := by
  cases v with
  | object members =>
    rw [reread_object, isTextTable, isTextTable, List.all_map]
    exact congrArg members.all (funext fun m => isText_reread m.2)
  | _ => rfl

/-- Forms and what is missing do not depend on numbers. -/
theorem wellFormed_reread (members : List (String × Json)) :
    WellFormed (members.map fun m => (m.1, m.2.reread)) ↔ WellFormed members := by
  have hall : ∀ (key : String) (p : Json → Bool), (∀ v, p v.reread = p v) →
      (Entries.lookup key (members.map fun m => (m.1, m.2.reread))).all p =
        (Entries.lookup key members).all p := by
    intro key p hp
    rw [Entries.lookup_map, Option.all_map]
    exact congrArg (Option.all · _) (funext hp)
  simp only [wellFormed_iff, hall _ _ isTexts_reread, hall _ _ isOptionalText_reread,
    hall _ _ isTextTable_reread]

theorem missing_reread (members : List (String × Json)) :
    missing (members.map fun m => (m.1, m.2.reread)) = missing members := by
  have hargv : lacksArgv (members.map fun m => (m.1, m.2.reread)) = lacksArgv members := by
    rw [lacksArgv, lacksArgv, Entries.lookup_map]
    rcases Entries.lookup "argv" members with - | (- | - | - | - | (- | -) | -) <;> rfl
  have hdisplay : lacksDisplayName (members.map fun m => (m.1, m.2.reread)) =
      lacksDisplayName members := by
    rw [lacksDisplayName, lacksDisplayName, Entries.lookup_map]
    rcases Entries.lookup "display_name" members with - | (- | - | - | - | - | -) <;> rfl
  rw [missing, missing, hargv, hdisplay]

theorem missing_eq_nil_iff :
    missing members = [] ↔ lacksArgv members = false ∧ lacksDisplayName members = false := by
  cases hargv : lacksArgv members <;> cases hdisplay : lacksDisplayName members <;>
    simp [missing, hargv, hdisplay]

/-- **The problems of an installed file.**  If a member that a kernelspec knows has another form
than it wants, that is the only problem, and it is one of types.  Otherwise the problems are what is
missing.  So there is none exactly if the file can be used as a kernelspec. -/
theorem problems_of_render (h : Template.render template directory env = .ok text) :
    ∃ members, Template.document template directory env = .ok (.object members) ∧
      (¬ WellFormed members → ∃ failure found expected,
        problems text = [.mismatch failure] ∧ failure.reason = .wrongType found expected) ∧
      (WellFormed members → problems text = missing members) ∧
      (problems text = [] ↔ WellFormed members ∧ lacksArgv members = false ∧
        lacksDisplayName members = false) := by
  obtain ⟨value, hdocument, rfl⟩ := of_map_eq_ok h
  obtain ⟨given, members, rfl, hmerged, hfits⟩ := Template.document_merged hdocument
  have htext := hasText_pretty_reread hfits
  have hcanonical : Canonical (Json.object members).reread :=
    hmerged.canonical.mapNumbers Number.reread
  rw [reread_object] at htext hcanonical
  have honce : ∀ name ∈ memberNames, AtMostOnce name (members.map fun m => (m.1, m.2.reread)) :=
    fun name _ => atMostOnce_of_sorted hcanonical.1 name
  have hproblems := problems_of_text htext honce
  have hwell := (findSome?_offence? honce).trans (wellFormed_reread members)
  have hwrong : ¬ WellFormed members → ∃ failure found expected,
      problems (pretty (.object members)) = [.mismatch failure] ∧
        failure.reason = .wrongType found expected := by
    intro hnot
    obtain ⟨reason, hreason⟩ := Option.ne_none_iff_exists'.1 (mt hwell.1 hnot)
    rw [hreason] at hproblems
    obtain ⟨failure, hmismatch, rfl⟩ := hproblems
    obtain ⟨m, -, hm⟩ := List.exists_of_findSome?_eq_some hreason
    obtain ⟨found, expected, hwrong⟩ := offence?_eq_some hm
    exact ⟨failure, found, expected, hmismatch, hwrong⟩
  have hright : WellFormed members → problems (pretty (.object members)) = missing members := by
    intro hmembers
    rw [hwell.2 hmembers] at hproblems
    exact hproblems.trans (missing_reread members)
  refine ⟨members, hdocument, hwrong, hright, ?_⟩
  constructor
  · intro hnil
    by_cases hmembers : WellFormed members
    · exact ⟨hmembers, missing_eq_nil_iff.1 ((hright hmembers).symm.trans hnil)⟩
    · obtain ⟨failure, -, -, hmismatch, -⟩ := hwrong hmembers
      rw [hnil] at hmismatch
      cases hmismatch
  · rintro ⟨hmembers, hnone⟩
    exact (hright hmembers).trans (missing_eq_nil_iff.2 hnone)

end Rendered

open Template.Sample in
/-- A kernel file that only lacks a name. -/
theorem problems_of_render_kernelTemplate :
    Template.render kernelTemplate (.ofString "/a\"b") overrides = .ok renderedText ∧
      problems renderedText = [.noDisplayName] := by
  obtain ⟨members, hdocument, -, hmissing, -⟩ := problems_of_render render_kernelTemplate
  obtain ⟨v, hfilled, hmerge⟩ := Template.document_eq_ok_iff.1 hdocument
  cases hfilled.symm.trans filledDocument_kernelTemplate
  cases hmerge
  exact ⟨render_kernelTemplate, hmissing ⟨rfl, rfl, rfl, rfl, rfl⟩⟩

end KernelSpec
end KernelRegistry
