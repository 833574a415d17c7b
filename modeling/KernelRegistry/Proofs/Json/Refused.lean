import KernelRegistry.Proofs.Json.Typed

/-!
# Refusing what a document says

A reader of a wanted form refuses the texts of a document that has another one, whatever their
spelling.  The reason is a part of another type than expected, never that the text is no document.

* `Json.Fails`, `Json.Refuses` — **a reader refuses every text of a document for one reason**.
* `mismatch_reason` — what is found instead is the document itself.
* `refuses_text`, `refuses_optional`, `refuses_list`, `refuses_table` — documents of another form.
* `refuses_item`, `refuses_entry`, `refuses_record` — lists, tables and records are refused for
  their first part that is.
* `Judges` — **a reader takes the documents that nothing is wrong with, and refuses the others**;
  `judges_text`, `Judges.optional`, `Judges.list`, `Judges.table` — the readers that do.
-/

set_option autoImplicit false
namespace KernelRegistry
namespace Json

variable {α β σ : Type} {reader : Reader α} {v : Json} {reason : Reason}

/-- The reader fails for the reason. -/
def Fails (reader : Reader α) (input : List Char) (reason : Reason) : Prop :=
  ∃ failure, reader input = .error failure ∧ failure.reason = reason

/-- Every text of the document is refused for the reason. -/
def Refuses (reader : Reader α) (v : Json) (reason : Reason) : Prop :=
  ∀ ⦃depth : Nat⦄ ⦃d : Spelled⦄, d.document Literal.value = v →
    ∀ ⦃b text rest : List Char⦄, Blank b → Written Literal.raw depth d text → AtEnd rest →
      Fails reader (b ++ (text ++ rest)) reason

/-- Every text of the member is refused for the reason, where a name that may occur only once did
not occur before. -/
def RefusesMember (member : List String → String → Reader α) (once : String → Bool)
    (m : String × Json) (reason : Reason) : Prop :=
  ∀ before, (once m.1 = true → m.1 ∉ before) →
    ∀ ⦃depth : Nat⦄ ⦃d : Spelled⦄, d.document Literal.value = m.2 →
      ∀ ⦃b b' text rest : List Char⦄, Blank b → Blank b' → Written Literal.raw depth d text →
        AtEnd rest → Fails (member before m.1) (b ++ ':' :: (b' ++ (text ++ rest))) reason

/-- **A reader refuses a text as a whole** if it refuses the document. -/
theorem readWhole?_of_refuses (h : Refuses reader v reason) {text : String}
    (htext : v.HasText text) :
    ∃ failure, readWhole? reader text = .error failure ∧ failure.reason = reason := by
  obtain ⟨depth, d, b, text', b', hb, hb', hd, hwritten, htext⟩ := htext
  obtain ⟨failure, hread, hreason⟩ := h hd hb hwritten hb'.atEnd
  refine ⟨failure, ?_, hreason⟩
  rw [readWhole?, htext]
  simp only [bind, Except.bind, hread]

theorem Refuses.map (h : Refuses reader v reason) (f : α → β) :
    Refuses (fun input => (reader input).map (·.map f)) v reason := by
  intro depth d hd b text rest hb hwritten hrest
  obtain ⟨failure, hread, hreason⟩ := h hd hb hwritten hrest
  refine ⟨failure, ?_, hreason⟩
  simp only [hread]
  rfl

/-! ## Documents of another form -/

section Forms

variable {spell : Literal → List Char} {depth : Nat} {d : Spelled} {c : Char}
  {b more text rest : List Char}

/-- The mismatch that is reported is with the document itself, however it is spelled. -/
theorem mismatch_reason (expected : String) (h : Written Literal.raw depth d text)
    (hrest : AtEnd rest) : (mismatch expected (text ++ rest)).reason =
      .wrongType (.ofValue (d.document Literal.value)) expected := by
  cases hscalar : d.isScalar with
  | true =>
    obtain ⟨c, more, rfl, -, -, hopens⟩ := h.head
    obtain ⟨hlist, hobject⟩ := hopens hscalar
    obtain ⟨hshorter, hread⟩ := readScalar_complete Literal.spells h hscalar hrest
    rw [mismatch.eq_def]
    split
    · next heq => cases heq; exact absurd rfl hlist
    · next heq => cases heq; exact absurd rfl hobject
    · rw [hread]
      rfl
  | false =>
    cases d with
    | array items =>
      obtain ⟨k, inner, -, rfl, -⟩ := written_array.1 h
      rfl
    | object members =>
      obtain ⟨k, inner, -, rfl, -⟩ := written_object.1 h
      rfl
    | _ => cases hscalar

theorem refuses_text (expected : String) (h : ∀ s, v ≠ .string s) :
    Refuses (readText expected) v (.wrongType (.ofValue v) expected) := by
  rintro depth d rfl b text rest hb hwritten hrest
  obtain ⟨c, more, rfl, hmark⟩ := skipBlank_written hb hwritten rest
  refine ⟨_, ?_, mismatch_reason expected hwritten hrest⟩
  rw [readText.eq_def]
  split
  · next hskip =>
    cases hmark.symm.trans hskip
    obtain ⟨l, rfl⟩ := hwritten.opens.2.1 rfl
    exact absurd rfl (h _)
  · rw [hmark]
    rfl

theorem refuses_optional (h : Refuses reader v reason) (hnull : v ≠ .null) :
    Refuses (readOptional reader) v reason := by
  rintro depth d rfl b text rest hb hwritten hrest
  obtain ⟨failure, hread, hreason⟩ := h rfl hb hwritten hrest
  refine ⟨failure, ?_, hreason⟩
  rw [readOptional_of_written hb hwritten hnull, hread]
  rfl

theorem refuses_list (reader : Reader α) (h : ∀ items, v ≠ .array items) :
    Refuses (readList reader) v (.wrongType (.ofValue v) "a sequence") := by
  rintro depth d rfl b text rest hb hwritten hrest
  obtain ⟨c, more, rfl, hmark⟩ := skipBlank_written hb hwritten rest
  refine ⟨_, ?_, mismatch_reason "a sequence" hwritten hrest⟩
  rw [readList.eq_def]
  split
  · next hskip =>
    cases hmark.symm.trans hskip
    obtain ⟨items, rfl⟩ := hwritten.opens.2.2.1 rfl
    exact absurd rfl (h _)
  · rw [hmark]
    rfl

theorem refuses_table (reader : Reader α) (h : ∀ members, v ≠ .object members) :
    Refuses (readTable reader) v (.wrongType (.ofValue v) "a map") := by
  rintro depth d rfl b text rest hb hwritten hrest
  obtain ⟨c, more, rfl, hmark⟩ := skipBlank_written hb hwritten rest
  refine ⟨_, ?_, mismatch_reason "a map" hwritten hrest⟩
  rw [readTable.eq_def]
  split
  · next hskip =>
    cases hmark.symm.trans hskip
    obtain ⟨members, rfl⟩ := hwritten.opens.2.2.2 rfl
    exact absurd rfl (h _)
  · rw [hmark]
    rfl

end Forms

/-! ## Parts of another form -/

section Parts

variable {depth : Nat} {first : Bool} {text : List Char}

/-- A list is refused if its next item is, or else what comes after it. -/
theorem readItemsFrom_next {lead : List Char} {d : Spelled} (hlead : Lead first lead)
    (hwritten : Written Literal.raw depth d text) {rest : List Char}
    (h : Fails reader (text ++ rest) reason ∨ ∃ step, reader (text ++ rest) = .ok step ∧
      Fails (readItemsFrom reader false) step.rest reason) :
    Fails (readItemsFrom reader first) (lead ++ (text ++ rest)) reason := by
  obtain ⟨c, more, rfl, hspace, hclose⟩ := opens_written Literal.raw depth hwritten
  obtain ⟨hnoLonger, hnext⟩ := nextItem_of_lead hlead hspace hclose (more ++ rest)
  rw [Fails, List.cons_append, readItemsFrom, hnext]
  change Fails reader (c :: (more ++ rest)) reason ∨
    ∃ step, reader (c :: (more ++ rest)) = .ok step ∧ _ at h
  rcases h with ⟨failure, hread, hreason⟩ | ⟨step, hread, failure, hrest, hreason⟩
  · refine ⟨failure, ?_, hreason⟩
    simp only [bind, Except.bind, hread]
  · refine ⟨failure, ?_, hreason⟩
    simp only [bind, Except.bind, hread, hrest]

/-- **The text of a list is refused** for its first item that is. -/
theorem readItemsFrom_of_refuses {before after : List Json} {ds : List Spelled}
    (hds : ds.map (Spelled.document Literal.value) = before ++ v :: after)
    (hbefore : ∀ x ∈ before, ∃ a, Takes reader x a) (hv : Refuses reader v reason)
    (h : Items (fun d text => Written Literal.raw depth d text) first ds text) (rest : List Char) :
    Fails (readItemsFrom reader first) (text ++ rest) reason := by
  induction before generalizing ds first text with
  | nil =>
    obtain ⟨d, ds, rfl, hd, -⟩ := List.map_eq_cons_iff.1 hds
    obtain - | ⟨hlead, hwritten, htail⟩ := h
    have hread := hv hd blank_nil hwritten (htail.atEnd rest)
    rw [List.append_assoc, List.append_assoc]
    exact readItemsFrom_next hlead hwritten (.inl hread)
  | cons x before ih =>
    obtain ⟨d, ds, rfl, hd, hds⟩ := List.map_eq_cons_iff.1 hds
    obtain - | ⟨hlead, hwritten, htail⟩ := h
    obtain ⟨a, hx⟩ := hbefore x List.mem_cons_self
    obtain ⟨hshorter, hread⟩ := hx hd blank_nil hwritten (htail.atEnd rest)
    have hrest := ih hds (fun y hy => hbefore y (List.mem_cons_of_mem _ hy)) htail
    rw [List.append_assoc, List.append_assoc]
    exact readItemsFrom_next hlead hwritten (.inr ⟨_, hread, hrest⟩)

theorem refuses_item {before after : List Json} (hbefore : ∀ x ∈ before, ∃ a, Takes reader x a)
    (hv : Refuses reader v reason) :
    Refuses (readList reader) (.array (before ++ v :: after)) reason := by
  intro depth d hd b text rest hb hwritten hrest
  obtain ⟨ds, rfl, hds⟩ := document_eq_array hd
  obtain ⟨k, inner, rfl, rfl, hitems⟩ := written_array.1 hwritten
  have hmark : skipBlank (b ++ ('[' :: inner ++ rest)) = '[' :: (inner ++ rest) :=
    skipBlank_mark hb (by decide) _
  obtain ⟨failure, hread, hreason⟩ := readItemsFrom_of_refuses hds.symm hbefore hv hitems rest
  refine ⟨failure, ?_, hreason⟩
  rw [readList_of_mark hmark, readItems, hread]
  rfl

/-! ### Members -/

variable {member : List String → String → Reader α} {once : String → Bool}
  {before after : List (String × Json)} {m : String × Json}

theorem refusesMember_afterColon (once : String → Bool) (h : Refuses reader m.2 reason) :
    RefusesMember (fun _ _ => afterColon reader) once m reason := by
  intro keys _ depth d hd b b' text rest hb hb' hwritten hrest
  obtain ⟨hshorter, hcolon⟩ := readColon_complete hb (b' ++ (text ++ rest))
  obtain ⟨failure, hread, hreason⟩ := h hd hb' hwritten hrest
  refine ⟨failure, ?_, hreason⟩
  simp only [afterColon, bind, Except.bind, hcolon]
  simp only [hread]

/-- An object is refused if its next member is, or else what comes after it. -/
theorem readMembersFrom_next {keys : List String} {lead rest : List Char} {key : Literal}
    (hlead : Lead first lead)
    (h : Fails (member keys (String.ofList key.value)) rest reason ∨
      ∃ step, member keys (String.ofList key.value) rest = .ok step ∧
        Fails (readMembersFrom member (keys ++ [String.ofList key.value]) false) step.rest reason) :
    Fails (readMembersFrom member keys first) (lead ++ '"' :: (key.raw ++ '"' :: rest)) reason := by
  obtain ⟨hnoLonger, hnext⟩ := nextMember_of_lead hlead (key.raw ++ '"' :: rest)
  obtain ⟨hshorter, hkey⟩ := readString_complete key.spells rest
  rw [Fails, readMembersFrom, hnext]
  rcases h with ⟨failure, hread, hreason⟩ | ⟨step, hread, failure, hrest, hreason⟩
  · refine ⟨failure, ?_, hreason⟩
    simp only [bind, Except.bind, hkey, hread]
  · refine ⟨failure, ?_, hreason⟩
    simp only [bind, Except.bind, hkey, hread, hrest]

/-- **The text of an object is refused** for its first member that is. -/
theorem readMembersFrom_of_refuses {ms : List (Literal × Spelled)}
    (hms : (ms.map fun x => (String.ofList x.1.value, x.2.document Literal.value)) =
      before ++ m :: after)
    (hbefore : ∀ x ∈ before, ∃ a, TakesMember member once x (x.1, a))
    (hm : RefusesMember member once m reason) (keys : List String)
    (honce : ((keys ++ (before ++ m :: after).map Prod.fst).filter once).Nodup)
    (h : Members Literal.raw (fun d text => Written Literal.raw depth d text) first ms text)
    (rest : List Char) : Fails (readMembersFrom member keys first) (text ++ rest) reason := by
  induction before generalizing ms keys first text with
  | nil =>
    obtain ⟨x, ms, rfl, rfl, -⟩ := List.map_eq_cons_iff.1 hms
    obtain - | ⟨hlead, hb, hb', hwritten, htail⟩ := h
    have hread := hm keys (fresh_of_nodup honce) rfl hb hb' hwritten (htail.atEnd rest)
    simp only [List.append_assoc, List.cons_append]
    exact readMembersFrom_next hlead (.inl hread)
  | cons y before ih =>
    obtain ⟨x, ms, rfl, rfl, htailEq⟩ := List.map_eq_cons_iff.1 hms
    obtain - | ⟨hlead, hb, hb', hwritten, htail⟩ := h
    obtain ⟨a, -, hmember⟩ := hbefore _ List.mem_cons_self
    obtain ⟨hshorter, hread⟩ := hmember keys (fresh_of_nodup honce) rfl hb hb' hwritten
      (htail.atEnd rest)
    rw [List.cons_append, List.map_cons, List.append_cons] at honce
    have hrest := ih htailEq (fun z hz => hbefore z (List.mem_cons_of_mem _ hz)) _ honce htail
    simp only [List.append_assoc, List.cons_append]
    exact readMembersFrom_next hlead (.inr ⟨_, hread, hrest⟩)

theorem refuses_entry {before after : List (String × Json)} {m : String × Json}
    (hbefore : ∀ x ∈ before, ∃ a, Takes reader x.2 a) (hm : Refuses reader m.2 reason) :
    Refuses (readTable reader) (.object (before ++ m :: after)) reason := by
  intro depth d hd b text rest hb hwritten hrest
  obtain ⟨ms, rfl, hms⟩ := document_eq_object hd
  obtain ⟨k, inner, rfl, rfl, hmembers⟩ := written_object.1 hwritten
  have hmark : skipBlank (b ++ ('{' :: inner ++ rest)) = '{' :: (inner ++ rest) :=
    skipBlank_mark hb (by decide) _
  have htaken : ∀ x ∈ before, ∃ a,
      TakesMember (fun _ _ => afterColon reader) (fun _ => false) x (x.1, a) := fun x hx =>
    (hbefore x hx).imp fun a ha => takesMember_afterColon ⟨rfl, ha⟩
  obtain ⟨failure, hread, hreason⟩ := readMembersFrom_of_refuses hms.symm htaken
    (refusesMember_afterColon _ hm) [] (by simp) hmembers rest
  refine ⟨failure, ?_, hreason⟩
  rw [readTable_of_mark hmark]
  simp only [bind, Except.bind, readMembers, hread]

/-! ### Records -/

variable {record : Fields σ} {start : σ}

theorem refusesMember_field {field : Field σ}
    (hfield : record.fields.find? (·.name = m.1) = some field) (h : Refuses field.read m.2 reason) :
    RefusesMember record.readMember record.has m reason := by
  have hname := List.find?_some hfield
  have hhas : record.has m.1 = true :=
    List.any_eq_true.2 ⟨field, List.mem_of_find?_eq_some hfield, hname⟩
  intro keys hfresh depth d hd b b' text rest hb hb' hwritten hrest
  obtain ⟨failure, hread, hreason⟩ :=
    refusesMember_afterColon record.has h keys hfresh hd hb hb' hwritten hrest
  refine ⟨failure, ?_, hreason⟩
  simp only [Fields.readMember, hfield]
  rw [if_neg (by simpa using hfresh hhas)]
  exact hread

/-- **A record is refused** for its first member that is, if its fields occur once. -/
theorem refuses_record
    (hbefore : ∀ x ∈ before, ∃ change, TakesMember record.readMember record.has x (x.1, change))
    (hm : RefusesMember record.readMember record.has m reason)
    (honce : (((before ++ m :: after).map Prod.fst).filter record.has).Nodup) :
    Refuses (readRecord record start) (.object (before ++ m :: after)) reason := by
  intro depth d hd b text rest hb hwritten hrest
  obtain ⟨ms, rfl, hms⟩ := document_eq_object hd
  obtain ⟨k, inner, rfl, rfl, hmembers⟩ := written_object.1 hwritten
  have hmark : skipBlank (b ++ ('{' :: inner ++ rest)) = '{' :: (inner ++ rest) :=
    skipBlank_mark hb (by decide) _
  obtain ⟨failure, hread, hreason⟩ := readMembersFrom_of_refuses hms.symm hbefore hm []
    honce hmembers rest
  refine ⟨failure, ?_, hreason⟩
  rw [readRecord_of_mark hmark]
  simp only [bind, Except.bind, readMembers, hread]

end Parts

/-! ## What is wrong with a document -/

/-- The offence of a document that should be a text. -/
def textOffence? (expected : String) : Json → Option Reason
  | .string _ => none
  | v => some (.wrongType (.ofValue v) expected)

/-- Null is no offence; anything else is judged as without the choice. -/
def optionalOffence? (offence? : Json → Option Reason) : Json → Option Reason
  | .null => none
  | v => offence? v

/-- The offence of a document that should be a list: that of its first item with one. -/
def listOffence? (offence? : Json → Option Reason) : Json → Option Reason
  | .array items => items.findSome? offence?
  | v => some (.wrongType (.ofValue v) "a sequence")

/-- The offence of a document that should be a table: that of its first member with one. -/
def tableOffence? (offence? : Json → Option Reason) : Json → Option Reason
  | .object members => members.findSome? fun m => offence? m.2
  | v => some (.wrongType (.ofValue v) "a map")

/-- The reader takes the documents that nothing is wrong with, and refuses the others for what
is. -/
structure Judges (reader : Reader α) (offence? : Json → Option Reason) : Prop where
  takes : ∀ {v}, offence? v = none → ∃ a, Takes reader v a
  refuses : ∀ {v reason}, offence? v = some reason → Refuses reader v reason

/-- The reader takes a member that nothing is wrong with, and refuses it for what is. -/
structure JudgesMember (record : Fields σ) (m : String × Json) (offence? : Option Reason) :
    Prop where
  takes : offence? = none →
    ∃ change, TakesMember record.readMember record.has m (m.1, change)
  refuses : ∀ {reason}, offence? = some reason →
    RefusesMember record.readMember record.has m reason

section Judges

variable {offence? : Json → Option Reason}

theorem exists_forall₂ {ι : Type} {R : ι → α → Prop} {items : List ι}
    (h : ∀ x ∈ items, ∃ a, R x a) : ∃ values, List.Forall₂ R items values := by
  induction items with
  | nil => exact ⟨[], .nil⟩
  | cons x items ih =>
    obtain ⟨a, ha⟩ := h x List.mem_cons_self
    obtain ⟨values, hvalues⟩ := ih fun y hy => h y (List.mem_cons_of_mem _ hy)
    exact ⟨a :: values, .cons ha hvalues⟩

theorem judges_text (expected : String) : Judges (readText expected) (textOffence? expected) := by
  constructor
  · intro v hv
    rw [textOffence?.eq_def] at hv
    split at hv
    · next s => exact ⟨s, takes_text expected s⟩
    · cases hv
  · intro v reason hv
    rw [textOffence?.eq_def] at hv
    split at hv
    · cases hv
    · next hne =>
      cases hv
      exact refuses_text expected hne

theorem Judges.optional (h : Judges reader offence?) :
    Judges (readOptional reader) (optionalOffence? offence?) := by
  constructor
  · intro v hv
    rw [optionalOffence?.eq_def] at hv
    split at hv
    · exact ⟨none, takes_null reader⟩
    · next hnull =>
      obtain ⟨a, ha⟩ := h.takes hv
      exact ⟨some a, takes_some ha hnull⟩
  · intro v reason hv
    rw [optionalOffence?.eq_def] at hv
    split at hv
    · cases hv
    · next hnull => exact refuses_optional (h.refuses hv) hnull

theorem Judges.list (h : Judges reader offence?) :
    Judges (readList reader) (listOffence? offence?) := by
  constructor
  · intro v hv
    rw [listOffence?.eq_def] at hv
    split at hv
    · obtain ⟨values, hvalues⟩ :=
        exists_forall₂ fun x hx => h.takes (List.findSome?_eq_none_iff.1 hv x hx)
      exact ⟨values, takes_list hvalues⟩
    · cases hv
  · intro v reason hv
    rw [listOffence?.eq_def] at hv
    split at hv
    · obtain ⟨before, x, after, rfl, hx, hbefore⟩ := List.findSome?_eq_some_iff.1 hv
      exact refuses_item (fun y hy => h.takes (hbefore y hy)) (h.refuses hx)
    · next hne =>
      cases hv
      exact refuses_list reader hne

theorem Judges.table (h : Judges reader offence?) :
    Judges (readTable reader) (tableOffence? offence?) := by
  constructor
  · intro v hv
    rw [tableOffence?.eq_def] at hv
    split at hv
    · next members =>
      have htaken : ∀ m ∈ members, ∃ e : String × α, e.1 = m.1 ∧ Takes reader m.2 e.2 := by
        intro m hm
        obtain ⟨a, ha⟩ := h.takes (List.findSome?_eq_none_iff.1 hv m hm)
        exact ⟨(m.1, a), rfl, ha⟩
      obtain ⟨entries, hentries⟩ := exists_forall₂ htaken
      exact ⟨_, takes_table hentries⟩
    · cases hv
  · intro v reason hv
    rw [tableOffence?.eq_def] at hv
    split at hv
    · obtain ⟨before, m, after, rfl, hm, hbefore⟩ := List.findSome?_eq_some_iff.1 hv
      exact refuses_entry (fun x hx => h.takes (hbefore x hx)) (h.refuses hm)
    · next hne =>
      cases hv
      exact refuses_table reader hne

/-! ### Members of a record -/

variable {record : Fields σ} {start : σ} {m : String × Json} {members : List (String × Json)}

theorem judgesMember_field {name : String} {set : α → σ → σ}
    (hfield : record.fields.find? (·.name = m.1) = some (.of name reader set))
    (h : Judges reader offence?) : JudgesMember record m (offence? m.2) := by
  constructor
  · intro hm
    obtain ⟨a, ha⟩ := h.takes hm
    exact ⟨_, takesMember_field hfield (ha.map set)⟩
  · intro reason hm
    exact refusesMember_field hfield ((h.refuses hm).map set)

theorem judgesMember_other (hnone : record.fields.find? (·.name = m.1) = none) :
    JudgesMember record m none :=
  ⟨fun _ => ⟨id, takesMember_other hnone⟩, fun h => nomatch h⟩

/-- **A record is refused** for what is wrong with the first member that something is wrong with. -/
theorem refuses_members {offence? : String × Json → Option Reason}
    (h : ∀ m, JudgesMember record m (offence? m))
    (honce : ((members.map Prod.fst).filter record.has).Nodup)
    (hreason : members.findSome? offence? = some reason) :
    Refuses (readRecord record start) (.object members) reason := by
  obtain ⟨before, m, after, rfl, hm, hbefore⟩ := List.findSome?_eq_some_iff.1 hreason
  exact refuses_record (fun x hx => (h x).takes (hbefore x hx)) ((h m).refuses hm) honce

end Judges

end Json
end KernelRegistry
