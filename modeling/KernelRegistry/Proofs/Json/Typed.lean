import KernelRegistry.Json.Typed
import KernelRegistry.Proofs.Json.Printer
import KernelRegistry.Proofs.Json.Skip

/-!
# Reading what a document says

The readers of wanted forms look at a document only through its parts, so what they give does not
depend on how the document is spelled, nor on the blanks in its text.

* `Json.HasText` — the texts of a document.
* `Json.Takes` — **a reader takes every text of a document as one value**.
* `takes_text`, `takes_list`, `takes_table`, … — what the readers take.
* `readMembers_of_takes`, `takes_record` — an object is taken member by member, a record with what
  those that are its fields change, in any order.
* `applyAll_eq` — what several changes leave in a record.
* `Gives`, `readRecord_gives` — what is true of everything that a reader gives.
-/

set_option autoImplicit false
namespace KernelRegistry
namespace Json

variable {α β σ : Type}

/-- The text is one of the document, nested to any depth: with any blanks around its parts, and
with or without escapes in its strings. -/
def HasText (v : Json) (text : String) : Prop :=
  ∃ depth d b text' b', Blank b ∧ Blank b' ∧ d.document Literal.value = v ∧
    Written Literal.raw depth d text' ∧ text.toList = b ++ (text' ++ b')

/-- Every text of the document is read as the value. -/
def Takes (reader : Reader α) (v : Json) (a : α) : Prop :=
  ∀ ⦃depth : Nat⦄ ⦃d : Spelled⦄, d.document Literal.value = v →
    ReadsAs (fun d text => Written Literal.raw depth d text) reader d a

/-- **A reader takes a text as a whole** if it takes the document. -/
theorem readWhole?_of_takes {reader : Reader α} {v : Json} {a : α} (h : Takes reader v a)
    {text : String} (htext : v.HasText text) : readWhole? reader text = .ok a := by
  obtain ⟨depth, d, b, text', b', hb, hb', hd, hwritten, htext⟩ := htext
  obtain ⟨hshorter, hread⟩ := h hd hb hwritten hb'.atEnd
  have hend : readEnd b' = .ok () := readEnd_eq_ok.2 hb'
  rw [readWhole?, htext]
  simp only [bind, Except.bind, hread, hend]
  rfl

theorem hasText_of_written {depth : Nat} {v : Json} {text : List Char}
    (h : Written Literal.raw depth v.spelled text) : v.HasText (String.ofList text) := by
  refine ⟨depth, v.spelled, [], text, [], blank_nil, blank_nil, spelled_document v, h, ?_⟩
  rw [String.toList_ofList, List.append_nil, List.nil_append]

/-- **What is printed on one line** is a text of the document, if its numbers are read back. -/
theorem hasText_compact {depth : Nat} {v : Json} (h : Fits Number.Printed depth v) :
    v.HasText (compact v) := by
  have hsame : Fits (fun n => id n = n) depth v := h.imp fun _ _ => rfl
  have hwritten := writeCompact_written (f := id) h
  rw [hsame.mapNumbers_eq] at hwritten
  exact hasText_of_written hwritten

/-- Printing a line for each part gives a text of the document, with the numbers that the printed
ones are read as. -/
theorem hasText_pretty_mapNumbers {f : Number → Number} {depth : Nat} {v : Json}
    (h : Fits (fun n => WrittenNumber (f n) (writeNumber n)) depth v) :
    (v.mapNumbers f).HasText (pretty v) :=
  hasText_of_written (writePretty_written h 0)

theorem hasText_pretty {depth : Nat} {v : Json} (h : Fits Number.Printed depth v) :
    v.HasText (pretty v) := by
  have hsame : Fits (fun n => id n = n) depth v := h.imp fun _ _ => rfl
  have htext := hasText_pretty_mapNumbers (f := id) h
  rwa [hsame.mapNumbers_eq] at htext

/-! ## Spelled documents by form -/

section Forms

variable {value : Literal → List Char} {d : Spelled}

theorem document_eq_null (h : d.document value = .null) : d = .null := by
  cases d with
  | null => rfl
  | _ => cases h

theorem document_eq_string {s : String} (h : d.document value = .string s) :
    ∃ l, d = .string l ∧ String.ofList (value l) = s := by
  cases d with
  | string l =>
    cases h
    exact ⟨l, rfl, rfl⟩
  | _ => cases h

theorem document_eq_array {items : List Json} (h : d.document value = .array items) :
    ∃ ds, d = .array ds ∧ items = ds.map (Spelled.document value) := by
  cases d with
  | array ds =>
    cases h
    exact ⟨ds, rfl, Spelled.itemDocuments_eq value ds⟩
  | _ => cases h

theorem document_eq_object {members : List (String × Json)}
    (h : d.document value = .object members) :
    ∃ ms, d = .object ms ∧
      members = ms.map fun m => (String.ofList (value m.1), m.2.document value) := by
  cases d with
  | object ms =>
    cases h
    exact ⟨ms, rfl, Spelled.memberDocuments_eq value ms⟩
  | _ => cases h

end Forms

/-! ## Documents as they are -/

theorem Items.of_written {W W' : Spelled → List Char → Prop} {first : Bool} {items : List Spelled}
    {text : List Char} (h : Items W first items text) (hW : ∀ d ∈ items, ∀ t, W d t → W' d t) :
    Items W' first items text := by
  induction h with
  | close hb => exact .close hb
  | more hlead hd _ ih =>
    exact .more hlead (hW _ List.mem_cons_self _ hd)
      (ih fun d hd => hW d (List.mem_cons_of_mem _ hd))

theorem Members.of_written {spell : Literal → List Char} {W W' : Spelled → List Char → Prop}
    {first : Bool} {members : List (Literal × Spelled)} {text : List Char}
    (h : Members spell W first members text) (hW : ∀ m ∈ members, ∀ t, W m.2 t → W' m.2 t) :
    Members spell W' first members text := by
  induction h with
  | close hb => exact .close hb
  | more hlead hb hb' hd _ ih =>
    exact .more hlead hb hb' (hW _ List.mem_cons_self _ hd)
      (ih fun m hm => hW m (List.mem_cons_of_mem _ hm))

/-- A text is within every depth that the document fits in. -/
theorem Written.of_fits {P : Number → Prop} {spell value : Literal → List Char}
    {depth depth' : Nat} {d : Spelled} {text : List Char}
    (hfits : Fits P depth' (d.document value)) (h : Written spell depth d text) :
    Written spell depth' d text := by
  induction depth using Nat.strongRecOn generalizing d text depth' with
  | ind depth ih =>
    cases d with
    | null => exact written_null.2 (written_null.1 h)
    | bool b =>
      cases b with
      | true => exact written_true.2 (written_true.1 h)
      | false => exact written_false.2 (written_false.1 h)
    | number n => exact written_number.2 (written_number.1 h)
    | string l => exact written_string.2 (written_string.1 h)
    | array items =>
      obtain ⟨k, inner, rfl, htext, hitems⟩ := written_array.1 h
      rw [Spelled.document, Spelled.itemDocuments_eq] at hfits
      cases hfits with
      | array hfits =>
        exact written_array.2 ⟨_, inner, rfl, htext, hitems.of_written fun d hd t ht =>
          ih (k + 1) (Nat.lt_succ_self _) (hfits _ (List.mem_map_of_mem hd)) ht⟩
    | object members =>
      obtain ⟨k, inner, rfl, htext, hmembers⟩ := written_object.1 h
      rw [Spelled.document, Spelled.memberDocuments_eq] at hfits
      cases hfits with
      | object hfits =>
        exact written_object.2 ⟨_, inner, rfl, htext, hmembers.of_written fun m hm t ht =>
          ih (k + 1) (Nat.lt_succ_self _) (hfits _ (List.mem_map_of_mem hm)) ht⟩

/-- **A document is taken as it is** where it fits. -/
theorem takes_value {P : Number → Prop} {depth : Nat} {v : Json} (h : Fits P depth v) :
    Takes (readValue depth) v v := by
  rintro k d rfl b text rest hb hd hrest
  exact readValue_complete Literal.spells depth d hb (hd.of_fits h) hrest

/-- **Any document is passed over.** -/
theorem takes_skip (v : Json) : Takes skipValue v () :=
  fun depth d _ => skipValue_complete Literal.spells depth d

theorem Takes.map {reader : Reader α} {v : Json} {a : α} (h : Takes reader v a) (f : α → β) :
    Takes (fun input => (reader input).map (·.map f)) v (f a) := by
  intro depth d hd b text rest hb hwritten hrest
  obtain ⟨hshorter, hread⟩ := h hd hb hwritten hrest
  refine ⟨hshorter, ?_⟩
  simp only [hread]
  rfl

/-! ## Texts, lists and tables -/

section Readers

variable {reader : Reader α} {input rest b text : List Char} {depth : Nat} {d : Spelled}

/-- A document other than null is read as it would be without the choice. -/
theorem readOptional_of_written (hb : Blank b) (hwritten : Written Literal.raw depth d text)
    (hnull : d.document Literal.value ≠ .null) (rest : List Char) :
    readOptional reader (b ++ (text ++ rest)) =
      (reader (b ++ (text ++ rest))).map (·.map some) := by
  obtain ⟨c, more, rfl, hmark⟩ := skipBlank_written hb hwritten rest
  rw [readOptional.eq_def]
  split
  · next hskip =>
    cases hmark.symm.trans hskip
    obtain rfl := hwritten.opens.1 rfl
    exact absurd rfl hnull
  · rfl

/-- Behind a bracket, the items of a list are read. -/
theorem readList_of_mark (hmark : skipBlank input = '[' :: rest) :
    readList reader input = (readItems reader rest).map (·.afterMark hmark) := by
  rw [readList.eq_def]
  split
  · next hskip =>
    cases hmark.symm.trans hskip
    rfl
  · next hlist => exact absurd hmark (hlist _)

/-- Behind a brace, the members of a table are read. -/
theorem readTable_of_mark (hmark : skipBlank input = '{' :: rest) :
    readTable reader input = do
      let members ← readMembers (fun _ _ => afterColon reader) rest
      return (members.map Table.ofEntries).afterMark hmark := by
  rw [readTable.eq_def]
  split
  · next hskip =>
    cases hmark.symm.trans hskip
    rfl
  · next hobject => exact absurd hmark (hobject _)

theorem takes_text (expected s : String) : Takes (readText expected) (.string s) s := by
  intro depth d hd b text rest hb hwritten hrest
  obtain ⟨l, rfl, rfl⟩ := document_eq_string hd
  obtain rfl := written_string.1 hwritten
  have hmark := skipBlank_mark (c := '"') hb (by decide) (l.raw ++ ['"'] ++ rest)
  obtain ⟨hshorter, hread⟩ := readString_complete l.spells rest
  rw [List.append_assoc, List.singleton_append] at hmark
  have htext : b ++ ('"' :: (l.raw ++ ['"']) ++ rest) = b ++ '"' :: (l.raw ++ '"' :: rest) := by
    simp
  rw [htext]
  refine ⟨Nat.lt_trans hshorter (skipBlank_length_lt hmark), ?_⟩
  rw [readText.eq_def]
  split
  · next hskip =>
    cases hmark.symm.trans hskip
    simp only [bind, Except.bind, hread]
    rfl
  · next hquote => exact absurd hmark (hquote _)

theorem takes_null (reader : Reader α) : Takes (readOptional reader) .null none := by
  intro depth d hd b text rest hb hwritten hrest
  obtain rfl := document_eq_null hd
  obtain rfl := written_null.1 hwritten
  have hmark := skipBlank_mark (c := 'n') hb (by decide) (['u', 'l', 'l'] ++ rest)
  obtain ⟨hle, hword⟩ := readWord_complete ['u', 'l', 'l'] rest
  show Reads _ (b ++ 'n' :: (['u', 'l', 'l'] ++ rest)) none rest
  refine ⟨Nat.lt_of_le_of_lt hle (skipBlank_length_lt hmark), ?_⟩
  rw [readOptional.eq_def]
  split
  · next hskip =>
    cases hmark.symm.trans hskip
    simp only [bind, Except.bind, hword]
    rfl
  · next hnull => exact absurd hmark (hnull _)

theorem takes_some {v : Json} {a : α} (h : Takes reader v a) (hnull : v ≠ .null) :
    Takes (readOptional reader) v (some a) := by
  rintro depth d rfl b text rest hb hwritten hrest
  obtain ⟨hshorter, hread⟩ := h rfl hb hwritten hrest
  refine ⟨hshorter, ?_⟩
  rw [readOptional_of_written hb hwritten hnull, hread]
  rfl

theorem takes_list {items : List Json} {values : List α}
    (h : List.Forall₂ (Takes reader) items values) :
    Takes (readList reader) (.array items) values := by
  intro depth d hd b text rest hb hwritten hrest
  obtain ⟨ds, rfl, rfl⟩ := document_eq_array hd
  obtain ⟨k, inner, rfl, rfl, hitems⟩ := written_array.1 hwritten
  have hmark : skipBlank (b ++ ('[' :: inner ++ rest)) = '[' :: (inner ++ rest) :=
    skipBlank_mark hb (by decide) _
  have hreads := (List.forall₂_map_left_iff.1 h).imp fun d a hd => @hd (k + 1) d rfl
  obtain ⟨hshorter, hread⟩ :=
    readItemsFrom_complete (opens_written Literal.raw (k + 1)) hreads hitems rest
  refine ⟨Nat.lt_trans hshorter (skipBlank_length_lt hmark), ?_⟩
  rw [readList_of_mark hmark, readItems, hread]
  rfl

/-- The members of an object are read as entries, where a name that may occur only once did not
occur before. -/
def TakesMember (member : List String → String → Reader α) (once : String → Bool)
    (m : String × Json) (entry : String × α) : Prop :=
  entry.1 = m.1 ∧ ∀ before, (once m.1 = true → m.1 ∉ before) →
    ∀ ⦃depth : Nat⦄ ⦃d : Spelled⦄, d.document Literal.value = m.2 →
      ReadsAfterColon (fun d text => Written Literal.raw depth d text) (member before m.1) d entry.2

theorem takesMember_afterColon {m : String × Json} {e : String × α}
    (h : e.1 = m.1 ∧ Takes reader m.2 e.2) :
    TakesMember (fun _ _ => afterColon reader) (fun _ => false) m e :=
  ⟨h.1, fun _ _ _ _ hd => afterColon_complete (h.2 hd)⟩

/-- **The members of an object are taken** if each of them is and names that may occur only once do
so. -/
theorem readMembers_of_takes {member : List String → String → Reader α} {once : String → Bool}
    {ms : List (Literal × Spelled)} {members : List (String × Json)} {entries : List (String × α)}
    (hms : members = ms.map fun m => (String.ofList m.1.value, m.2.document Literal.value))
    (h : List.Forall₂ (TakesMember member once) members entries)
    (honce : ((entries.map Prod.fst).filter once).Nodup) {depth : Nat} {text : List Char}
    (hmembers : Members Literal.raw (fun d text => Written Literal.raw depth d text) true ms text)
    (rest : List Char) : Reads (readMembers member) (text ++ rest) entries rest := by
  subst hms
  have hkeys : (([] ++ entries.map Prod.fst).filter once).Nodup := honce
  refine readMembersFrom_complete Literal.spells ?_ hkeys hmembers rest
  refine (List.forall₂_map_left_iff.1 h).imp fun m entry hentry => ?_
  obtain ⟨hname, hread⟩ := hentry
  refine ⟨hname, fun before hfresh => ?_⟩
  rw [hname] at hfresh ⊢
  exact hread before hfresh rfl

/-- **The members of an object are taken** with what each of them changes. -/
theorem readMembers_of_changes {member : List String → String → Reader (σ → σ)}
    {once : String → Bool} {ms : List (Literal × Spelled)} {members : List (String × Json)}
    {change : String × Json → σ → σ}
    (hms : members = ms.map fun m => (String.ofList m.1.value, m.2.document Literal.value))
    (h : ∀ m ∈ members, TakesMember member once m (m.1, change m))
    (honce : ((members.map Prod.fst).filter once).Nodup) {depth : Nat} {text : List Char}
    (hmembers : Members Literal.raw (fun d text => Written Literal.raw depth d text) true ms text)
    (rest : List Char) :
    Reads (readMembers member) (text ++ rest) (members.map fun m => (m.1, change m)) rest := by
  have hkeys : (members.map fun m => (m.1, change m)).map Prod.fst = members.map Prod.fst := by
    rw [List.map_map]
    rfl
  exact readMembers_of_takes hms (List.forall₂_map_right_iff.2 (List.forall₂_same.2 h))
    (by rwa [hkeys]) hmembers rest

theorem takes_table {members : List (String × Json)} {entries : List (String × α)}
    (h : List.Forall₂ (fun m e => e.1 = m.1 ∧ Takes reader m.2 e.2) members entries) :
    Takes (readTable reader) (.object members) (Table.ofEntries entries) := by
  intro depth d hd b text rest hb hwritten hrest
  obtain ⟨ms, rfl, hms⟩ := document_eq_object hd
  obtain ⟨k, inner, rfl, rfl, hmembers⟩ := written_object.1 hwritten
  have hmark : skipBlank (b ++ ('{' :: inner ++ rest)) = '{' :: (inner ++ rest) :=
    skipBlank_mark hb (by decide) _
  have htakes := h.imp fun _ _ => takesMember_afterColon
  obtain ⟨hshorter, hread⟩ := readMembers_of_takes hms htakes (by simp) hmembers rest
  refine ⟨Nat.lt_trans hshorter (skipBlank_length_lt hmark), ?_⟩
  rw [readTable_of_mark hmark, hread]
  rfl

end Readers

/-! ## Records -/

section Records

variable {record : Fields σ} {start : σ} {members : List (String × Json)}

/-- A record after several changes, seen through a function of it: something that one of them puts
there, or that was there, is there if every other change leaves it alone. -/
theorem applyAll_eq {get : σ → β} {b : β} {changes : List (σ → σ)}
    (h : ∀ f ∈ changes, (∀ s, get (f s) = b) ∨ ∀ s, get (f s) = get s)
    (hset : (∃ f ∈ changes, ∀ s, get (f s) = b) ∨ get start = b) :
    get (applyAll changes start) = b := by
  induction changes generalizing start with
  | nil =>
    obtain ⟨f, hf, -⟩ | hstart := hset
    · cases hf
    · exact hstart
  | cons f changes ih =>
    show get (applyAll changes (f start)) = b
    refine ih (fun g hg => h g (List.mem_cons_of_mem _ hg)) ?_
    obtain ⟨g, hg, hput⟩ | hstart := hset
    · rcases List.mem_cons.1 hg with rfl | hg
      · exact .inr (hput start)
      · exact .inl ⟨g, hg, hput⟩
    · rcases h f List.mem_cons_self with hput | hkeep
      · exact .inr (hput start)
      · exact .inr ((hkeep start).trans hstart)

/-- Whether it is the name of a field. -/
def Fields.has (record : Fields σ) (name : String) : Bool := record.fields.any (·.name = name)

theorem takesMember_field {m : String × Json} {field : Field σ} {change : σ → σ}
    (hfield : record.fields.find? (·.name = m.1) = some field) (h : Takes field.read m.2 change) :
    TakesMember record.readMember record.has m (m.1, change) := by
  have hname := List.find?_some hfield
  have hhas : record.has m.1 = true :=
    List.any_eq_true.2 ⟨field, List.mem_of_find?_eq_some hfield, hname⟩
  refine ⟨rfl, fun before hfresh depth d hd b b' text rest hb hb' hwritten hrest => ?_⟩
  obtain ⟨hshorter, hread⟩ := afterColon_complete (h hd) hb hb' hwritten hrest
  refine ⟨hshorter, ?_⟩
  simp only [Fields.readMember, hfield]
  rw [if_neg (by simpa using hfresh hhas)]
  exact hread

theorem takesMember_other {m : String × Json}
    (hnone : record.fields.find? (·.name = m.1) = none) :
    TakesMember record.readMember record.has m (m.1, id) := by
  refine ⟨rfl, fun before _ depth d hd b b' text rest hb hb' hwritten hrest => ?_⟩
  obtain ⟨hshorter, hread⟩ :=
    afterColon_complete (((takes_skip m.2).map fun _ => id) hd) hb hb' hwritten hrest
  refine ⟨hshorter, ?_⟩
  simp only [Fields.readMember, hnone]
  exact hread

/-- Behind a brace, the members of a record are read, and one has to be there for each field that
may not be missing. -/
theorem readRecord_of_mark {input rest : List Char} (hmark : skipBlank input = '{' :: rest) :
    readRecord record start input = do
      let members ← readMembers record.readMember rest
      let keys := members.value.map Prod.fst
      match record.fields.find? fun field => field.required && !keys.contains field.name with
      | some field => .error (.at (.missingField field.name) members.rest)
      | none =>
        return (members.map fun ms => applyAll (ms.map Prod.snd) start).afterMark hmark := by
  rw [readRecord.eq_def]
  split
  · next hskip =>
    cases hmark.symm.trans hskip
    rfl
  · next hskip => cases hmark.symm.trans hskip
  · next hobject _ => exact absurd hmark (hobject _)

/-- **A record is taken** if each of its members is, its fields occur once and those that have to
be there are. -/
theorem takes_record {change : String × Json → σ → σ}
    (h : ∀ m ∈ members, TakesMember record.readMember record.has m (m.1, change m))
    (honce : ((members.map Prod.fst).filter record.has).Nodup)
    (hrequired : ∀ field ∈ record.fields, field.required = true →
      field.name ∈ members.map Prod.fst) :
    Takes (readRecord record start) (.object members) (applyAll (members.map change) start) := by
  intro depth d hd b text rest hb hwritten hrest
  obtain ⟨ms, rfl, hms⟩ := document_eq_object hd
  obtain ⟨k, inner, rfl, rfl, hmembers⟩ := written_object.1 hwritten
  have hmark : skipBlank (b ++ ('{' :: inner ++ rest)) = '{' :: (inner ++ rest) :=
    skipBlank_mark hb (by decide) _
  have hkeys : (members.map fun m => (m.1, change m)).map Prod.fst = members.map Prod.fst := by
    rw [List.map_map]
    rfl
  have hchanges : (members.map fun m => (m.1, change m)).map Prod.snd = members.map change := by
    rw [List.map_map]
    rfl
  obtain ⟨hshorter, hread⟩ := readMembers_of_changes hms h honce hmembers rest
  have hpresent : (record.fields.find? fun field =>
      field.required && !(members.map Prod.fst).contains field.name) = none := by
    refine List.find?_eq_none.2 fun field hfield hmissing => ?_
    rw [Bool.and_eq_true, Bool.not_eq_true'] at hmissing
    have hmem := List.contains_iff_mem.2 (hrequired field hfield hmissing.1)
    exact absurd (hmem.symm.trans hmissing.2) (by decide)
  refine ⟨Nat.lt_trans hshorter (skipBlank_length_lt hmark), ?_⟩
  rw [readRecord_of_mark hmark]
  simp only [bind, Except.bind, hread, hkeys, hpresent]
  rw [← hchanges]
  rfl

end Records

/-! ## What readers give -/

section Gives

variable {P : α → Prop}

/-- A property of all that a reader gives, whatever it reads. -/
def Gives (reader : Reader α) (P : α → Prop) : Prop :=
  ∀ ⦃input : List Char⦄ ⦃step : Step input α⦄, reader input = .ok step → P step.value

theorem Gives.afterColon {reader : Reader α} (h : Gives reader P) :
    Gives (Json.afterColon reader) P := by
  intro input step hread
  obtain ⟨colon, -, hread⟩ := of_bind_eq_ok hread
  obtain ⟨value, hvalue, hread⟩ := of_bind_eq_ok hread
  cases hread
  exact (h hvalue : P value.value)

theorem Gives.map {reader : Reader α} {Q : β → Prop} {f : α → β} (h : ∀ a, Q (f a)) :
    Gives (fun input => (reader input).map (·.map f)) Q := by
  intro input step hread
  obtain ⟨value, -, rfl⟩ := of_map_eq_ok hread
  exact h value.value

theorem readMembersFrom_gives {member : List String → String → Reader α}
    (h : ∀ before key, Gives (member before key) P) (keys : List String) (first : Bool) :
    Gives (readMembersFrom member keys first) fun members => ∀ m ∈ members, P m.2 := by
  intro input step hread
  fun_induction readMembersFrom member keys first input with
  | case1 => cases hread
  | case2 =>
    cases hread
    exact fun m hm => (List.not_mem_nil hm).elim
  | case3 keys first input rest noLonger hnext ih =>
    obtain ⟨key, -, hread⟩ := of_bind_eq_ok hread
    obtain ⟨head, hhead, hread⟩ := of_bind_eq_ok hread
    obtain ⟨tail, htail, hread⟩ := of_bind_eq_ok hread
    cases hread
    exact List.forall_mem_cons.2 ⟨h _ _ hhead, ih key head htail⟩

theorem readRow_gives {P : (σ → σ) → Prop} {title : String} {count index : Nat}
    {fields : List (Field σ)} (h : ∀ field ∈ fields, Gives field.read P) :
    Gives (readRow title count index fields) fun changes => ∀ f ∈ changes, P f := by
  intro input step hread
  induction fields generalizing index input with
  | nil =>
    rw [readRow.eq_def] at hread
    simp only at hread
    split at hread
    · cases hread
    · cases hread
      exact fun f hf => (List.not_mem_nil hf).elim
    · split at hread <;> cases hread
    · cases hread
  | cons field fields ih =>
    rw [readRow.eq_def] at hread
    simp only at hread
    split at hread
    · cases hread
    · split at hread
      · cases hread
      · cases hread
        exact fun f hf => (List.not_mem_nil hf).elim
    · obtain ⟨head, hhead, hread⟩ := of_bind_eq_ok hread
      obtain ⟨tail, htail, hread⟩ := of_bind_eq_ok hread
      cases hread
      exact List.forall_mem_cons.2 ⟨h field List.mem_cons_self hhead,
        ih (fun g hg => h g (List.mem_cons_of_mem _ hg)) htail⟩

variable {Q : σ → Prop} {record : Fields σ} {start : σ}

theorem readMember_gives (h : ∀ field ∈ record.fields, Gives field.read fun f => ∀ s, Q s → Q (f s))
    (before : List String) (key : String) :
    Gives (record.readMember before key) fun f => ∀ s, Q s → Q (f s) := by
  intro input step hread
  rw [Fields.readMember.eq_def] at hread
  split at hread
  · have hskip : Gives (fun rest => (skipValue rest).map (·.map fun _ => (id : σ → σ)))
        fun f => ∀ s, Q s → Q (f s) := Gives.map fun _ _ hs => hs
    exact hskip.afterColon hread
  · next field hfield =>
    split at hread
    · cases hread
    · exact (h field (List.mem_of_find?_eq_some hfield)).afterColon hread

theorem applyAll_keeps {changes : List (σ → σ)} (h : ∀ f ∈ changes, ∀ s, Q s → Q (f s))
    (hstart : Q start) : Q (applyAll changes start) := by
  induction changes generalizing start with
  | nil => exact hstart
  | cons f changes ih =>
    exact ih (fun g hg => h g (List.mem_cons_of_mem _ hg)) (h f List.mem_cons_self _ hstart)

/-- **A record that is read** has what its start has and every field leaves to it. -/
theorem readRecord_gives
    (h : ∀ field ∈ record.fields, Gives field.read fun f => ∀ s, Q s → Q (f s)) (hstart : Q start) :
    Gives (readRecord record start) Q := by
  intro input step hread
  rw [readRecord.eq_def] at hread
  split at hread
  · obtain ⟨members, hmembers, hread⟩ := of_bind_eq_ok hread
    have hchanges := readMembersFrom_gives (readMember_gives h) [] true hmembers
    simp only at hread
    split at hread
    · cases hread
    · cases hread
      refine applyAll_keeps (fun f hf => ?_) hstart
      obtain ⟨m, hm, rfl⟩ := List.mem_map.1 hf
      exact hchanges m hm
  · obtain ⟨values, hvalues, hread⟩ := of_bind_eq_ok hread
    cases hread
    exact applyAll_keeps (readRow_gives h hvalues) hstart
  · cases hread

end Gives

end Json
end KernelRegistry
