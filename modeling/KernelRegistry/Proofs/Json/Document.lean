import Mathlib.Data.List.Forall2
import KernelRegistry.Json.Reader
import KernelRegistry.Proofs.Json.Numeral
import KernelRegistry.Proofs.Table

/-!
# The spelling of documents

A text that is read as a document determines more than the document: how each of its strings is
spelled.  This file says what the texts of documents are, without a reader.

* `Json.Literal` — a string with a spelling.
* `Json.Spelled` — a document whose strings and keys are spelled.
* `Items`, `Members`, `Written` — the texts of lists, objects and documents.
* `ReadsAs`, `ReadsMember` — what a reader gives for the texts of a document or of a member;
  `readItemsFrom_complete`, `readMembersFrom_complete` — for lists and objects over any readers.
* `readValue_sound`, `readValue_complete` — **the reader of documents reads these texts**.
* `parse_sound`, `parse_complete` — the same for texts that are one document.

How a literal is put in the text, and what it stands for, are parameters: a text that is made by
changing the literals is then a text of the same spelled document.
-/

set_option autoImplicit false
namespace KernelRegistry
namespace Json

/-- A string as it is spelled between two quotes.  The spelling is kept, because a token is looked
for in the spelling and not in the string. -/
structure Literal where
  raw : List Char
  value : List Char
  spells : Spells raw value

/-- A document whose strings and keys are spelled. -/
inductive Spelled where
  | null
  | bool (value : Bool)
  | number (value : Number)
  | string (literal : Literal)
  | array (items : List Spelled)
  | object (members : List (Literal × Spelled))

namespace Spelled

mutual

/-- The document, given what every literal stands for. -/
def document (value : Literal → List Char) : Spelled → Json
  | null => .null
  | bool b => .bool b
  | number n => .number n
  | string l => .string (String.ofList (value l))
  | array items => .array (itemDocuments value items)
  | object members => .object (memberDocuments value members)

/-- The documents of the items of a list. -/
def itemDocuments (value : Literal → List Char) : List Spelled → List Json
  | [] => []
  | item :: items => document value item :: itemDocuments value items

/-- The members of an object with their documents. -/
def memberDocuments (value : Literal → List Char) :
    List (Literal × Spelled) → List (String × Json)
  | [] => []
  | member :: members =>
    (String.ofList (value member.1), document value member.2) :: memberDocuments value members

end

theorem itemDocuments_eq (value : Literal → List Char) (items : List Spelled) :
    itemDocuments value items = items.map (document value) := by
  induction items with
  | nil => rfl
  | cons item items ih => exact congrArg _ ih

theorem memberDocuments_eq (value : Literal → List Char) (members : List (Literal × Spelled)) :
    memberDocuments value members =
      members.map fun m => (String.ofList (value m.1), m.2.document value) := by
  induction members with
  | nil => rfl
  | cons m ms ih => exact congrArg _ ih

end Spelled

/-! ## Texts -/

/-- Nothing but blanks. -/
def Blank (b : List Char) : Prop := ∀ c ∈ b, isSpace c = true

theorem blank_nil : Blank [] := by
  intro c hc
  cases hc

/-- The text in front of something in a list or an object: blanks, and a comma with blanks if it is
not the first. -/
inductive Lead : Bool → List Char → Prop
  | first {b : List Char} (h : Blank b) : Lead true b
  | next {b b' : List Char} (h : Blank b) (h' : Blank b') : Lead false (b ++ ',' :: b')

/-- The texts of the items of a list after some of them, with the closing bracket. -/
inductive Items (W : Spelled → List Char → Prop) : Bool → List Spelled → List Char → Prop
  | close {first : Bool} {b : List Char} (h : Blank b) : Items W first [] (b ++ [']'])
  | more {first : Bool} {x : Spelled} {xs : List Spelled} {lead text tail : List Char}
      (hlead : Lead first lead) (hx : W x text) (hxs : Items W false xs tail) :
      Items W first (x :: xs) (lead ++ (text ++ tail))

/-- The texts of the members of an object after some of them, with the closing bracket. -/
inductive Members (spell : Literal → List Char) (W : Spelled → List Char → Prop) :
    Bool → List (Literal × Spelled) → List Char → Prop
  | close {first : Bool} {b : List Char} (h : Blank b) : Members spell W first [] (b ++ ['}'])
  | more {first : Bool} {key : Literal} {x : Spelled} {xs : List (Literal × Spelled)}
      {lead b b' text tail : List Char} (hlead : Lead first lead) (hb : Blank b) (hb' : Blank b')
      (hx : W x text) (hxs : Members spell W false xs tail) :
      Members spell W first ((key, x) :: xs)
        (lead ++ '"' :: (spell key ++ '"' :: (b ++ ':' :: (b' ++ (text ++ tail)))))

/-- The texts of a document with fewer than `depth` brackets open at a time, given the spelling of
every literal.  No blank stands before or after it. -/
def Written (spell : Literal → List Char) : Nat → Spelled → List Char → Prop
  | _, .null, text => text = ['n', 'u', 'l', 'l']
  | _, .bool true, text => text = ['t', 'r', 'u', 'e']
  | _, .bool false, text => text = ['f', 'a', 'l', 's', 'e']
  | _, .number n, text => WrittenNumber n text
  | _, .string l, text => text = '"' :: (spell l ++ ['"'])
  | depth + 2, .array items, text => ∃ inner, text = '[' :: inner ∧
      Items (fun x t => Written spell (depth + 1) x t) true items inner
  | depth + 2, .object members, text => ∃ inner, text = '{' :: inner ∧
      Members spell (fun x t => Written spell (depth + 1) x t) true members inner
  | _, .array _, _ => False
  | _, .object _, _ => False

section Written

variable {spell : Literal → List Char} {depth : Nat} {text : List Char}

attribute [local simp] Written

theorem written_null : Written spell depth .null text ↔ text = ['n', 'u', 'l', 'l'] := by
  simp

theorem written_true : Written spell depth (.bool true) text ↔ text = ['t', 'r', 'u', 'e'] := by
  simp

theorem written_false :
    Written spell depth (.bool false) text ↔ text = ['f', 'a', 'l', 's', 'e'] := by
  simp

theorem written_number {n : Number} :
    Written spell depth (.number n) text ↔ WrittenNumber n text := by
  simp

theorem written_string {l : Literal} :
    Written spell depth (.string l) text ↔ text = '"' :: (spell l ++ ['"']) := by
  simp

theorem written_array {items : List Spelled} : Written spell depth (.array items) text ↔
    ∃ k inner, depth = k + 2 ∧ text = '[' :: inner ∧
      Items (fun x t => Written spell (k + 1) x t) true items inner := by
  rcases depth with - | - | k
  · simp
  · simp
  · simp

theorem written_object {members : List (Literal × Spelled)} :
    Written spell depth (.object members) text ↔ ∃ k inner, depth = k + 2 ∧ text = '{' :: inner ∧
      Members spell (fun x t => Written spell (k + 1) x t) true members inner := by
  rcases depth with - | - | k
  · simp
  · simp
  · simp

end Written

/-- The texts of a document, with blanks around it. -/
def WrittenText (spell : Literal → List Char) (d : Spelled) (text : List Char) : Prop :=
  ∃ b text' b', Blank b ∧ Blank b' ∧ Written spell depthLimit d text' ∧ text = b ++ (text' ++ b')

/-! ## Between the items and members -/

section Between

variable {input rest b lead : List Char} {first : Bool} {c : Char}

theorem exists_blank (input : List Char) : ∃ b, Blank b ∧ input = b ++ skipBlank input :=
  ⟨input.takeWhile isSpace, fun _ hc => List.all_eq_true.1 List.all_takeWhile _ hc,
    List.takeWhile_append_dropWhile.symm⟩

theorem skipBlank_append (hb : Blank b) (rest : List Char) :
    skipBlank (b ++ rest) = skipBlank rest := by
  rw [skipBlank, List.dropWhile_append_of_pos hb]
  rfl

theorem skipBlank_cons (hc : isSpace c = false) (rest : List Char) :
    skipBlank (c :: rest) = c :: rest := by
  rw [skipBlank, List.dropWhile_cons_of_neg (by simp [hc])]

theorem nextItem_close {shorter : rest.length < input.length}
    (h : nextItem first input = .ok (.close rest shorter)) :
    ∃ b, Blank b ∧ input = b ++ ']' :: rest := by
  obtain ⟨b, hb, hinput⟩ := exists_blank input
  rw [nextItem.eq_def] at h
  split at h
  · cases h
  · next hskip =>
    cases h
    rw [hskip] at hinput
    exact ⟨b, hb, hinput⟩
  · split at h
    · cases h
    · split at h
      · split at h <;> cases h
      · cases h

theorem nextItem_more {noLonger : rest.length ≤ input.length}
    (h : nextItem first input = .ok (.more rest noLonger)) :
    ∃ lead, Lead first lead ∧ input = lead ++ rest := by
  obtain ⟨b, hb, hinput⟩ := exists_blank input
  rw [nextItem.eq_def] at h
  split at h
  · cases h
  · cases h
  · next c more hclose hskip =>
    rw [hskip] at hinput
    split at h
    · next hfirst =>
      cases h
      exact ⟨b, hfirst ▸ .first hb, hinput⟩
    · next hfirst =>
      obtain rfl := Bool.eq_false_iff.2 hfirst
      split at h
      · next hcomma =>
        subst hcomma
        obtain ⟨b', hb', hmore⟩ := exists_blank more
        split at h
        · cases h
        · cases h
        · cases h
          refine ⟨b ++ ',' :: b', .next hb hb', ?_⟩
          rw [hinput, List.append_assoc, List.cons_append, ← hmore]
      · cases h

theorem nextMember_close {shorter : rest.length < input.length}
    (h : nextMember first input = .ok (.close rest shorter)) :
    ∃ b, Blank b ∧ input = b ++ '}' :: rest := by
  obtain ⟨b, hb, hinput⟩ := exists_blank input
  rw [nextMember.eq_def] at h
  split at h
  · cases h
  · next hskip =>
    cases h
    rw [hskip] at hinput
    exact ⟨b, hb, hinput⟩
  · split at h
    · split at h <;> cases h
    · split at h
      · split at h <;> cases h
      · cases h

theorem nextMember_more {noLonger : rest.length ≤ input.length}
    (h : nextMember first input = .ok (.more rest noLonger)) :
    ∃ lead, Lead first lead ∧ input = lead ++ '"' :: rest := by
  obtain ⟨b, hb, hinput⟩ := exists_blank input
  rw [nextMember.eq_def] at h
  split at h
  · cases h
  · cases h
  · next c more hclose hskip =>
    rw [hskip] at hinput
    split at h
    · next hfirst =>
      split at h
      · next hquote =>
        cases h
        exact ⟨b, hfirst ▸ .first hb, hquote ▸ hinput⟩
      · cases h
    · next hfirst =>
      obtain rfl := Bool.eq_false_iff.2 hfirst
      split at h
      · next hcomma =>
        subst hcomma
        obtain ⟨b', hb', hmore⟩ := exists_blank more
        split at h
        · cases h
        · next key hkey =>
          cases h
          rw [hkey] at hmore
          refine ⟨b ++ ',' :: b', .next hb hb', ?_⟩
          rw [hinput, List.append_assoc, List.cons_append, ← hmore]
        · cases h
        · cases h
      · cases h

theorem readColon_sound {step : Step input Unit} (h : readColon input = .ok step) :
    ∃ b, Blank b ∧ input = b ++ ':' :: step.rest := by
  obtain ⟨b, hb, hinput⟩ := exists_blank input
  rw [readColon.eq_def] at h
  split at h
  · cases h
  · next hskip =>
    cases h
    rw [hskip] at hinput
    exact ⟨b, hb, hinput⟩
  · cases h

/-! ### Finding what comes next -/

theorem skipBlank_mark (hb : Blank b) (hc : isSpace c = false) (rest : List Char) :
    skipBlank (b ++ c :: rest) = c :: rest := by
  rw [skipBlank_append hb, skipBlank_cons hc]

/-- After the blanks comes the comma that stands in front of what is not the first. -/
theorem skipBlank_comma {b : List Char} (hb : Blank b) (b' rest : List Char) :
    skipBlank (b ++ ',' :: b' ++ rest) = ',' :: (b' ++ rest) := by
  rw [List.append_assoc, List.cons_append]
  exact skipBlank_mark hb (by decide) _

theorem nextItem_of_close (hb : Blank b) (first : Bool) (rest : List Char) :
    ∃ h, nextItem first (b ++ ']' :: rest) = .ok (.close rest h) := by
  have hmark := skipBlank_mark (c := ']') hb (by decide) rest
  refine ⟨skipBlank_length_lt hmark, ?_⟩
  rw [nextItem.eq_def]
  split
  · next hskip => cases hmark.symm.trans hskip
  · next hskip =>
    cases hmark.symm.trans hskip
    rfl
  · next hclose hskip =>
    cases hmark.symm.trans hskip
    exact absurd rfl hclose

theorem nextItem_of_lead (hlead : Lead first lead) (hc : isSpace c = false) (hclose : c ≠ ']')
    (rest : List Char) : ∃ h, nextItem first (lead ++ c :: rest) = .ok (.more (c :: rest) h) := by
  refine ⟨by simp only [List.length_append]; omega, ?_⟩
  rw [nextItem.eq_def]
  cases hlead with
  | first hb =>
    have hmark := skipBlank_mark hb hc rest
    split
    · next hskip => cases hmark.symm.trans hskip
    · next hskip =>
      cases hmark.symm.trans hskip
      exact absurd rfl hclose
    · next hskip =>
      cases hmark.symm.trans hskip
      rfl
  | @next b b' hb hb' =>
    have hmark := skipBlank_comma hb b' (c :: rest)
    have hmark' := skipBlank_mark hb' hc rest
    split
    · next hskip => cases hmark.symm.trans hskip
    · next hskip => cases hmark.symm.trans hskip
    · next hskip =>
      cases hmark.symm.trans hskip
      simp only [Bool.false_eq_true, if_false, if_true]
      split
      · next hskip' => cases hmark'.symm.trans hskip'
      · next hskip' =>
        cases hmark'.symm.trans hskip'
        exact absurd rfl hclose
      · simp only [hmark']

theorem nextMember_of_close (hb : Blank b) (first : Bool) (rest : List Char) :
    ∃ h, nextMember first (b ++ '}' :: rest) = .ok (.close rest h) := by
  have hmark := skipBlank_mark (c := '}') hb (by decide) rest
  refine ⟨skipBlank_length_lt hmark, ?_⟩
  rw [nextMember.eq_def]
  split
  · next hskip => cases hmark.symm.trans hskip
  · next hskip =>
    cases hmark.symm.trans hskip
    rfl
  · next hclose hskip =>
    cases hmark.symm.trans hskip
    exact absurd rfl hclose

theorem nextMember_of_lead (hlead : Lead first lead) (rest : List Char) :
    ∃ h, nextMember first (lead ++ '"' :: rest) = .ok (.more rest h) := by
  refine ⟨by simp only [List.length_append, List.length_cons]; omega, ?_⟩
  rw [nextMember.eq_def]
  cases hlead with
  | first hb =>
    have hmark := skipBlank_mark (c := '"') hb (by decide) rest
    split
    · next hskip => cases hmark.symm.trans hskip
    · next hskip => cases hmark.symm.trans hskip
    · next hskip =>
      cases hmark.symm.trans hskip
      rfl
  | @next b b' hb hb' =>
    have hmark := skipBlank_comma hb b' ('"' :: rest)
    have hmark' := skipBlank_mark (c := '"') hb' (by decide) rest
    split
    · next hskip => cases hmark.symm.trans hskip
    · next hskip => cases hmark.symm.trans hskip
    · next hskip =>
      cases hmark.symm.trans hskip
      simp only [Bool.false_eq_true, if_false, if_true]
      split
      · next hskip' => cases hmark'.symm.trans hskip'
      · next hskip' =>
        cases hmark'.symm.trans hskip'
        rfl
      · next hskip' => cases hmark'.symm.trans hskip'
      · next hquote _ => exact absurd hmark' (hquote _)

theorem readColon_complete (hb : Blank b) (rest : List Char) :
    Reads readColon (b ++ ':' :: rest) () rest := by
  have hmark := skipBlank_mark (c := ':') hb (by decide) rest
  refine ⟨skipBlank_length_lt hmark, ?_⟩
  rw [readColon.eq_def]
  split
  · next hskip => cases hmark.symm.trans hskip
  · next hskip =>
    cases hmark.symm.trans hskip
    rfl
  · next hcolon => exact absurd hmark (hcolon _)

end Between

/-! ## Lists and objects -/

section Collections

variable {input rest b : List Char} {first : Bool} {c : Char} {W : Spelled → List Char → Prop}
  {spell value : Literal → List Char}

theorem Lead.append {lead : List Char} (hlead : Lead first lead) (hb : Blank b) :
    Lead first (lead ++ b) := by
  have happend : ∀ {a : List Char}, Blank a → Blank (a ++ b) := fun ha c hc =>
    (List.mem_append.1 hc).elim (ha c) (hb c)
  cases hlead with
  | first h => exact .first (happend h)
  | next h h' =>
    rw [List.append_assoc]
    exact .next h (happend h')

/-- A reader gives the documents of texts that have a relation to spelled documents. -/
def ReaderSound (W : Spelled → List Char → Prop) (reader : Reader Json) : Prop :=
  ∀ {input : List Char} {step : Step input Json}, reader input = .ok step →
    ∃ b d text, Blank b ∧ W d text ∧ step.value = d.document Literal.value ∧
      input = b ++ (text ++ step.rest)

/-- The texts of a spelled document are read as a value, also after blanks. -/
def ReadsAs {α : Type} (W : Spelled → List Char → Prop) (reader : Reader α) (d : Spelled)
    (a : α) : Prop :=
  ∀ ⦃b text rest : List Char⦄, Blank b → W d text → AtEnd rest →
    Reads reader (b ++ (text ++ rest)) a rest

/-- The texts of a spelled document are read as a value, after a colon. -/
def ReadsAfterColon {α : Type} (W : Spelled → List Char → Prop) (reader : Reader α) (d : Spelled)
    (a : α) : Prop :=
  ∀ ⦃b b' text rest : List Char⦄, Blank b → Blank b' → W d text → AtEnd rest →
    Reads reader (b ++ ':' :: (b' ++ (text ++ rest))) a rest

/-- No text starts with a blank or a closing bracket.  A reader of lists tells by this whether there
is another item. -/
def Opens (W : Spelled → List Char → Prop) : Prop :=
  ∀ ⦃d : Spelled⦄ ⦃text : List Char⦄, W d text →
    ∃ c more, text = c :: more ∧ isSpace c = false ∧ c ≠ ']'

/-- **What is read as a list is the text of one.** -/
theorem readItemsFrom_sound {item : Reader Json} (hitem : ReaderSound W item)
    {step : Step input (List Json)} (h : readItemsFrom item first input = .ok step) :
    ∃ items text, Items W first items text ∧
      step.value = Spelled.itemDocuments Literal.value items ∧ input = text ++ step.rest := by
  fun_induction readItemsFrom item first input with
  | case1 => cases h
  | case2 first input rest shorter hnext =>
    cases h
    obtain ⟨b, hb, hinput⟩ := nextItem_close hnext
    exact ⟨[], b ++ [']'], .close hb, rfl, hinput.trans (by simp)⟩
  | case3 first input rest noLonger hnext ih =>
    obtain ⟨head, hhead, h⟩ := of_bind_eq_ok h
    obtain ⟨tail, htail, h⟩ := of_bind_eq_ok h
    cases h
    obtain ⟨lead, hlead, hinput⟩ := nextItem_more hnext
    obtain ⟨b, d, text, hb, hd, hvalue, hrest⟩ := hitem hhead
    obtain ⟨items, tailText, hitems, hvalues, hleft⟩ := ih head htail
    have hwhole := hinput.trans (congrArg _ (hrest.trans (congrArg _ (congrArg _ hleft))))
    refine ⟨d :: items, _, .more (hlead.append hb) hd hitems, ?_, hwhole.trans ?_⟩
    · show head.value :: tail.value = _
      rw [hvalue, hvalues]
      rfl
    · simp [Step.within, Step.join]

theorem afterColon_sound {reader : Reader Json} (hreader : ReaderSound W reader)
    {step : Step input Json} (h : afterColon reader input = .ok step) :
    ∃ b b' d text, Blank b ∧ Blank b' ∧ W d text ∧ step.value = d.document Literal.value ∧
      input = b ++ ':' :: (b' ++ (text ++ step.rest)) := by
  rw [afterColon] at h
  obtain ⟨colon, hcolon, h⟩ := of_bind_eq_ok h
  obtain ⟨step', hstep, h⟩ := of_bind_eq_ok h
  cases h
  obtain ⟨b, hb, hinput⟩ := readColon_sound hcolon
  obtain ⟨b', d, text, hb', hd, hvalue, hrest⟩ := hreader hstep
  refine ⟨b, b', d, text, hb, hb', hd, hvalue, hinput.trans ?_⟩
  exact congrArg (fun rest => b ++ ':' :: rest) hrest

/-- **What is read as an object is the text of one.** -/
theorem readMembersFrom_sound {reader : Reader Json} (hreader : ReaderSound W reader)
    {keys : List String} {step : Step input (List (String × Json))}
    (h : readMembersFrom (fun _ _ => afterColon reader) keys first input = .ok step) :
    ∃ members text, Members Literal.raw W first members text ∧
      step.value = Spelled.memberDocuments Literal.value members ∧ input = text ++ step.rest := by
  fun_induction readMembersFrom (fun _ _ => afterColon reader) keys first input with
  | case1 => cases h
  | case2 keys first input rest shorter hnext =>
    cases h
    obtain ⟨b, hb, hinput⟩ := nextMember_close hnext
    exact ⟨[], b ++ ['}'], .close hb, rfl, hinput.trans (by simp)⟩
  | case3 keys first input rest noLonger hnext ih =>
    obtain ⟨key, hkey, h⟩ := of_bind_eq_ok h
    obtain ⟨head, hhead, h⟩ := of_bind_eq_ok h
    obtain ⟨tail, htail, h⟩ := of_bind_eq_ok h
    cases h
    obtain ⟨lead, hlead, hinput⟩ := nextMember_more hnext
    obtain ⟨raw, hraw, hspells⟩ := readString_sound hkey
    obtain ⟨b, b', d, text, hb, hb', hd, hvalue, hrest⟩ := afterColon_sound hreader hhead
    obtain ⟨members, tailText, hmembers, hvalues, hleft⟩ := ih key head htail
    refine ⟨(⟨raw, key.value, hspells⟩, d) :: members, _, .more hlead hb hb' hd hmembers, ?_, ?_⟩
    · show (String.ofList key.value, head.value) :: tail.value = _
      rw [hvalue, hvalues]
      rfl
    · have hafter := hrest.trans (congrArg (fun r => b ++ ':' :: (b' ++ (text ++ r))) hleft)
      have hkeyed := hraw.trans (congrArg (fun r => raw ++ '"' :: r) hafter)
      refine hinput.trans ((congrArg (fun r => lead ++ '"' :: r) hkeyed).trans ?_)
      simp [Step.within, Step.join]

/-! ### Reading the texts -/

theorem continuesNumber_of_isSpace (h : isSpace c = true) : continuesNumber c = false := by
  simp only [isSpace, Bool.or_eq_true, decide_eq_true_eq] at h
  rcases h with ((rfl | rfl) | rfl) | rfl <;> decide

theorem Blank.atEnd (hb : Blank b) : AtEnd b := by
  rintro c more rfl
  exact continuesNumber_of_isSpace (hb c List.mem_cons_self)

theorem atEnd_of_mark (hb : Blank b) (hc : continuesNumber c = false) (rest : List Char) :
    AtEnd (b ++ c :: rest) := by
  cases b with
  | nil =>
    rintro d more ⟨⟩
    exact hc
  | cons blank b =>
    rintro d more ⟨⟩
    exact continuesNumber_of_isSpace (hb blank List.mem_cons_self)

theorem Items.atEnd {items : List Spelled} {tail : List Char} (h : Items W false items tail)
    (rest : List Char) : AtEnd (tail ++ rest) := by
  cases h with
  | close hb =>
    rw [List.append_assoc]
    exact atEnd_of_mark hb (by decide) _
  | more hlead =>
    cases hlead with
    | next hb hb' =>
      rw [List.append_assoc, List.append_assoc]
      exact atEnd_of_mark hb (by decide) _

theorem Members.atEnd {members : List (Literal × Spelled)} {tail : List Char}
    (h : Members spell W false members tail) (rest : List Char) : AtEnd (tail ++ rest) := by
  cases h with
  | close hb =>
    rw [List.append_assoc]
    exact atEnd_of_mark hb (by decide) _
  | more hlead =>
    cases hlead with
    | next hb hb' =>
      rw [List.append_assoc, List.append_assoc]
      exact atEnd_of_mark hb (by decide) _

/-- **The text of a list is read** up to its bracket, if those of its items are. -/
theorem readItemsFrom_complete {α : Type} {item : Reader α} (hopens : Opens W)
    {items : List Spelled} {values : List α} (hitems : List.Forall₂ (ReadsAs W item) items values)
    {text : List Char} (h : Items W first items text) (rest : List Char) :
    Reads (readItemsFrom item first) (text ++ rest) values rest := by
  induction h generalizing values with
  | @close first b hb =>
    cases hitems
    obtain ⟨hshorter, hnext⟩ := nextItem_of_close hb first rest
    rw [List.append_assoc]
    refine ⟨hshorter, ?_⟩
    show readItemsFrom item first (b ++ ']' :: rest) = _
    rw [readItemsFrom, hnext]
  | @more first d items lead text tail hlead hd htail ih =>
    obtain - | ⟨hitem, hitems⟩ := hitems
    obtain ⟨c, more, rfl, hspace, hclose⟩ := hopens hd
    obtain ⟨hnoLonger, hnext⟩ := nextItem_of_lead hlead hspace hclose (more ++ (tail ++ rest))
    obtain ⟨hshorter, hread⟩ := hitem (b := []) (by simp [Blank]) hd (htail.atEnd rest)
    obtain ⟨hshorter', htail⟩ := ih hitems
    have htext : lead ++ (c :: more ++ tail) ++ rest = lead ++ c :: (more ++ (tail ++ rest)) := by
      simp
    rw [htext]
    refine ⟨Nat.lt_of_lt_of_le (Nat.lt_trans hshorter' hshorter) hnoLonger, ?_⟩
    rw [readItemsFrom, hnext]
    change item (c :: (more ++ (tail ++ rest))) = _ at hread
    simp only [bind, Except.bind, hread, htail]
    rfl

theorem afterColon_complete {α : Type} {reader : Reader α} {d : Spelled} {a : α}
    (h : ReadsAs W reader d a) : ReadsAfterColon W (afterColon reader) d a := by
  intro b b' text rest hb hb' hd hrest
  obtain ⟨hshorter, hcolon⟩ := readColon_complete hb (b' ++ (text ++ rest))
  obtain ⟨hshorter', hread⟩ := h hb' hd hrest
  refine ⟨Nat.lt_trans hshorter' hshorter, ?_⟩
  rw [afterColon, hcolon]
  simp only [bind, Except.bind, hread]
  rfl

/-- A member with its text after the key is read as an entry, where a name that may occur only once
did not occur before. -/
def ReadsMember {α : Type} (value : Literal → List Char) (W : Spelled → List Char → Prop)
    (member : List String → String → Reader α) (once : String → Bool) (m : Literal × Spelled)
    (entry : String × α) : Prop :=
  entry.1 = String.ofList (value m.1) ∧
    ∀ before, (once entry.1 = true → entry.1 ∉ before) →
      ReadsAfterColon W (member before entry.1) m.2 entry.2

/-- A name that may occur only once did not occur before. -/
theorem fresh_of_nodup {once : String → Bool} {keys names : List String} {name : String}
    (h : ((keys ++ name :: names).filter once).Nodup) : once name = true → name ∉ keys := by
  intro honce hmem
  rw [List.filter_append] at h
  exact (List.nodup_append.1 h).2.2 _ (List.mem_filter.2 ⟨hmem, honce⟩) _
    (List.mem_filter.2 ⟨List.mem_cons_self, honce⟩) rfl

/-- **The text of an object is read** up to its bracket, if those of its members are and the names
that may occur only once do so. -/
theorem readMembersFrom_complete {α : Type} {member : List String → String → Reader α}
    {once : String → Bool} (hspell : ∀ l : Literal, Spells (spell l) (value l)) {keys : List String}
    {members : List (Literal × Spelled)} {entries : List (String × α)}
    (hmembers : List.Forall₂ (ReadsMember value W member once) members entries)
    (honce : ((keys ++ entries.map Prod.fst).filter once).Nodup) {text : List Char}
    (h : Members spell W first members text) (rest : List Char) :
    Reads (readMembersFrom member keys first) (text ++ rest) entries rest := by
  induction h generalizing keys entries with
  | @close first b hb =>
    cases hmembers
    obtain ⟨hshorter, hnext⟩ := nextMember_of_close hb first rest
    rw [List.append_assoc]
    refine ⟨hshorter, ?_⟩
    show readMembersFrom _ keys first (b ++ '}' :: rest) = _
    rw [readMembersFrom, hnext]
  | @more first key d members lead b b' text tail hlead hb hb' hd htail ih =>
    obtain - | @⟨_, ⟨name, a⟩, _, entries, ⟨hname, hmember⟩, hmembers⟩ := hmembers
    change name = String.ofList (value key) at hname
    subst hname
    have hfresh := fresh_of_nodup honce
    rw [List.map_cons, List.append_cons] at honce
    obtain ⟨hnoLonger, hnext⟩ := nextMember_of_lead hlead
      (spell key ++ '"' :: (b ++ ':' :: (b' ++ (text ++ (tail ++ rest)))))
    obtain ⟨hshorter, hkey⟩ := readString_complete (hspell key)
      (b ++ ':' :: (b' ++ (text ++ (tail ++ rest))))
    obtain ⟨hshorter', hread⟩ := hmember keys hfresh hb hb' hd (htail.atEnd rest)
    obtain ⟨hshorter'', hrest⟩ := ih hmembers honce
    simp only [List.append_assoc, List.cons_append]
    refine ⟨Nat.lt_of_lt_of_le (Nat.lt_trans hshorter'' (Nat.lt_trans hshorter' hshorter))
      hnoLonger, ?_⟩
    rw [readMembersFrom, hnext]
    simp only [bind, Except.bind, hkey, hread, hrest]
    rfl

end Collections

/-! ## Documents -/

section Documents

variable {input rest text : List Char} {spell value : Literal → List Char} {depth : Nat}
  {d : Spelled}

theorem readWord_sound {letters : List Char}
    {left : {rest : List Char // rest.length ≤ input.length}}
    (h : readWord letters input = .ok left) : input = letters ++ left.1 := by
  fun_induction readWord letters input with
  | case1 input =>
    cases h
    rfl
  | case2 => cases h
  | case3 letter letters input ih =>
    obtain ⟨rest, hrest, h⟩ := of_bind_eq_ok h
    cases h
    exact congrArg _ (ih hrest)
  | case4 => cases h

theorem readWord_complete (letters rest : List Char) :
    ∃ h, readWord letters (letters ++ rest) = .ok ⟨rest, h⟩ := by
  induction letters with
  | nil => exact ⟨Nat.le_refl _, rfl⟩
  | cons letter letters ih =>
    obtain ⟨hle, hread⟩ := ih
    refine ⟨Nat.le_succ_of_le hle, ?_⟩
    show readWord (letter :: letters) (letter :: (letters ++ rest)) = _
    rw [readWord, if_pos rfl, hread]
    rfl

theorem readScalar_word_sound {c : Char} {letters : List Char} {j : Json}
    {step : Step (c :: input) Json} (h : readScalar.word letters j input = .ok step) :
    step.value = j ∧ c :: input = c :: letters ++ step.rest := by
  rw [readScalar.word] at h
  obtain ⟨left, hleft, h⟩ := of_bind_eq_ok h
  cases h
  exact ⟨rfl, congrArg _ (readWord_sound hleft)⟩

theorem readScalar_word_complete (c : Char) (letters : List Char) (j : Json) (rest : List Char) :
    ∃ h, readScalar.word letters j (letters ++ rest) =
      .ok (⟨j, rest, h⟩ : Step (c :: (letters ++ rest)) Json) := by
  obtain ⟨hle, hread⟩ := readWord_complete letters rest
  refine ⟨Nat.lt_succ_of_le hle, ?_⟩
  rw [readScalar.word, hread]
  rfl

/-- **What is read as neither list nor object is the text of such a document.** -/
theorem readScalar_sound (depth : Nat) {step : Step input Json} (h : readScalar input = .ok step) :
    ∃ d text, Written Literal.raw depth d text ∧ step.value = d.document Literal.value ∧
      input = text ++ step.rest := by
  rw [readScalar.eq_def] at h
  split at h
  · obtain ⟨hvalue, hinput⟩ := readScalar_word_sound h
    exact ⟨.null, _, written_null.2 rfl, hvalue, hinput⟩
  · obtain ⟨hvalue, hinput⟩ := readScalar_word_sound h
    exact ⟨.bool true, _, written_true.2 rfl, hvalue, hinput⟩
  · obtain ⟨hvalue, hinput⟩ := readScalar_word_sound h
    exact ⟨.bool false, _, written_false.2 rfl, hvalue, hinput⟩
  · next rest =>
    obtain ⟨step', hstep, h⟩ := of_bind_eq_ok h
    cases h
    obtain ⟨raw, hraw, hspells⟩ := readString_sound hstep
    refine ⟨.string ⟨raw, step'.value, hspells⟩, _, written_string.2 rfl, rfl, ?_⟩
    exact (congrArg _ hraw).trans (by simp)
  · cases h
  · split at h
    · obtain ⟨step', hstep, rfl⟩ := of_map_eq_ok h
      obtain ⟨text, hn, hinput⟩ := readNumber_sound hstep
      exact ⟨.number step'.value, text, written_number.2 hn, rfl, hinput⟩
    · cases h

/-- Scalars are neither list nor object, so a skip takes them at once. -/
def Spelled.isScalar : Spelled → Bool
  | .array _ | .object _ => false
  | _ => true

/-- **The text of a document that is neither list nor object is read.** -/
theorem readScalar_complete (hspell : ∀ l : Literal, Spells (spell l) (value l))
    (h : Written spell depth d text) (hscalar : d.isScalar = true) (hrest : AtEnd rest) :
    Reads readScalar (text ++ rest) (d.document value) rest := by
  cases d with
  | null =>
    obtain rfl := written_null.1 h
    exact readScalar_word_complete 'n' ['u', 'l', 'l'] .null rest
  | bool b =>
    cases b with
    | true =>
      obtain rfl := written_true.1 h
      exact readScalar_word_complete 't' ['r', 'u', 'e'] (.bool true) rest
    | false =>
      obtain rfl := written_false.1 h
      exact readScalar_word_complete 'f' ['a', 'l', 's', 'e'] (.bool false) rest
  | number n =>
    have hnumber := written_number.1 h
    obtain ⟨hshorter, hread⟩ := readNumber_complete hnumber hrest
    obtain ⟨numeral, hnumeral, -⟩ := hnumber
    obtain ⟨c, more, rfl, hc⟩ := hnumeral.head
    have hne : ∀ x : Char, x ≠ '-' → x.isDigit = false → c ≠ x := fun x => ne_of_opensNumber hc
    have hfirst : (decide (c = '-') || c.isDigit) = true := by simpa using hc
    refine ⟨hshorter, ?_⟩
    show readScalar (c :: (more ++ rest)) = _
    change readNumber (c :: (more ++ rest)) = _ at hread
    rw [readScalar.eq_6 _ _ (hne 'n' (by decide) (by decide)) (hne 't' (by decide) (by decide))
      (hne 'f' (by decide) (by decide)) (hne '"' (by decide) (by decide)), if_pos hfirst, hread]
    rfl
  | string l =>
    obtain rfl := written_string.1 h
    obtain ⟨hshorter, hread⟩ := readString_complete (hspell l) rest
    have htext : '"' :: (spell l ++ ['"']) ++ rest = '"' :: (spell l ++ '"' :: rest) := by simp
    rw [htext]
    refine ⟨Nat.lt_succ_of_lt hshorter, ?_⟩
    rw [readScalar, hread]
    rfl
  | array items => cases hscalar
  | object members => cases hscalar

/-- **What is read as a document is the text of one.** -/
theorem readValue_sound (depth : Nat) :
    ReaderSound (fun d text => Written Literal.raw depth d text) (readValue depth) := by
  induction depth using Nat.strongRecOn with
  | ind depth ih =>
    intro input step h
    obtain ⟨b, hb, hinput⟩ := exists_blank input
    rw [readValue.eq_def] at h
    split at h
    · next rest hskip =>
      split at h
      · next depth =>
        obtain ⟨items, hitems, h⟩ := of_bind_eq_ok h
        cases h
        obtain ⟨ds, inner, hinner, hvalue, hrest⟩ :=
          readItemsFrom_sound (ih (depth + 1) (Nat.lt_succ_self _)) hitems
        have htext := written_array.2 ⟨depth, inner, rfl, rfl, hinner⟩
        refine ⟨b, _, _, hb, htext, congrArg Json.array hvalue, ?_⟩
        rw [hskip] at hinput
        exact hinput.trans (congrArg (fun r => b ++ '[' :: r) hrest)
      · cases h
    · next rest hskip =>
      split at h
      · next depth =>
        obtain ⟨members, hmembers, h⟩ := of_bind_eq_ok h
        cases h
        obtain ⟨ms, inner, hinner, hvalue, hrest⟩ :=
          readMembersFrom_sound (ih (depth + 1) (Nat.lt_succ_self _)) hmembers
        have htext := written_object.2 ⟨depth, inner, rfl, rfl, hinner⟩
        refine ⟨b, _, _, hb, htext, congrArg Json.object hvalue, ?_⟩
        rw [hskip] at hinput
        exact hinput.trans (congrArg (fun r => b ++ '{' :: r) hrest)
      · cases h
    · obtain ⟨step', hstep, rfl⟩ := of_map_eq_ok h
      obtain ⟨d, text, hd, hvalue, hrest⟩ := readScalar_sound depth hstep
      exact ⟨b, d, text, hb, hd, hvalue, hinput.trans (congrArg _ hrest)⟩

/-- A text starts with no blank and no closing bracket, nor with an opening one unless it is the
text of a list or an object. -/
theorem Written.head (h : Written spell depth d text) : ∃ c more, text = c :: more ∧
    isSpace c = false ∧ c ≠ ']' ∧ (d.isScalar = true → c ≠ '[' ∧ c ≠ '{') := by
  cases d with
  | null => exact ⟨_, _, written_null.1 h, by decide⟩
  | bool b =>
    cases b with
    | true => exact ⟨_, _, written_true.1 h, by decide⟩
    | false => exact ⟨_, _, written_false.1 h, by decide⟩
  | number n =>
    obtain ⟨numeral, hnumeral, -⟩ := written_number.1 h
    obtain ⟨c, more, htext, hc⟩ := hnumeral.head
    have hne : ∀ x : Char, x ≠ '-' → x.isDigit = false → c ≠ x := fun x => ne_of_opensNumber hc
    have hspace : isSpace c = false := by
      simp [isSpace, hne ' ' (by decide) (by decide), hne '\n' (by decide) (by decide),
        hne '\t' (by decide) (by decide), hne '\r' (by decide) (by decide)]
    exact ⟨c, more, htext, hspace, hne _ (by decide) (by decide),
      fun _ => ⟨hne _ (by decide) (by decide), hne _ (by decide) (by decide)⟩⟩
  | string l => exact ⟨_, _, written_string.1 h, by decide, by decide, fun _ => by decide⟩
  | array items =>
    obtain ⟨k, inner, -, htext, -⟩ := written_array.1 h
    exact ⟨_, _, htext, by decide, by decide, fun h => by cases h⟩
  | object members =>
    obtain ⟨k, inner, -, htext, -⟩ := written_object.1 h
    exact ⟨_, _, htext, by decide, by decide, fun h => by cases h⟩

/-- The first character of a text tells what it is the text of. -/
theorem Written.opens {c : Char} {more : List Char} (h : Written spell depth d (c :: more)) :
    (c = 'n' → d = .null) ∧ (c = '"' → ∃ l, d = .string l) ∧
      (c = '[' → ∃ items, d = .array items) ∧ (c = '{' → ∃ members, d = .object members) := by
  cases d with
  | null =>
    obtain ⟨rfl, -⟩ := List.cons.inj (written_null.1 h)
    simp
  | bool b =>
    cases b with
    | true =>
      obtain ⟨rfl, -⟩ := List.cons.inj (written_true.1 h)
      simp
    | false =>
      obtain ⟨rfl, -⟩ := List.cons.inj (written_false.1 h)
      simp
  | number n =>
    obtain ⟨numeral, hnumeral, -⟩ := written_number.1 h
    obtain ⟨c', more', htext, hc⟩ := hnumeral.head
    obtain ⟨rfl, -⟩ := List.cons.inj htext
    have hne : ∀ x : Char, x ≠ '-' → x.isDigit = false → c ≠ x := fun x => ne_of_opensNumber hc
    simp [hne 'n' (by decide) (by decide), hne '"' (by decide) (by decide),
      hne '[' (by decide) (by decide), hne '{' (by decide) (by decide)]
  | string l =>
    obtain ⟨rfl, -⟩ := List.cons.inj (written_string.1 h)
    simp
  | array items =>
    obtain ⟨k, inner, -, htext, -⟩ := written_array.1 h
    obtain ⟨rfl, -⟩ := List.cons.inj htext
    simp
  | object members =>
    obtain ⟨k, inner, -, htext, -⟩ := written_object.1 h
    obtain ⟨rfl, -⟩ := List.cons.inj htext
    simp

/-- After the blanks comes the text. -/
theorem skipBlank_written {b : List Char} (hb : Blank b) (h : Written spell depth d text)
    (rest : List Char) :
    ∃ c more, text = c :: more ∧ skipBlank (b ++ (text ++ rest)) = c :: (more ++ rest) := by
  obtain ⟨c, more, rfl, hspace, -⟩ := h.head
  exact ⟨c, more, rfl, skipBlank_mark hb hspace (more ++ rest)⟩

/-- A text that is read is read in the same way as the end of a longer one. -/
theorem map_within {α : Type} {reader : Reader α} {s text : List Char} {step : Step text α}
    (hs : s = text) (h : reader text = .ok step) (hle : s.length ≤ input.length) :
    (reader s).map (·.within hle) = .ok (step.within (hs ▸ hle)) := by
  subst hs
  rw [h]
  rfl

theorem readValue_scalar (depth : Nat) {c : Char} {more : List Char} {step : Step (c :: more) Json}
    (hmark : skipBlank input = c :: more) (hlist : c ≠ '[') (hobject : c ≠ '{')
    (h : readScalar (c :: more) = .ok step) :
    ∃ hle, readValue depth input = .ok (step.within hle) := by
  refine ⟨hmark ▸ length_skipBlank_le input, ?_⟩
  rw [readValue.eq_def]
  split
  · next hskip =>
    cases hmark.symm.trans hskip
    exact absurd rfl hlist
  · next hskip =>
    cases hmark.symm.trans hskip
    exact absurd rfl hobject
  · exact map_within hmark h _

theorem readValue_list {step : Step rest (List Json)} (hmark : skipBlank input = '[' :: rest)
    (h : readItems (readValue (depth + 1)) rest = .ok step) :
    readValue (depth + 2) input = .ok ((step.map Json.array).afterMark hmark) := by
  rw [readValue.eq_def]
  split
  · next hskip =>
    cases hmark.symm.trans hskip
    simp only [bind, Except.bind, h]
    rfl
  · next hskip => cases hmark.symm.trans hskip
  · next hlist _ => exact absurd hmark (hlist _)

theorem readValue_object {step : Step rest (List (String × Json))}
    (hmark : skipBlank input = '{' :: rest)
    (h : readMembers (fun _ _ => afterColon (readValue (depth + 1))) rest = .ok step) :
    readValue (depth + 2) input = .ok ((step.map Json.object).afterMark hmark) := by
  rw [readValue.eq_def]
  split
  · next hskip => cases hmark.symm.trans hskip
  · next hskip =>
    cases hmark.symm.trans hskip
    simp only [bind, Except.bind, h]
    rfl
  · next hobject => exact absurd hmark (hobject _)

theorem opens_written (spell : Literal → List Char) (depth : Nat) :
    Opens fun d text => Written spell depth d text := by
  intro d text hd
  obtain ⟨c, more, htext, hspace, hclose, -⟩ := hd.head
  exact ⟨c, more, htext, hspace, hclose⟩

/-- **The text of a document is read** where no character of a number comes next. -/
theorem readValue_complete (hspell : ∀ l : Literal, Spells (spell l) (value l)) (depth : Nat)
    (d : Spelled) :
    ReadsAs (fun d text => Written spell depth d text) (readValue depth) d (d.document value) := by
  induction depth using Nat.strongRecOn generalizing d with
  | ind depth ih =>
    intro b text rest hb hd hrest
    obtain ⟨c, more, rfl, hspace, -, hopens⟩ := hd.head
    have hmark := skipBlank_mark hb hspace (more ++ rest)
    cases hscalar : d.isScalar with
    | true =>
      obtain ⟨hlist, hobject⟩ := hopens hscalar
      obtain ⟨hshorter, hread⟩ := readScalar_complete hspell hd hscalar hrest
      obtain ⟨hle, hvalue⟩ := readValue_scalar depth hmark hlist hobject hread
      exact ⟨_, hvalue⟩
    | false =>
      cases d with
      | array items =>
        obtain ⟨k, inner, rfl, htext, hitems⟩ := written_array.1 hd
        cases htext
        have hreads := List.forall₂_map_right_iff.2
          (List.forall₂_same.2 fun x (_ : x ∈ items) => ih (k + 1) (Nat.lt_succ_self _) x)
        rw [← Spelled.itemDocuments_eq] at hreads
        obtain ⟨hshorter, hread⟩ :=
          readItemsFrom_complete (opens_written spell (k + 1)) hreads hitems rest
        exact ⟨_, readValue_list hmark hread⟩
      | object members =>
        obtain ⟨k, inner, rfl, htext, hmembers⟩ := written_object.1 hd
        cases htext
        have hreads : List.Forall₂ (ReadsMember value (fun d text => Written spell (k + 1) d text)
            (fun _ _ => afterColon (readValue (k + 1))) fun _ => false) members
            (Spelled.memberDocuments value members) := by
          rw [Spelled.memberDocuments_eq, List.forall₂_map_right_iff, List.forall₂_same]
          exact fun m _ => ⟨rfl, fun _ _ =>
            afterColon_complete (ih (k + 1) (Nat.lt_succ_self _) m.2)⟩
        obtain ⟨hshorter, hread⟩ :=
          readMembersFrom_complete hspell hreads (by simp) hmembers rest
        exact ⟨_, readValue_object hmark hread⟩
      | _ => cases hscalar

/-! ### Whole texts -/

theorem readEnd_eq_ok {u : Unit} : readEnd input = .ok u ↔ Blank input := by
  constructor
  · intro h
    obtain ⟨b, hb, hinput⟩ := exists_blank input
    rw [readEnd] at h
    split at h
    · next hskip =>
      rw [hskip, List.append_nil] at hinput
      exact hinput ▸ hb
    · cases h
  · intro h
    have hskip := skipBlank_append h []
    rw [List.append_nil] at hskip
    rw [readEnd, hskip]
    rfl

/-- **A text that is one document** is a text of a spelled document that decodes to it. -/
theorem parse_sound {text : String} {v : Json} (h : parse text = .ok v) :
    ∃ d, WrittenText Literal.raw d text.toList ∧ v = d.document Literal.value := by
  rw [parse, readWhole?] at h
  obtain ⟨step, hstep, h⟩ := of_bind_eq_ok h
  obtain ⟨u, hend, h⟩ := of_bind_eq_ok h
  cases h
  obtain ⟨b, d, text', hb, hd, hvalue, htext⟩ := readValue_sound depthLimit hstep
  exact ⟨d, ⟨b, text', step.rest, hb, readEnd_eq_ok.1 hend, hd, htext⟩, hvalue⟩

/-- **A text of a spelled document is read as the document**, whatever the literals are. -/
theorem parse_complete (hspell : ∀ l : Literal, Spells (spell l) (value l)) {text : String}
    (h : WrittenText spell d text.toList) : parse text = .ok (d.document value) := by
  obtain ⟨b, text', b', hb, hb', hd, htext⟩ := h
  obtain ⟨hshorter, hread⟩ := readValue_complete hspell depthLimit d hb hd hb'.atEnd
  have hend : readEnd b' = .ok () := readEnd_eq_ok.2 hb'
  rw [parse, readWhole?, htext]
  simp only [bind, Except.bind, hread, hend]
  rfl

/-! ### Canonical forms -/

theorem canonicalMembers_eq (members : List (String × Json)) :
    canonicalMembers members = members.map fun m => (m.1, m.2.canonical) := by
  induction members with
  | nil => rfl
  | cons m ms ih => exact congrArg _ ih

/-- **Of members whose keys are the same string, the last one in the text counts.** -/
theorem Spelled.canonical_lookup (value : Literal → List Char)
    (members : List (Literal × Spelled)) (key : String) : ∃ inner,
      ((Spelled.object members).document value).canonical = .object inner ∧
      Entries.lookup key inner =
        ((members.filter fun m => String.ofList (value m.1) = key).getLast?).map
        fun m => (m.2.document value).canonical := by
  refine ⟨_, rfl, ?_⟩
  rw [Entries.lookup_sorted, canonicalMembers_eq, memberDocuments_eq, List.map_map, List.filter_map,
    List.getLast?_map, Option.map_map]
  rfl

end Documents

end Json
end KernelRegistry
