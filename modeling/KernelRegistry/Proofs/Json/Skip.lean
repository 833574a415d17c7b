import KernelRegistry.Json.Skip
import KernelRegistry.Proofs.Json.Document

/-!
# Documents that are passed over

A member that nobody asked for is passed over if it is a document, however deep it is nested.

* `skipString_complete`, `skipScalar_complete` — the parts of a document that hold no others.
* `skipItems_complete`, `skipMembers_complete` — what brackets hold.
* `skipValue_complete` — **the text of a document is passed over**, at any depth.
-/

set_option autoImplicit false
namespace KernelRegistry
namespace Json

/-! ## Strings, words and numbers -/

section Scalars

variable {raw cs rest text b : List Char} {a c e f : Char} {n depth : Nat} {d : Spelled}
variable {spell value : Literal → List Char}

theorem skipEscape_number (h : hexFour? a c e f = some n) (rest : List Char) :
    Reads skipEscape ('u' :: a :: c :: e :: f :: rest) () rest := by
  obtain ⟨hshorter, hread⟩ := readHexFour_complete h rest
  refine ⟨Nat.lt_succ_of_lt hshorter, ?_⟩
  rw [skipEscape, hread]
  rfl

/-- Passing over what a backslash starts; the second half of a pair counts as another escape. -/
theorem skipString_escape {escape : List Char} (h : Escape escape a)
    (hmore : Reads skipString raw () rest) :
    Reads skipString ('\\' :: (escape ++ raw)) () rest := by
  have hstep : ∀ {input left : List Char}, Reads skipEscape input () left →
      Reads skipString left () rest → Reads skipString ('\\' :: input) () rest := by
    rintro input left ⟨hshorter, hescape⟩ ⟨hshorter', hleft⟩
    refine ⟨Nat.lt_succ_of_lt (Nat.lt_trans hshorter' hshorter), ?_⟩
    rw [skipString, hescape]
    simp only [bind, Except.bind, hleft]
    rfl
  cases h with
  | @letter l _ h =>
    have hl : l ≠ 'u' := by
      rintro rfl
      cases h
    refine hstep ⟨Nat.lt_succ_self _, ?_⟩ hmore
    show skipEscape (l :: raw) = _
    rw [skipEscape.eq_3 _ _ (by simpa using hl)]
    split
    · rfl
    · next hnone => cases h.symm.trans hnone
  | number h => exact hstep (skipEscape_number h raw) hmore
  | pair h _ h' =>
    exact hstep (skipEscape_number h _) (hstep (skipEscape_number h' raw) hmore)

theorem skipString_complete (h : Spells raw cs) (rest : List Char) :
    Reads skipString (raw ++ '"' :: rest) () rest := by
  induction h with
  | nil =>
    show Reads skipString ('"' :: rest) () rest
    exact ⟨by simp, by rw [skipString]⟩
  | @plain c raw cs hquote hbackslash hcontrol h ih =>
    obtain ⟨hshorter, hmore⟩ := ih
    show Reads skipString (c :: (raw ++ '"' :: rest)) () rest
    refine ⟨Nat.lt_succ_of_lt hshorter, ?_⟩
    rw [skipString.eq_4 _ _ (fun h => hquote h) fun h => hbackslash h, hcontrol, hmore]
    rfl
  | @escape e c raw cs he h ih =>
    rw [List.cons_append, List.cons_append, List.append_assoc]
    exact skipString_escape he ih

theorem skipScalar_complete (hspell : ∀ l : Literal, Spells (spell l) (value l))
    (h : Written spell depth d text) (hscalar : d.isScalar = true) (hrest : AtEnd rest) :
    Reads skipScalar (text ++ rest) () rest := by
  have hword : ∀ {c : Char} {more : List Char} {v : Json}, c ≠ '"' →
      (decide (c = '-') || c.isDigit) = false → Reads readScalar (c :: more) v rest →
      Reads skipScalar (c :: more) () rest := by
    rintro c more v hquote hnumber ⟨hshorter, hread⟩
    refine ⟨hshorter, ?_⟩
    rw [skipScalar.eq_2 _ _ (fun h => hquote h), if_neg (by simp [hnumber]), hread]
    rfl
  have hread := readScalar_complete hspell h hscalar hrest
  cases d with
  | null =>
    obtain rfl := written_null.1 h
    exact hword (by decide) (by decide) hread
  | bool b =>
    cases b with
    | true =>
      obtain rfl := written_true.1 h
      exact hword (by decide) (by decide) hread
    | false =>
      obtain rfl := written_false.1 h
      exact hword (by decide) (by decide) hread
  | number n =>
    obtain ⟨numeral, hnumeral, -⟩ := written_number.1 h
    obtain ⟨hshorter, hread⟩ := readNumeral_complete hnumeral hrest
    obtain ⟨c, more, rfl, hc⟩ := hnumeral.head
    have hfirst : (decide (c = '-') || c.isDigit) = true := by simpa using hc
    have hquote : c ≠ '"' := ne_of_opensNumber hc (by decide) (by decide)
    refine ⟨hshorter, ?_⟩
    show skipScalar (c :: (more ++ rest)) = _
    change readNumeral _ (c :: (more ++ rest)) = _ at hread
    rw [skipScalar.eq_2 _ _ (fun h => hquote h), if_pos hfirst, hread]
    rfl
  | string l =>
    obtain rfl := written_string.1 h
    obtain ⟨hshorter, hread⟩ := skipString_complete (hspell l) rest
    have htext : '"' :: (spell l ++ ['"']) ++ rest = '"' :: (spell l ++ '"' :: rest) := by simp
    rw [htext]
    refine ⟨Nat.lt_succ_of_lt hshorter, ?_⟩
    rw [skipScalar, hread]
    rfl
  | array items => cases hscalar
  | object members => cases hscalar

end Scalars

/-! ## What comes next -/

section Next

variable {input rest raw b b' lead cs : List Char} {first : Bool} {c : Char}

/-- Once the blanks are passed over, the mark decides how an item is skipped. -/
theorem skipItem_of_mark (hmark : skipBlank input = c :: rest) (first : Bool) :
    skipItem first input =
      if c = ']' then .ok (.closedBy hmark)
      else if first then .ok (.fromMark hmark)
      else if c = ',' then .ok (.afterMark hmark)
      else .error (.past .expectedListEnd (c :: rest)) := by
  rw [skipItem.eq_def]
  split
  · next hskip => cases hmark.symm.trans hskip
  · next hskip =>
    cases hmark.symm.trans hskip
    rfl
  · next hclose hskip =>
    cases hmark.symm.trans hskip
    exact (if_neg hclose).symm

theorem skipItem_of_close (hb : Blank b) (first : Bool) (rest : List Char) :
    ∃ h, skipItem first (b ++ ']' :: rest) = .ok (.close rest h) := by
  have hmark := skipBlank_mark (c := ']') hb (by decide) rest
  exact ⟨skipBlank_length_lt hmark, by rw [skipItem_of_mark hmark, if_pos rfl, Next.closedBy]⟩

/-- The blanks after a comma are left to what is passed over next. -/
theorem skipItem_of_lead (hlead : Lead first lead) (hc : isSpace c = false) (hclose : c ≠ ']')
    (rest : List Char) :
    ∃ b h, Blank b ∧ skipItem first (lead ++ c :: rest) = .ok (.more (b ++ c :: rest) h) := by
  cases hlead with
  | first hb =>
    have hmark := skipBlank_mark hb hc rest
    refine ⟨[], by simp, blank_nil, ?_⟩
    rw [skipItem_of_mark hmark, if_neg hclose, if_pos rfl, Next.fromMark]
    rfl
  | @next b b' hb hb' =>
    have hmark := skipBlank_comma hb b' (c :: rest)
    refine ⟨b', length_le_of_mark hmark, hb', ?_⟩
    rw [skipItem_of_mark hmark, if_neg (by decide), if_neg (by decide), if_pos rfl, Next.afterMark]

/-- Once the blanks are passed over, the mark decides how a member is skipped. -/
theorem skipMember_of_mark (hmark : skipBlank input = c :: rest) (first : Bool) :
    skipMember first input =
      if c = '}' then .ok (.closedBy hmark)
      else if first then .ok (.fromMark hmark)
      else if c = ',' then .ok (.afterMark hmark)
      else .error (.past .expectedObjectEnd (c :: rest)) := by
  rw [skipMember.eq_def]
  split
  · next hskip => cases hmark.symm.trans hskip
  · next hskip =>
    cases hmark.symm.trans hskip
    rfl
  · next hclose hskip =>
    cases hmark.symm.trans hskip
    exact (if_neg hclose).symm

theorem skipMember_of_close (hb : Blank b) (first : Bool) (rest : List Char) :
    ∃ h, skipMember first (b ++ '}' :: rest) = .ok (.close rest h) := by
  have hmark := skipBlank_mark (c := '}') hb (by decide) rest
  exact ⟨skipBlank_length_lt hmark, by rw [skipMember_of_mark hmark, if_pos rfl, Next.closedBy]⟩

/-- The blanks after a comma are left to what is passed over next. -/
theorem skipMember_of_lead (hlead : Lead first lead) (hc : isSpace c = false) (hclose : c ≠ '}')
    (rest : List Char) :
    ∃ b h, Blank b ∧ skipMember first (lead ++ c :: rest) = .ok (.more (b ++ c :: rest) h) := by
  cases hlead with
  | first hb =>
    have hmark := skipBlank_mark hb hc rest
    refine ⟨[], by simp, blank_nil, ?_⟩
    rw [skipMember_of_mark hmark, if_neg hclose, if_pos rfl, Next.fromMark]
    rfl
  | @next b b' hb hb' =>
    have hmark := skipBlank_comma hb b' (c :: rest)
    refine ⟨b', length_le_of_mark hmark, hb', ?_⟩
    rw [skipMember_of_mark hmark, if_neg (by decide), if_neg (by decide), if_pos rfl,
      Next.afterMark]

theorem skipKey_complete (hb : Blank b) (hkey : Spells raw cs) (hb' : Blank b')
    (rest : List Char) :
    Reads skipKey (b ++ '"' :: (raw ++ '"' :: (b' ++ ':' :: rest))) () rest := by
  have hmark := skipBlank_mark (c := '"') hb (by decide) (raw ++ '"' :: (b' ++ ':' :: rest))
  obtain ⟨hshorter, hstring⟩ := skipString_complete hkey (b' ++ ':' :: rest)
  obtain ⟨hshorter', hcolon⟩ := readColon_complete hb' rest
  refine ⟨Nat.lt_trans hshorter' (Nat.lt_trans hshorter (skipBlank_length_lt hmark)), ?_⟩
  rw [skipKey.eq_def]
  split
  · next hskip => cases hmark.symm.trans hskip
  · next hskip =>
    cases hmark.symm.trans hskip
    simp only [bind, Except.bind, hstring, hcolon]
    rfl
  · next hquote => exact absurd hmark (hquote _)

end Next

/-! ## Lists and objects -/

section Collections

variable {W : Spelled → List Char → Prop} {spell value : Literal → List Char} {first : Bool}
  {text : List Char}

/-- **The text of a list is passed over** up to its bracket, if those of its items are. -/
theorem skipItems_complete (hopens : Opens W) {items : List Spelled}
    (hitems : ∀ d ∈ items, ReadsAs W skipValue d ()) (h : Items W first items text)
    (rest : List Char) : Reads (skipItems first) (text ++ rest) () rest := by
  induction h with
  | @close first b hb =>
    obtain ⟨hshorter, hnext⟩ := skipItem_of_close hb first rest
    rw [List.append_assoc]
    refine ⟨hshorter, ?_⟩
    show skipItems first (b ++ ']' :: rest) = _
    rw [skipItems, hnext]
  | @more first d items lead text tail hlead hd htail ih =>
    obtain ⟨c, more, rfl, hspace, hclose⟩ := hopens hd
    obtain ⟨b, hnoLonger, hb, hnext⟩ :=
      skipItem_of_lead hlead hspace hclose (more ++ (tail ++ rest))
    obtain ⟨hshorter, hskip⟩ := hitems d List.mem_cons_self hb hd (htail.atEnd rest)
    obtain ⟨hshorter', hskipTail⟩ := ih fun x hx => hitems x (List.mem_cons_of_mem _ hx)
    have htext : lead ++ (c :: more ++ tail) ++ rest = lead ++ c :: (more ++ (tail ++ rest)) := by
      simp
    rw [htext]
    refine ⟨Nat.lt_of_lt_of_le (Nat.lt_trans hshorter' hshorter) hnoLonger, ?_⟩
    rw [skipItems, hnext]
    change skipValue (b ++ c :: (more ++ (tail ++ rest))) = _ at hskip
    simp only [bind, Except.bind, hskip, hskipTail]
    rfl

/-- **The text of an object is passed over** up to its bracket, if those of its members are. -/
theorem skipMembers_complete (hspell : ∀ l : Literal, Spells (spell l) (value l))
    {members : List (Literal × Spelled)} (hmembers : ∀ m ∈ members, ReadsAs W skipValue m.2 ())
    (h : Members spell W first members text) (rest : List Char) :
    Reads (skipMembers first) (text ++ rest) () rest := by
  induction h with
  | @close first b hb =>
    obtain ⟨hshorter, hnext⟩ := skipMember_of_close hb first rest
    rw [List.append_assoc]
    refine ⟨hshorter, ?_⟩
    show skipMembers first (b ++ '}' :: rest) = _
    rw [skipMembers, hnext]
  | @more first key d members lead b b' text tail hlead hb hb' hd htail ih =>
    obtain ⟨b'', hnoLonger, hb'', hnext⟩ := skipMember_of_lead (c := '"') hlead (by decide)
      (by decide) (spell key ++ '"' :: (b ++ ':' :: (b' ++ (text ++ (tail ++ rest)))))
    obtain ⟨hshorter, hkey⟩ :=
      skipKey_complete hb'' (hspell key) hb (b' ++ (text ++ (tail ++ rest)))
    obtain ⟨hshorter', hskip⟩ := hmembers _ List.mem_cons_self hb' hd (htail.atEnd rest)
    obtain ⟨hshorter'', hskipTail⟩ := ih fun m hm => hmembers m (List.mem_cons_of_mem _ hm)
    simp only [List.append_assoc, List.cons_append]
    refine ⟨Nat.lt_of_lt_of_le (Nat.lt_trans hshorter'' (Nat.lt_trans hshorter' hshorter))
      hnoLonger, ?_⟩
    rw [skipMembers, hnext]
    simp only [bind, Except.bind, hkey, hskip, hskipTail]
    rfl

end Collections

/-! ## Documents -/

section Documents

variable {input rest : List Char} {spell value : Literal → List Char}

theorem skipValue_scalar {c : Char} {more : List Char} {step : Step (c :: more) Unit}
    (hmark : skipBlank input = c :: more) (hlist : c ≠ '[') (hobject : c ≠ '{')
    (h : skipScalar (c :: more) = .ok step) : ∃ hle, skipValue input = .ok (step.within hle) := by
  refine ⟨hmark ▸ length_skipBlank_le input, ?_⟩
  rw [skipValue.eq_def]
  split
  · next hskip =>
    cases hmark.symm.trans hskip
    exact absurd rfl hlist
  · next hskip =>
    cases hmark.symm.trans hskip
    exact absurd rfl hobject
  · exact map_within hmark h _

theorem skipValue_list {step : Step rest Unit} (hmark : skipBlank input = '[' :: rest)
    (h : skipItems true rest = .ok step) : skipValue input = .ok (step.afterMark hmark) := by
  rw [skipValue.eq_def]
  split
  · next hskip =>
    cases hmark.symm.trans hskip
    simp only [bind, Except.bind, h]
    rfl
  · next hskip => cases hmark.symm.trans hskip
  · next hlist _ => exact absurd hmark (hlist _)

theorem skipValue_object {step : Step rest Unit} (hmark : skipBlank input = '{' :: rest)
    (h : skipMembers true rest = .ok step) : skipValue input = .ok (step.afterMark hmark) := by
  rw [skipValue.eq_def]
  split
  · next hskip => cases hmark.symm.trans hskip
  · next hskip =>
    cases hmark.symm.trans hskip
    simp only [bind, Except.bind, h]
    rfl
  · next hobject => exact absurd hmark (hobject _)

/-- **The text of a document is passed over**, at any depth. -/
theorem skipValue_complete (hspell : ∀ l : Literal, Spells (spell l) (value l)) (depth : Nat)
    (d : Spelled) : ReadsAs (fun d text => Written spell depth d text) skipValue d () := by
  induction depth using Nat.strongRecOn generalizing d with
  | ind depth ih =>
    intro b text rest hb hd hrest
    obtain ⟨c, more, rfl, hspace, -, hopens⟩ := hd.head
    have hmark := skipBlank_mark hb hspace (more ++ rest)
    cases hscalar : d.isScalar with
    | true =>
      obtain ⟨hlist, hobject⟩ := hopens hscalar
      obtain ⟨hshorter, hskip⟩ := skipScalar_complete hspell hd hscalar hrest
      obtain ⟨hle, hvalue⟩ := skipValue_scalar hmark hlist hobject hskip
      exact ⟨_, hvalue⟩
    | false =>
      cases d with
      | array items =>
        obtain ⟨k, inner, rfl, htext, hitems⟩ := written_array.1 hd
        cases htext
        obtain ⟨hshorter, hskip⟩ := skipItems_complete (opens_written spell (k + 1))
          (fun x _ => ih (k + 1) (Nat.lt_succ_self _) x) hitems rest
        exact ⟨_, skipValue_list hmark hskip⟩
      | object members =>
        obtain ⟨k, inner, rfl, htext, hmembers⟩ := written_object.1 hd
        cases htext
        obtain ⟨hshorter, hskip⟩ := skipMembers_complete hspell
          (fun m _ => ih (k + 1) (Nat.lt_succ_self _) m.2) hmembers rest
        exact ⟨_, skipValue_object hmark hskip⟩
      | _ => cases hscalar

end Documents

end Json
end KernelRegistry
