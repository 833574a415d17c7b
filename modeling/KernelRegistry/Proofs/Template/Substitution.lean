import KernelRegistry.Proofs.Json.Document
import KernelRegistry.Template

/-!
# Replacing the token in a document

The token of a template is replaced in the text, before the text is read.  This is the same as
replacing it in the strings of the document: the token starts with a character that stands nowhere
but inside a string and in no escape, so that no occurrence of it crosses the end of a string or
cuts an escape in two.

* `pieces` — what a text is cut into by the occurrences of a token.
* `Spells.replaceToken` — a spelling with the token replaced spells what its pieces spell, with the
  image between them.
* `Fills` — the texts that a part of a text becomes wherever it stands.
* `parse_fill` — **a filled template is the template's document with its strings filled**.
-/

set_option autoImplicit false
namespace KernelRegistry
namespace Template

open Json

/-! ## Pieces -/

/-- The parts of a text between the occurrences of a token, found from left to right. -/
def pieces (token : List Char) (text : List Char) : List (List Char) :=
  match text with
  | [] => [[]]
  | c :: cs =>
    if token.isPrefixOf (c :: cs) then [] :: pieces token (cs.drop (token.length - 1))
    else (pieces token cs).modifyHead (c :: ·)
termination_by text.length
decreasing_by
  · simp only [List.length_drop, List.length_cons]; omega
  · simp

section Pieces

variable {token image text : List Char}

theorem exists_pieces (token text : List Char) : ∃ r rs, pieces token text = r :: rs := by
  fun_induction pieces token text with
  | case1 => exact ⟨_, _, rfl⟩
  | case2 => exact ⟨_, _, rfl⟩
  | case3 c cs hno ih =>
    obtain ⟨r, rs, h⟩ := ih
    rw [h]
    exact ⟨_, _, rfl⟩

theorem mem_modifyHead_pieces {f : List Char → List Char} {r : List Char}
    (h : r ∈ (pieces token text).modifyHead f) : ∃ r' ∈ pieces token text, r = f r' ∨ r = r' := by
  obtain ⟨r', rs, hpieces⟩ := exists_pieces token text
  rw [hpieces] at h ⊢
  rcases List.mem_cons.1 h with rfl | h
  · exact ⟨r', List.mem_cons_self, .inl rfl⟩
  · exact ⟨r, List.mem_cons_of_mem _ h, .inr rfl⟩

theorem replaceToken_eq (token image text : List Char) :
    replaceToken token image text = image.intercalate (pieces token text) := by
  fun_induction pieces token text with
  | case1 => rw [replaceToken]; rfl
  | case2 c cs htoken ih =>
    obtain ⟨r, rs, h⟩ := exists_pieces token (cs.drop (token.length - 1))
    rw [replaceToken, if_pos htoken, ih, h, List.intercalate_cons_cons]
    rfl
  | case3 c cs hno ih =>
    obtain ⟨r, rs, h⟩ := exists_pieces token cs
    rw [replaceToken, if_neg hno, ih, h]
    exact List.intercalate_cons_cons_left.symm

/-- A token is found where the rest of the text starts with it. -/
theorem eq_append_of_isPrefixOf {c : Char} {cs : List Char} (hne : token ≠ [])
    (h : token.isPrefixOf (c :: cs) = true) : c :: cs = token ++ cs.drop (token.length - 1) := by
  obtain ⟨t, ts, rfl⟩ := List.exists_cons_of_ne_nil hne
  obtain ⟨rest, hrest⟩ := List.isPrefixOf_iff_prefix.1 h
  obtain ⟨rfl, rfl⟩ := List.cons.inj hrest
  simp

theorem intercalate_pieces (hne : token ≠ []) (text : List Char) :
    token.intercalate (pieces token text) = text := by
  fun_induction pieces token text with
  | case1 => rfl
  | case2 c cs htoken ih =>
    obtain ⟨r, rs, h⟩ := exists_pieces token (cs.drop (token.length - 1))
    rw [h, List.intercalate_cons_cons, ← h, ih]
    exact (eq_append_of_isPrefixOf hne htoken).symm
  | case3 c cs hno ih =>
    obtain ⟨r, rs, h⟩ := exists_pieces token cs
    rw [h] at ih ⊢
    exact List.intercalate_cons_cons_left.trans (congrArg _ ih)

theorem head_pieces_isPrefix (hne : token ≠ []) {r : List Char} {rs : List (List Char)}
    (h : pieces token text = r :: rs) : r <+: text := by
  have htext := intercalate_pieces hne text
  rw [h] at htext
  cases rs with
  | nil =>
    rw [List.intercalate_singleton] at htext
    exact htext ▸ List.prefix_refl r
  | cons r' rs =>
    rw [List.intercalate_cons_cons, List.append_assoc] at htext
    exact ⟨_, htext⟩

/-- No occurrence is left in a piece. -/
theorem not_infix_of_mem_pieces (hne : token ≠ []) {r : List Char} (h : r ∈ pieces token text) :
    ¬ token <:+: r := by
  have hnil : ¬ token <:+: [] := fun hinfix => hne (List.infix_nil.1 hinfix)
  fun_induction pieces token text generalizing r with
  | case1 =>
    obtain rfl := List.mem_singleton.1 h
    exact hnil
  | case2 c cs htoken ih =>
    rcases List.mem_cons.1 h with rfl | h
    · exact hnil
    · exact ih h
  | case3 c cs hno ih =>
    obtain ⟨r', rs, hpieces⟩ := exists_pieces token cs
    rw [hpieces] at h ih
    rcases List.mem_cons.1 h with rfl | h
    · intro hinfix
      rcases List.infix_cons_iff.1 hinfix with hstart | hinfix
      · have hwhole := hstart.trans ((List.prefix_cons_inj c).2 (head_pieces_isPrefix hne hpieces))
        exact hno (List.isPrefixOf_iff_prefix.2 hwhole)
      · exact ih List.mem_cons_self hinfix
    · exact ih (List.mem_cons_of_mem _ h)

theorem pieces_token_append (hne : token ≠ []) (text : List Char) :
    pieces token (token ++ text) = [] :: pieces token text := by
  obtain ⟨t, ts, rfl⟩ := List.exists_cons_of_ne_nil hne
  have hstart : (t :: ts).isPrefixOf (t :: (ts ++ text)) = true :=
    List.isPrefixOf_iff_prefix.2 (List.prefix_append (t :: ts) text)
  rw [List.cons_append, pieces, if_pos hstart]
  simp

theorem pieces_of_not_infix (h : ¬ token <:+: text) : pieces token text = [text] := by
  fun_induction pieces token text with
  | case1 => rfl
  | case2 c cs htoken ih =>
    exact absurd (List.isPrefixOf_iff_prefix.1 htoken).isInfix h
  | case3 c cs hno ih =>
    rw [ih fun hinfix => h (List.infix_cons hinfix)]
    rfl

/-! ### Characters that start no occurrence -/

variable {t : Char} {ts : List Char}

theorem not_isPrefixOf_cons {c : Char} (h : c ≠ t) (cs : List Char) :
    ¬ (t :: ts).isPrefixOf (c :: cs) = true := by
  rw [List.isPrefixOf_cons_cons, Bool.and_eq_true, beq_iff_eq]
  exact fun heq => h heq.1.symm

theorem replaceToken_append {u : List Char} (h : t ∉ u) (v : List Char) :
    replaceToken (t :: ts) image (u ++ v) = u ++ replaceToken (t :: ts) image v := by
  induction u with
  | nil => rfl
  | cons c u ih =>
    rw [List.mem_cons, not_or] at h
    obtain ⟨hc, hu⟩ := h
    rw [List.cons_append, replaceToken, if_neg (not_isPrefixOf_cons (Ne.symm hc) _), ih hu]
    rfl

theorem pieces_append {u : List Char} (h : t ∉ u) (v : List Char) :
    pieces (t :: ts) (u ++ v) = (pieces (t :: ts) v).modifyHead (u ++ ·) := by
  induction u with
  | nil =>
    obtain ⟨r, rs, h⟩ := exists_pieces (t :: ts) v
    rw [List.nil_append, h]
    rfl
  | cons c u ih =>
    rw [List.mem_cons, not_or] at h
    obtain ⟨hc, hu⟩ := h
    rw [List.cons_append, pieces, if_neg (not_isPrefixOf_cons (Ne.symm hc) _), ih hu,
      List.modifyHead_modifyHead]
    rfl

theorem isPrefixOf_append_cons {q : Char} (hq : q ∉ token) (u v : List Char) :
    token.isPrefixOf (u ++ q :: v) = token.isPrefixOf u := by
  rw [Bool.eq_iff_iff, List.isPrefixOf_iff_prefix, List.isPrefixOf_iff_prefix]
  refine ⟨fun h => ?_, fun h => h.trans (List.prefix_append _ _)⟩
  have hlast : u ++ [q] <+: u ++ q :: v := ⟨v, by simp⟩
  rcases List.prefix_or_prefix_of_prefix h hlast with h | h
  · rcases List.prefix_concat_iff.1 h with rfl | h
    · exact absurd (by simp) hq
    · exact h
  · exact absurd (h.subset (by simp)) hq

/-- No occurrence goes beyond a character that is not in the token. -/
theorem replaceToken_append_cons {q : Char} (hq : q ∉ token) (hne : token ≠ [])
    (u v : List Char) : replaceToken token image (u ++ q :: v) =
      replaceToken token image u ++ q :: replaceToken token image v := by
  fun_induction replaceToken token image u with
  | case1 =>
    have hno : ¬ token.isPrefixOf ([] ++ q :: v) = true := by
      rw [isPrefixOf_append_cons hq]
      simpa using hne
    rw [List.nil_append] at hno ⊢
    rw [replaceToken, if_neg hno]
    rfl
  | case2 c cs htoken ih =>
    have hlength := (List.isPrefixOf_iff_prefix.1 htoken).length_le
    have htoken' := (isPrefixOf_append_cons hq (c :: cs) v).trans htoken
    rw [List.cons_append] at htoken' ⊢
    rw [replaceToken, if_pos htoken', List.drop_append_of_le_length, ih, List.append_assoc]
    rw [List.length_cons] at hlength
    omega
  | case3 c cs hno ih =>
    have hno' : ¬ token.isPrefixOf (c :: cs ++ q :: v) = true := by
      rwa [isPrefixOf_append_cons hq]
    rw [List.cons_append] at hno' ⊢
    rw [replaceToken, if_neg hno', ih]
    rfl

end Pieces

/-! ## Spellings -/

section Spellings

variable {raw cs u v image : List Char}

/-- The token starts with a character that has no part in the syntax. -/
theorem exists_token_eq : ∃ ts, token = '@' :: ts := ⟨token.tail, by decide⟩

theorem replaceToken_skip (h : '@' ∉ u) (v : List Char) :
    replaceToken token image (u ++ v) = u ++ replaceToken token image v := by
  obtain ⟨ts, hts⟩ := exists_token_eq
  rw [hts]
  exact replaceToken_append h v

theorem pieces_skip (h : '@' ∉ u) (v : List Char) :
    pieces token (u ++ v) = (pieces token v).modifyHead (u ++ ·) := by
  obtain ⟨ts, hts⟩ := exists_token_eq
  rw [hts]
  exact pieces_append h v

theorem at_notMem_digits {a b c d : Char} {n : Nat} (h : hexFour? a b c d = some n) :
    '@' ∉ [a, b, c, d] := by
  have hno : hexDigit? '@' = none := by decide
  intro hmem
  simp only [hexFour?, Option.bind_eq_bind, Option.bind_eq_some_iff] at h
  obtain ⟨x, hx, y, hy, z, hz, w, hw, -⟩ := h
  simp only [List.mem_cons, List.not_mem_nil, or_false] at hmem
  rcases hmem with rfl | rfl | rfl | rfl <;> simp_all

theorem at_notMem_escape {e : List Char} {c : Char} (h : Escape e c) : '@' ∉ e := by
  cases h with
  | letter h =>
    intro hmem
    obtain rfl := List.mem_singleton.1 hmem
    cases h
  | number h =>
    have hfour := at_notMem_digits h
    simp_all
  | pair h _ h' =>
    have hfour := at_notMem_digits h
    have hfour' := at_notMem_digits h'
    simp_all

theorem spells_decode (h : Spells raw cs) : Spells raw (decode raw) := h.decode_eq ▸ h

/-- Characters of the token spell themselves. -/
theorem exists_spells_of_append (hu : '\\' ∉ u) (h : Spells (u ++ raw) cs) :
    ∃ cs', Spells raw cs' := by
  induction u generalizing cs with
  | nil => exact ⟨cs, h⟩
  | cons c u ih =>
    rw [List.mem_cons, not_or] at hu
    obtain ⟨hc, hu⟩ := hu
    obtain ⟨cs', -, -, -, h⟩ := Spells.of_cons (Ne.symm hc) h
    exact ih hu h

/-- **The pieces of a spelling are spellings**: no escape is cut. -/
theorem spells_pieces (h : Spells raw cs) : ∀ r ∈ pieces token raw, Spells r (decode r) := by
  induction hn : raw.length using Nat.strongRecOn generalizing raw cs with
  | ind n ih =>
    intro r hr
    cases h with
    | nil =>
      rw [pieces] at hr
      obtain rfl := List.mem_singleton.1 hr
      exact spells_decode .nil
    | @plain c raw cs hquote hbackslash hcontrol h =>
      rw [pieces] at hr
      split at hr
      · next htoken =>
        have htext := eq_append_of_isPrefixOf (by decide) htoken
        have hwhole := Spells.plain hquote hbackslash hcontrol h
        rw [htext] at hwhole
        obtain ⟨cs', hrest⟩ := exists_spells_of_append (by decide) hwhole
        rcases List.mem_cons.1 hr with rfl | hr
        · exact spells_decode .nil
        · refine ih _ ?_ hrest rfl r hr
          rw [← hn]
          simp only [List.length_drop, List.length_cons]
          omega
      · obtain ⟨r', hr', rfl | rfl⟩ := mem_modifyHead_pieces hr
        · exact spells_decode
            (.plain hquote hbackslash hcontrol (ih _ (by simp [← hn]) h rfl r' hr'))
        · exact ih _ (by simp [← hn]) h rfl r hr'
    | @escape e c raw cs he h =>
      have hshorter : raw.length < n := by
        rw [← hn, List.length_append, List.length_cons]
        omega
      have hskip : '@' ∉ '\\' :: e := by simpa using at_notMem_escape he
      rw [pieces_skip hskip] at hr
      obtain ⟨r', hr', rfl | rfl⟩ := mem_modifyHead_pieces hr
      · exact spells_decode (.escape he (ih _ hshorter h rfl r' hr'))
      · exact ih _ hshorter h rfl r hr'

theorem spells_intercalate {s : List Char} (himage : Spells image s) {rs : List (List Char)}
    (h : ∀ r ∈ rs, Spells r (decode r)) :
    Spells (image.intercalate rs) (s.intercalate (rs.map decode)) := by
  induction rs with
  | nil => exact .nil
  | cons r rs ih =>
    have hr := h r List.mem_cons_self
    have hrs := ih fun r hr => h r (List.mem_cons_of_mem _ hr)
    cases rs with
    | nil =>
      rw [List.intercalate_singleton, List.map_singleton, List.intercalate_singleton]
      exact hr
    | cons r' rs =>
      rw [List.map_cons, List.map_cons, List.intercalate_cons_cons, List.intercalate_cons_cons,
        ← List.map_cons]
      exact (hr.append himage).append hrs

/-- A literal after the directory was put in place of the token: its pieces are decoded, with the
directory between them.  It is decoded piece by piece, because an escaped spelling of the token is
not replaced. -/
def filled (p : Path) (l : Literal) : List Char :=
  p.display.toList.intercalate ((pieces token l.raw).map decode)

/-- The text of a literal after the directory was put in place of the token. -/
def refilled (p : Path) (l : Literal) : List Char :=
  replaceToken token (pathFragment p).toList l.raw

/-- **A literal with the token replaced is a spelling of what it is filled with.** -/
theorem spells_refilled (p : Path) (l : Literal) : Spells (refilled p l) (filled p l) := by
  have hfragment : Spells (pathFragment p).toList p.display.toList := by
    rw [pathFragment, escaped, String.toList_ofList]
    exact .escaped _
  rw [refilled, replaceToken_eq]
  exact spells_intercalate hfragment (spells_pieces l.spells)

theorem filled_of_not_infix (p : Path) {l : Literal} (h : ¬ token <:+: l.raw) :
    filled p l = l.value := by
  rw [filled, pieces_of_not_infix h, List.map_singleton, List.intercalate_singleton,
    l.spells.decode_eq]

end Spellings

/-! ## Texts -/

section Texts

variable {text text' b : List Char} {p : Path} {first : Bool}

/-- A part of a text becomes the other one wherever it stands when the token is replaced. -/
def Fills (p : Path) (text text' : List Char) : Prop :=
  ∀ v, replaceToken token (pathFragment p).toList (text ++ v) =
    text' ++ replaceToken token (pathFragment p).toList v

theorem Fills.append {u u' : List Char} (h : Fills p text text') (h' : Fills p u u') :
    Fills p (text ++ u) (text' ++ u') := by
  intro v
  rw [List.append_assoc, h, h', List.append_assoc]

/-- A text outside of strings has no token in it and stays as it is. -/
theorem Fills.of_notMem (h : '@' ∉ text) : Fills p text text := replaceToken_skip h

theorem Fills.cons {c : Char} (hc : '@' ≠ c) (h : Fills p text text') :
    Fills p (c :: text) (c :: text') := by
  have hone : Fills p [c] [c] := .of_notMem (by simpa using hc)
  exact hone.append h

theorem Fills.literal (p : Path) (l : Literal) :
    Fills p ('"' :: (l.raw ++ ['"'])) ('"' :: (refilled p l ++ ['"'])) := by
  refine .cons (by decide) fun v => ?_
  rw [List.append_assoc, List.append_assoc]
  exact replaceToken_append_cons (by decide) (by decide) l.raw v

theorem fills_blank (hb : Blank b) : Fills p b b :=
  .of_notMem fun hmem => absurd (hb _ hmem) (by decide)

theorem fills_lead {lead : List Char} (h : Lead first lead) : Fills p lead lead := by
  cases h with
  | first hb => exact fills_blank hb
  | next hb hb' => exact (fills_blank hb).append (.cons (by decide) (fills_blank hb'))

/-- If the text of each item is filled as it should be, so is that of the list. -/
theorem items_fills {W W' : Spelled → List Char → Prop}
    (hW : ∀ d t, W d t → ∃ t', Fills p t t' ∧ W' d t') {items : List Spelled}
    (h : Items W first items text) : ∃ text', Fills p text text' ∧ Items W' first items text' := by
  induction h with
  | close hb => exact ⟨_, (fills_blank hb).append (.of_notMem (by decide)), .close hb⟩
  | more hlead hx hxs ih =>
    obtain ⟨t', ht, hx'⟩ := hW _ _ hx
    obtain ⟨tail', htail, hxs'⟩ := ih
    exact ⟨_, (fills_lead hlead).append (ht.append htail), .more hlead hx' hxs'⟩

theorem members_fills {W W' : Spelled → List Char → Prop}
    (hW : ∀ d t, W d t → ∃ t', Fills p t t' ∧ W' d t') {members : List (Literal × Spelled)}
    (h : Members Literal.raw W first members text) :
    ∃ text', Fills p text text' ∧ Members (refilled p) W' first members text' := by
  induction h with
  | close hb => exact ⟨_, (fills_blank hb).append (.of_notMem (by decide)), .close hb⟩
  | @more first key x xs lead b b' text tail hlead hb hb' hx hxs ih =>
    obtain ⟨t', ht, hx'⟩ := hW _ _ hx
    obtain ⟨tail', htail, hxs'⟩ := ih
    refine ⟨_, ?_, .more hlead hb hb' hx' hxs'⟩
    have hvalue := (fills_blank hb').append (ht.append htail)
    have hcolon := (fills_blank hb).append (.cons (c := ':') (by decide) hvalue)
    have hkey := (Fills.literal p key).append hcolon
    simp only [List.cons_append, List.append_assoc, List.nil_append] at hkey
    exact (fills_lead hlead).append hkey

/-- **The text of a document becomes a text of the same document** with its literals replaced. -/
theorem written_fills (p : Path) {depth : Nat} {d : Spelled}
    (h : Written Literal.raw depth d text) :
    ∃ text', Fills p text text' ∧ Written (refilled p) depth d text' := by
  induction depth using Nat.strongRecOn generalizing d text with
  | ind depth ih =>
    cases d with
    | null =>
      obtain rfl := written_null.1 h
      exact ⟨_, .of_notMem (by decide), written_null.2 rfl⟩
    | bool b =>
      cases b with
      | true =>
        obtain rfl := written_true.1 h
        exact ⟨_, .of_notMem (by decide), written_true.2 rfl⟩
      | false =>
        obtain rfl := written_false.1 h
        exact ⟨_, .of_notMem (by decide), written_false.2 rfl⟩
    | number n =>
      obtain ⟨numeral, hnumeral, -⟩ := written_number.1 h
      have hskip : '@' ∉ text := fun hmem => absurd (hnumeral.mem hmem) (by decide)
      exact ⟨_, .of_notMem hskip, written_number.2 (written_number.1 h)⟩
    | string l =>
      obtain rfl := written_string.1 h
      exact ⟨_, .literal p l, written_string.2 rfl⟩
    | array items =>
      obtain ⟨k, inner, rfl, rfl, hitems⟩ := written_array.1 h
      obtain ⟨inner', hinner, hitems'⟩ :=
        items_fills (fun _ _ h => ih (k + 1) (Nat.lt_succ_self _) h) hitems
      exact ⟨_, .cons (by decide) hinner, written_array.2 ⟨k, inner', rfl, rfl, hitems'⟩⟩
    | object members =>
      obtain ⟨k, inner, rfl, rfl, hmembers⟩ := written_object.1 h
      obtain ⟨inner', hinner, hmembers'⟩ :=
        members_fills (fun _ _ h => ih (k + 1) (Nat.lt_succ_self _) h) hmembers
      exact ⟨_, .cons (by decide) hinner, written_object.2 ⟨k, inner', rfl, rfl, hmembers'⟩⟩

theorem writtenText_fill {template : String} {d : Spelled}
    (h : WrittenText Literal.raw d template.toList) (p : Path) :
    WrittenText (refilled p) d (fill template p).toList := by
  obtain ⟨b, text, b', hb, hb', hd, htext⟩ := h
  obtain ⟨text', hfills, hd'⟩ := written_fills p hd
  refine ⟨b, text', b', hb, hb', hd', ?_⟩
  have hwhole := (fills_blank (p := p) hb).append (hfills.append (fills_blank hb')) []
  rw [fill, String.toList_ofList, htext]
  rw [List.append_nil, replaceToken, List.append_nil] at hwhole
  exact hwhole

end Texts

/-! ## The theorem -/

/-- **A filled template is the template's document with its strings filled.**  A template that is
read as a document is the text of one whose strings and keys are spelled.  So is the filled
template, of the same one: what is no string is the same, and each string stands for its pieces
between the occurrences of the token, with the directory between them.  Of members whose keys have
become equal the last one counts. -/
theorem parse_fill {template : String} {v : Json} (h : parse template = .ok v) (p : Path) :
    (∃ d : Spelled, WrittenText Literal.raw d template.toList) ∧
    (∀ d : Spelled, WrittenText Literal.raw d template.toList → v = d.document Literal.value ∧
      WrittenText (refilled p) d (fill template p).toList ∧
      parse (fill template p) = .ok (d.document (filled p))) ∧
    (∀ l : Literal, l.value = decode l.raw ∧
      token.intercalate (pieces token l.raw) = l.raw ∧
      (∀ r ∈ pieces token l.raw, Spells r (decode r) ∧ ¬ token <:+: r) ∧
      filled p l = p.display.toList.intercalate ((pieces token l.raw).map decode) ∧
      (¬ token <:+: l.raw → filled p l = l.value)) ∧
    ∀ (members : List (Literal × Spelled)) (key : String), ∃ inner,
      ((Spelled.object members).document (filled p)).canonical = .object inner ∧
      Entries.lookup key inner =
        ((members.filter fun m => String.ofList (filled p m.1) = key).getLast?).map
          fun m => (m.2.document (filled p)).canonical := by
  have htoken : token ≠ [] := by decide
  refine ⟨?_, fun d hd => ?_, fun l => ?_, Spelled.canonical_lookup (filled p)⟩
  · obtain ⟨d, hd, -⟩ := parse_sound h
    exact ⟨d, hd⟩
  · have hparse := parse_complete Literal.spells hd
    have hfill := writtenText_fill hd p
    refine ⟨?_, hfill, parse_complete (spells_refilled p) hfill⟩
    rw [h] at hparse
    exact Except.ok.inj hparse
  · have hpieces : ∀ r ∈ pieces token l.raw, Spells r (decode r) ∧ ¬ token <:+: r := fun r hr =>
      ⟨spells_pieces l.spells r hr, not_infix_of_mem_pieces htoken hr⟩
    exact ⟨l.spells.decode_eq.symm, intercalate_pieces htoken l.raw, hpieces, rfl,
      filled_of_not_infix p⟩

namespace Sample

/-- The token and a name after it. -/
def binary : Literal where
  raw := "@KERNEL_INSTALL_DIRECTORY@/kernel".toList
  value := "@KERNEL_INSTALL_DIRECTORY@/kernel".toList
  spells := .self_of_all (by decide)

/-- The token with its first character spelled by number. -/
def escapedToken : Literal where
  raw := "\\u0040KERNEL_INSTALL_DIRECTORY@".toList
  value := token
  spells := by
    have hat : hexFour? '0' '0' '4' '0' = some 0x40 := by decide
    exact .escape (.number hat (by decide) (by decide)) (.self_of_all (by decide))

/-- A list of two strings. -/
def arguments : Spelled := .array [.string binary, .string escapedToken]

/-- The text of the list. -/
def argumentsText : String :=
  "[\"@KERNEL_INSTALL_DIRECTORY@/kernel\", \"\\u0040KERNEL_INSTALL_DIRECTORY@\"]"

theorem argumentsText_written : WrittenText Literal.raw arguments argumentsText.toList := by
  have hspace : Blank [' '] := by simp [Blank, isSpace]
  have hbinary : Written Literal.raw 127 (.string binary) _ := written_string.2 rfl
  have hescaped : Written Literal.raw 127 (.string escapedToken) _ := written_string.2 rfl
  have hitems := Items.more (W := fun x t => Written Literal.raw 127 x t) (.first blank_nil) hbinary
    (.more (.next blank_nil hspace) hescaped (.close blank_nil))
  have harguments : Written Literal.raw depthLimit arguments _ :=
    written_array.2 ⟨126, _, rfl, rfl, hitems⟩
  exact ⟨[], _, [], blank_nil, blank_nil, harguments, by decide +kernel⟩

theorem spells_name : Spells "/kernel".toList "/kernel".toList := .self_of_all (by decide)

theorem pieces_binary : pieces token binary.raw = [[], "/kernel".toList] := by
  have hraw : binary.raw = token ++ "/kernel".toList := by decide
  have hrest : ¬ token <:+: "/kernel".toList := by decide +kernel
  rw [hraw, pieces_token_append (by decide), pieces_of_not_infix hrest]

theorem escapedToken_not_infix : ¬ token <:+: escapedToken.raw := by decide +kernel

theorem parse_argumentsText : parse argumentsText = .ok (arguments.document Literal.value) :=
  parse_complete Literal.spells argumentsText_written

end Sample

/-- A directory with a quote and a backslash, in a list whose second string spells the token with an
escape. -/
theorem parse_fill_arguments :
    parse Sample.argumentsText = .ok (Sample.arguments.document Literal.value) ∧
      parse (fill Sample.argumentsText (.ofString "/a\"b\\c")) =
        .ok (.array [.string "/a\"b\\c/kernel", .string (String.ofList token)]) := by
  refine ⟨Sample.parse_argumentsText, ?_⟩
  obtain ⟨-, hdocument, -, -⟩ := parse_fill Sample.parse_argumentsText (.ofString "/a\"b\\c")
  obtain ⟨-, -, hfill⟩ := hdocument Sample.arguments Sample.argumentsText_written
  have hdisplay : (Path.ofString "/a\"b\\c").display = "/a\"b\\c" := by decide +kernel
  have hbinary : filled (.ofString "/a\"b\\c") Sample.binary = "/a\"b\\c/kernel".toList := by
    rw [filled, Sample.pieces_binary, List.map_cons, List.map_singleton, List.intercalate_cons_cons,
      List.intercalate_singleton, Spells.nil.decode_eq, Sample.spells_name.decode_eq, hdisplay]
    decide
  have hescaped : filled (.ofString "/a\"b\\c") Sample.escapedToken = token :=
    filled_of_not_infix _ Sample.escapedToken_not_infix
  rw [hfill]
  show Except.ok (Json.array [.string (String.ofList (filled _ Sample.binary)),
    .string (String.ofList (filled _ Sample.escapedToken))]) = _
  rw [hbinary, hescaped, String.ofList_toList]

end Template
end KernelRegistry
