import KernelRegistry.Json.Numeral
import KernelRegistry.Proofs.Json.Literal

/-!
# The spelling of numbers

A number ends where a character comes that cannot belong to it.  What is read is therefore a
spelling of the number that is read in the same way wherever it is followed by such a character.

* `Json.AtEnd` — no character of a number comes next.
* `Numeral.Written` — the texts that spell a number.
* `readNumber_sound`, `readNumber_complete` — **the reader of numbers reads spellings**.
-/

set_option autoImplicit false
namespace KernelRegistry
namespace Json

/-- The characters that can continue a number.  A number that is printed must not be followed by one
of them. -/
def continuesNumber (c : Char) : Bool := c.isDigit || c = '.' || c = 'e' || c = 'E'

/-- No character of a number comes next. -/
def AtEnd (rest : List Char) : Prop := ∀ c more, rest = c :: more → continuesNumber c = false

/-- No digit comes next. -/
def AfterDigits (rest : List Char) : Prop := ∀ c more, rest = c :: more → c.isDigit = false

theorem AtEnd.afterDigits {rest : List Char} (h : AtEnd rest) : AfterDigits rest := by
  intro c more hrest
  have := h c more hrest
  simp only [continuesNumber, Bool.or_eq_false_iff] at this
  exact this.1.1.1

/-- Digits, at least one. -/
def IsDigits (ds : List Char) : Prop := ds ≠ [] ∧ ∀ c ∈ ds, c.isDigit = true

/-- A sign of an exponent. -/
inductive SignText : Bool → List Char → Prop
  | none : SignText false []
  | plus : SignText false ['+']
  | minus : SignText true ['-']

/-- The text of a fraction, which may be missing, and its digits. -/
inductive FractionText : List Char → List Char → Prop
  | none : FractionText [] []
  | some {ds : List Char} (h : IsDigits ds) : FractionText ds ('.' :: ds)

/-- An exponent. -/
inductive ExponentText : Option (Bool × List Char) → List Char → Prop
  | none : ExponentText none []
  | some {mark : Char} {negative : Bool} {sign ds : List Char} (hmark : mark = 'e' ∨ mark = 'E')
      (hsign : SignText negative sign) (h : IsDigits ds) :
      ExponentText (some (negative, ds)) (mark :: sign ++ ds)

/-- The texts that spell a number. -/
inductive Numeral.Written : Numeral → List Char → Prop
  | mk {negative : Bool} {whole fraction fractionText exponentText : List Char}
      {exponent : Option (Bool × List Char)} (hwhole : IsDigits whole)
      (hzero : ∀ d ds, whole ≠ '0' :: d :: ds) (hfraction : FractionText fraction fractionText)
      (hexponent : ExponentText exponent exponentText) :
      Numeral.Written ⟨negative, whole, fraction, exponent⟩
        ((if negative then ['-'] else []) ++ whole ++ fractionText ++ exponentText)

/-! ## Digits -/

section Digits

variable {input rest ds : List Char} {ending : Reason}

theorem readDigits_sound {step : Step input (List Char)} (h : readDigits input = some step) :
    IsDigits step.value ∧ input = step.value ++ step.rest := by
  rw [readDigits.eq_def] at h
  split at h
  · cases h
  · next c rest =>
    split at h
    · next hc =>
      cases h
      refine ⟨⟨by simp, fun d hd => ?_⟩, congrArg _ List.takeWhile_append_dropWhile.symm⟩
      rcases List.mem_cons.1 hd with rfl | hd
      · exact hc
      · exact List.all_eq_true.1 List.all_takeWhile d hd
    · cases h

theorem span_digits (h : ∀ c ∈ ds, c.isDigit = true)
    (hrest : AfterDigits rest) :
    (ds ++ rest).takeWhile Char.isDigit = ds ∧ (ds ++ rest).dropWhile Char.isDigit = rest := by
  have hstop : rest.takeWhile Char.isDigit = [] ∧ rest.dropWhile Char.isDigit = rest := by
    cases rest with
    | nil => exact ⟨rfl, rfl⟩
    | cons c more => simp [hrest c more rfl]
  rw [List.takeWhile_append_of_pos h, List.dropWhile_append_of_pos h, hstop.1, hstop.2,
    List.append_nil]
  exact ⟨rfl, rfl⟩

theorem readDigits_complete (h : IsDigits ds)
    (hrest : AfterDigits rest) :
    ∃ hshorter, readDigits (ds ++ rest) = some ⟨ds, rest, hshorter⟩ := by
  obtain ⟨hne, hdigits⟩ := h
  obtain ⟨c, cs, rfl⟩ := List.exists_cons_of_ne_nil hne
  obtain ⟨htake, hdrop⟩ := span_digits (fun d hd => hdigits d (List.mem_cons_of_mem _ hd)) hrest
  refine ⟨by simp only [List.length_append, List.length_cons]; omega, ?_⟩
  show readDigits (c :: (cs ++ rest)) = _
  rw [readDigits]
  simp only [hdigits c List.mem_cons_self, if_true, htake, hdrop]

theorem readWhole_sound {step : Step input (List Char)} (h : readWhole ending input = .ok step) :
    IsDigits step.value ∧ (∀ d ds, step.value ≠ '0' :: d :: ds) ∧
      input = step.value ++ step.rest := by
  rw [readWhole] at h
  split at h
  · cases h
  · next step' hdigits =>
    obtain ⟨hvalue, hinput⟩ := readDigits_sound hdigits
    split at h
    · cases h
    · next hzero =>
      cases h
      exact ⟨hvalue, fun d ds heq => hzero d ds heq, hinput⟩

theorem readWhole_complete (ending : Reason) (h : IsDigits ds)
    (hzero : ∀ d ds', ds ≠ '0' :: d :: ds')
    (hrest : AfterDigits rest) :
    Reads (readWhole ending) (ds ++ rest) ds rest := by
  obtain ⟨hshorter, hdigits⟩ := readDigits_complete h hrest
  refine ⟨hshorter, ?_⟩
  rw [readWhole, hdigits]
  split
  · next heq => cases heq
  · next step heq =>
    cases heq
    split
    · next d ds' hds => exact absurd hds (hzero d ds')
    · rfl

/-! ## Fraction and exponent -/

theorem readFraction_sound {value : List Char}
    {left : {rest : List Char // rest.length ≤ input.length}}
    (h : readFraction ending input = .ok (value, left)) :
    ∃ text, FractionText value text ∧ input = text ++ left.1 := by
  rw [readFraction.eq_def] at h
  split at h
  · next rest =>
    split at h
    · next step hdigits =>
      cases h
      obtain ⟨hvalue, hrest⟩ := readDigits_sound hdigits
      exact ⟨_, .some hvalue, congrArg _ hrest⟩
    · cases h
  · cases h
    exact ⟨[], .none, rfl⟩

theorem splitSign_spec (input : List Char) :
    ∃ sign, SignText (splitSign input).1 sign ∧ input = sign ++ (splitSign input).2.1 := by
  rw [splitSign.eq_def]
  split
  · exact ⟨['+'], .plus, rfl⟩
  · exact ⟨['-'], .minus, rfl⟩
  · exact ⟨[], .none, rfl⟩

theorem readExponent_sound {value : Option (Bool × List Char)}
    {left : {rest : List Char // rest.length ≤ input.length}}
    (h : readExponent ending input = .ok (value, left)) :
    ∃ text, ExponentText value text ∧ input = text ++ left.1 := by
  rw [readExponent.eq_def] at h
  split at h
  · cases h
    exact ⟨[], .none, rfl⟩
  · next c rest =>
    split at h
    · next hmark =>
      obtain ⟨sign, hsign, hrest⟩ := splitSign_spec rest
      simp only at h
      split at h
      · next step hdigits =>
        cases h
        obtain ⟨hvalue, hleft⟩ := readDigits_sound hdigits
        refine ⟨c :: sign ++ step.value, .some (by simpa using hmark) hsign hvalue, ?_⟩
        show c :: rest = c :: sign ++ step.value ++ step.rest
        rw [List.append_assoc, ← hleft, List.cons_append, ← hrest]
      · cases h
    · cases h
      exact ⟨[], .none, rfl⟩

theorem readFraction_complete (ending : Reason) {value text : List Char}
    (h : FractionText value text)
    (hrest : AfterDigits rest) (hpoint : text = [] → ∀ more, rest ≠ '.' :: more) :
    ∃ hle, readFraction ending (text ++ rest) = .ok (value, ⟨rest, hle⟩) := by
  cases h with
  | none =>
    show ∃ hle, readFraction ending rest = .ok ([], ⟨rest, hle⟩)
    rw [readFraction.eq_2 _ _ fun more h => hpoint rfl more h]
    exact ⟨Nat.le_refl _, rfl⟩
  | some h =>
    obtain ⟨hshorter, hdigits⟩ := readDigits_complete h hrest
    show ∃ hle, readFraction ending ('.' :: (value ++ rest)) = .ok (value, ⟨rest, hle⟩)
    refine ⟨Nat.le_succ_of_le (Nat.le_of_lt hshorter), ?_⟩
    rw [readFraction, hdigits]

/-- No sign is taken for a digit. -/
theorem splitSign_digits (h : IsDigits ds) : (splitSign (ds ++ rest)).1 = false ∧
    (splitSign (ds ++ rest)).2.1 = ds ++ rest := by
  obtain ⟨c, cs, rfl⟩ := List.exists_cons_of_ne_nil h.1
  have hdigit := h.2 c List.mem_cons_self
  show (splitSign (c :: (cs ++ rest))).1 = false ∧ (splitSign (c :: (cs ++ rest))).2.1 = _
  rw [splitSign.eq_3]
  · exact ⟨rfl, rfl⟩
  · rintro more ⟨⟩
    cases hdigit
  · rintro more ⟨⟩
    cases hdigit

theorem splitSign_complete {negative : Bool} {sign : List Char} (hsign : SignText negative sign)
    (h : IsDigits ds) (rest : List Char) : (splitSign (sign ++ (ds ++ rest))).1 = negative ∧
      (splitSign (sign ++ (ds ++ rest))).2.1 = ds ++ rest := by
  cases hsign with
  | none =>
    show (splitSign (ds ++ rest)).1 = false ∧ (splitSign (ds ++ rest)).2.1 = ds ++ rest
    exact splitSign_digits h
  | plus => exact ⟨rfl, rfl⟩
  | minus => exact ⟨rfl, rfl⟩

theorem readExponent_complete (ending : Reason) {value : Option (Bool × List Char)}
    {text : List Char} (h : ExponentText value text) (hrest : AtEnd rest) :
    ∃ hle, readExponent ending (text ++ rest) = .ok (value, ⟨rest, hle⟩) := by
  cases h with
  | none =>
    show ∃ hle, readExponent ending rest = .ok (none, ⟨rest, hle⟩)
    cases rest with
    | nil => exact ⟨Nat.le_refl _, rfl⟩
    | cons c more =>
      have hmark := hrest c more rfl
      simp only [continuesNumber, Bool.or_eq_false_iff] at hmark
      rw [readExponent, hmark.1.2, hmark.2]
      exact ⟨Nat.le_refl _, rfl⟩
  | @some mark negative sign ds hmark hsign h =>
    obtain ⟨hshorter, hdigits⟩ := readDigits_complete h hrest.afterDigits
    obtain ⟨hnegative, hunsigned⟩ := splitSign_complete hsign h rest
    have htext : mark :: sign ++ ds ++ rest = mark :: (sign ++ (ds ++ rest)) := by simp
    rw [htext, readExponent]
    rcases hsplit : splitSign (sign ++ (ds ++ rest)) with ⟨negative', unsigned, hle⟩
    rw [hsplit] at hnegative hunsigned
    subst hnegative hunsigned
    rw [if_pos (by simpa using hmark)]
    have hle' : rest.length ≤ (mark :: (sign ++ (ds ++ rest))).length := by
      simp only [List.length_cons, List.length_append]
      omega
    simp only [hdigits]
    exact ⟨hle', trivial⟩

end Digits

/-! ## Numbers -/

section Numbers

variable {input rest text : List Char} {ending : Reason} {n : Numeral}

/-- Reading the parts of a number makes the text shorter. -/
theorem length_lt_of_parts {input unsigned afterFraction rest : List Char}
    {whole : Step unsigned (List Char)} (h : unsigned.length ≤ input.length)
    (h' : afterFraction.length ≤ whole.rest.length) (h'' : rest.length ≤ afterFraction.length) :
    rest.length < input.length := by
  have hwhole := whole.shorter
  omega

/-- A number is read in parts after its sign; it has one if a minus comes first. -/
theorem readNumeral_eq (ending : Reason) (input : List Char) :
    ∃ signed : Bool × {rest : List Char // rest.length ≤ input.length},
      input = (if signed.1 then ['-'] else []) ++ signed.2.1 ∧
      (signed.1 = false → ∀ more, input ≠ '-' :: more) ∧
      readNumeral ending input = (do
        let ⟨negative, ⟨unsigned, h⟩⟩ := signed
        let whole ← readWhole ending unsigned
        let (fraction, ⟨afterFraction, h'⟩) ← readFraction ending whole.rest
        let (exponent, ⟨rest, h''⟩) ← readExponent ending afterFraction
        return ⟨⟨negative, whole.value, fraction, exponent⟩, rest,
          length_lt_of_parts h h' h''⟩) := by
  refine ⟨_, ?_, ?_, readNumeral.eq_def ending input⟩
  · split <;> rfl
  · split
    · intro h
      cases h
    · next hminus => exact fun _ => hminus

/-- **What the reader of numbers splits off is a spelling.** -/
theorem readNumeral_sound {step : Step input Numeral} (h : readNumeral ending input = .ok step) :
    ∃ text, step.value.Written text ∧ input = text ++ step.rest := by
  obtain ⟨⟨negative, unsigned, hle⟩, hinput, -, hparts⟩ := readNumeral_eq ending input
  rw [hparts] at h
  obtain ⟨w, hw, h⟩ := of_bind_eq_ok h
  obtain ⟨f, hf, h⟩ := of_bind_eq_ok h
  obtain ⟨x, hx, h⟩ := of_bind_eq_ok h
  cases h
  obtain ⟨hwhole, hzero, hleft⟩ := readWhole_sound hw
  obtain ⟨fractionText, hfraction, hleft'⟩ := readFraction_sound hf
  obtain ⟨exponentText, hexponent, hleft''⟩ := readExponent_sound hx
  have hunsigned := hleft.trans (congrArg _ (hleft'.trans (congrArg _ hleft'')))
  refine ⟨_, .mk hwhole hzero hfraction hexponent, hinput.trans ?_⟩
  simp only [List.append_assoc]
  rw [← hunsigned]

/-- After the digits of a number comes neither a digit nor, after those of the fraction, a point. -/
theorem ExponentText.head {exponent : Option (Bool × List Char)} {c : Char} {more : List Char}
    (h : ExponentText exponent text) (hrest : AtEnd rest) (hcons : text ++ rest = c :: more) :
    c.isDigit = false ∧ c ≠ '.' := by
  cases h with
  | none =>
    have hc := hrest c more hcons
    simp only [continuesNumber, Bool.or_eq_false_iff, decide_eq_false_iff_not] at hc
    exact ⟨hc.1.1.1, hc.1.1.2⟩
  | some hmark =>
    cases hcons
    rcases hmark with rfl | rfl
    · decide
    · decide

/-- **A spelling of a number is read** where no character of a number comes next. -/
theorem readNumeral_complete (h : n.Written text) (hrest : AtEnd rest) :
    Reads (readNumeral ending) (text ++ rest) n rest := by
  obtain @⟨negative, whole, fraction, fractionText, exponentText, exponent, hwhole, hzero,
    hfraction, hexponent⟩ := h
  have hexp : AfterDigits (exponentText ++ rest) := fun c more h => (hexponent.head hrest h).1
  have hfrac : AfterDigits (fractionText ++ (exponentText ++ rest)) := by
    cases hfraction with
    | none => exact hexp
    | some =>
      rintro c more ⟨⟩
      rfl
  have hpoint : ∀ more, exponentText ++ rest ≠ '.' :: more := fun more h =>
    (hexponent.head hrest h).2 rfl
  obtain ⟨hw, hreadWhole⟩ := readWhole_complete ending hwhole hzero hfrac
  obtain ⟨hf, hreadFraction⟩ := readFraction_complete ending hfraction hexp fun _ => hpoint
  obtain ⟨hx, hreadExponent⟩ := readExponent_complete ending hexponent hrest
  obtain ⟨⟨negative', unsigned, hle⟩, hinput, hminus, hparts⟩ := readNumeral_eq ending
    ((if negative then ['-'] else []) ++ whole ++ fractionText ++ exponentText ++ rest)
  obtain ⟨d, ds, rfl⟩ := List.exists_cons_of_ne_nil hwhole.1
  have hsigned : negative' = negative ∧
      unsigned = d :: ds ++ (fractionText ++ (exponentText ++ rest)) := by
    simp only [List.append_assoc] at hinput hminus
    cases negative
    · cases negative'
      · exact ⟨rfl, hinput.symm⟩
      · obtain rfl := (List.cons.inj hinput).1
        cases hwhole.2 '-' List.mem_cons_self
    · cases negative'
      · exact absurd rfl (hminus rfl _)
      · exact ⟨rfl, (List.cons.inj hinput).2.symm⟩
  obtain ⟨rfl, rfl⟩ := hsigned
  refine ⟨by simp only [List.length_append, List.length_cons]; omega, ?_⟩
  rw [hparts]
  simp only [bind, Except.bind, hreadWhole, hreadFraction, hreadExponent]
  rfl

/-- No character of a number is anything else than a sign or can be in the middle of a number. -/
theorem Numeral.Written.mem {c : Char} (h : n.Written text) (hc : c ∈ text) :
    c = '-' ∨ c = '+' ∨ continuesNumber c = true := by
  have hdigit : ∀ {ds : List Char}, IsDigits ds → c ∈ ds → continuesNumber c = true := by
    intro ds hds hmem
    simp only [continuesNumber, hds.2 c hmem, Bool.true_or]
  obtain ⟨hwhole, -, hfraction, hexponent⟩ := h
  simp only [List.mem_append] at hc
  rcases hc with ((hc | hc) | hc) | hc
  · split at hc
    · exact .inl (List.mem_singleton.1 hc)
    · cases hc
  · exact .inr (.inr (hdigit hwhole hc))
  · cases hfraction with
    | none => cases hc
    | some hds =>
      rcases List.mem_cons.1 hc with rfl | hc
      · exact .inr (.inr (by decide))
      · exact .inr (.inr (hdigit hds hc))
  · cases hexponent with
    | none => cases hc
    | some hmark hsign hds =>
      rcases List.mem_append.1 hc with hc | hc
      · rcases List.mem_cons.1 hc with rfl | hc
        · rcases hmark with rfl | rfl
          · exact .inr (.inr (by decide))
          · exact .inr (.inr (by decide))
        · cases hsign with
          | none => cases hc
          | plus => exact .inr (.inl (List.mem_singleton.1 hc))
          | minus => exact .inl (List.mem_singleton.1 hc)
      · exact .inr (.inr (hdigit hds hc))

/-- A number starts with a minus or a digit. -/
theorem Numeral.Written.head (h : n.Written text) :
    ∃ c more, text = c :: more ∧ (c = '-' ∨ c.isDigit = true) := by
  obtain @⟨negative, whole, _, fractionText, exponentText, _, hwhole, -, -, -⟩ := h
  obtain ⟨d, ds, rfl⟩ := List.exists_cons_of_ne_nil hwhole.1
  cases negative
  · exact ⟨d, ds ++ fractionText ++ exponentText, rfl, .inr (hwhole.2 d List.mem_cons_self)⟩
  · exact ⟨'-', d :: ds ++ fractionText ++ exponentText, rfl, .inl rfl⟩

theorem ne_of_opensNumber {c x : Char} (h : c = '-' ∨ c.isDigit = true) (hminus : x ≠ '-')
    (hdigit : x.isDigit = false) : c ≠ x := by
  rintro rfl
  rcases h with h | h
  · exact hminus h
  · rw [h] at hdigit
    cases hdigit

/-! ### Values -/

/-- A text is a spelling of a number that has the value. -/
def WrittenNumber (n : Number) (text : List Char) : Prop :=
  ∃ numeral : Numeral, numeral.Written text ∧ numeral.value = .ok n

theorem readNumber_sound {step : Step input Number} (h : readNumber input = .ok step) :
    ∃ text, WrittenNumber step.value text ∧ input = text ++ step.rest := by
  rw [readNumber] at h
  obtain ⟨numeral, hnumeral, h⟩ := of_bind_eq_ok h
  split at h
  · next n hn =>
    cases h
    obtain ⟨text, hwritten, hinput⟩ := readNumeral_sound hnumeral
    exact ⟨text, ⟨numeral.value, hwritten, hn⟩, hinput⟩
  · cases h

theorem readNumber_complete {n : Number} (h : WrittenNumber n text) (hrest : AtEnd rest) :
    Reads readNumber (text ++ rest) n rest := by
  obtain ⟨numeral, hwritten, hn⟩ := h
  obtain ⟨hshorter, hread⟩ := readNumeral_complete hwritten hrest
  refine ⟨hshorter, ?_⟩
  rw [readNumber, hread]
  simp only [bind, Except.bind, hn]
  rfl

end Numbers

end Json
end KernelRegistry
