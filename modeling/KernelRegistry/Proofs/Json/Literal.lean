import KernelRegistry.Json.Literal
import KernelRegistry.Json.Printer
import KernelRegistry.Proofs.Except

/-!
# The spelling of strings

A string can be spelled in many ways.  This file says which texts between two quotes spell which
strings, without a reader, and that the reader agrees.

* `Json.Reads` — what a reader gives and leaves.
* `Json.Escape`, `Json.Spells` — the spellings of a character after a backslash, and of a string.
* `readString_sound`, `readString_complete` — **the reader of strings reads spellings**.
* `decode` — the string that is spelled.
* `Spells.escaped` — the printer writes a spelling.
-/

set_option autoImplicit false
namespace KernelRegistry
namespace Json

/-! ## Readers -/

/-- A reader gives a value and leaves the rest of the text. -/
def Reads {α : Type} (reader : Reader α) (input : List Char) (value : α) (rest : List Char) :
    Prop :=
  ∃ h, reader input = .ok ⟨value, rest, h⟩

/-! ## Escapes -/

/-- The escapes: the text after a backslash, and the character that it stands for. -/
inductive Escape : List Char → Char → Prop
  | letter {l c : Char} (h : letterEscape? l = some c) : Escape [l] c
  | number {a b c d : Char} {n : Nat} (h : hexFour? a b c d = some n)
      (htrailing : isTrailing n = false) (hleading : isLeading n = false) :
      Escape ['u', a, b, c, d] (Char.ofNat n)
  | pair {a b c d a' b' c' d' : Char} {n k : Nat} (h : hexFour? a b c d = some n)
      (hleading : isLeading n = true) (h' : hexFour? a' b' c' d' = some k)
      (htrailing : isTrailing k = true) :
      Escape ['u', a, b, c, d, '\\', 'u', a', b', c', d'] (ofSurrogates n k)

/-- The spellings of a string: the text between its quotes, and the string.  A string has many of
them, since any character may be escaped. -/
inductive Spells : List Char → List Char → Prop
  | nil : Spells [] []
  | plain {c : Char} {raw cs : List Char} (hquote : c ≠ '"') (hbackslash : c ≠ '\\')
      (hcontrol : isControl c = false) (h : Spells raw cs) : Spells (c :: raw) (c :: cs)
  | escape {e : List Char} {c : Char} {raw cs : List Char} (he : Escape e c) (h : Spells raw cs) :
      Spells ('\\' :: e ++ raw) (c :: cs)

/-! ### Reading escapes -/

section Escapes

variable {input rest : List Char} {n : Nat} {c : Char}

theorem readHexFour_sound {step : Step input Nat} (h : readHexFour input = .ok step) :
    ∃ a b c d, input = a :: b :: c :: d :: step.rest ∧ hexFour? a b c d = some step.value := by
  rw [readHexFour.eq_def] at h
  split at h
  · split at h
    · next hfour =>
      cases h
      exact ⟨_, _, _, _, rfl, hfour⟩
    · cases h
  · cases h

theorem readHexFour_complete {a b c d : Char} (h : hexFour? a b c d = some n) (rest : List Char) :
    Reads readHexFour (a :: b :: c :: d :: rest) n rest := by
  refine ⟨by simp only [List.length_cons]; omega, ?_⟩
  rw [readHexFour]
  split
  · next n' hn' =>
    rw [h] at hn'
    cases hn'
    rfl
  · next hnone =>
    rw [h] at hnone
    cases hnone

theorem readSecondEscape_sound {step : Step input Nat} (h : readSecondEscape input = .ok step) :
    ∃ a b c d, input = '\\' :: 'u' :: a :: b :: c :: d :: step.rest ∧
      hexFour? a b c d = some step.value := by
  rw [readSecondEscape.eq_def] at h
  split at h
  · cases h
  · cases h
  · next digits =>
    obtain ⟨step', hfour, rfl⟩ := of_map_eq_ok h
    obtain ⟨a, b, c, d, hdigits, hn⟩ := readHexFour_sound hfour
    exact ⟨a, b, c, d, congrArg (fun rest => '\\' :: 'u' :: rest) hdigits, hn⟩
  · cases h
  · cases h

theorem readSecondEscape_complete {a b c d : Char} (h : hexFour? a b c d = some n)
    (rest : List Char) :
    Reads readSecondEscape ('\\' :: 'u' :: a :: b :: c :: d :: rest) n rest := by
  obtain ⟨hshorter, hfour⟩ := readHexFour_complete h rest
  refine ⟨Nat.lt_succ_of_lt (Nat.lt_succ_of_lt hshorter), ?_⟩
  rw [readSecondEscape, hfour]
  rfl

/-- The number of an escape is read with a second one if that has to follow. -/
theorem readNumbered_sound {step : Step input Char} (h : readNumbered input = .ok step) :
    ∃ e, input = e ++ step.rest ∧ Escape ('u' :: e) step.value := by
  rw [readNumbered] at h
  obtain ⟨first, hfirst, h⟩ := of_bind_eq_ok h
  obtain ⟨a, b, c, d, hinput, hn⟩ := readHexFour_sound hfirst
  split at h
  · cases h
  next htrailing =>
  split at h
  · next hleading =>
    obtain ⟨second, hsecond, h⟩ := of_bind_eq_ok h
    obtain ⟨a', b', c', d', hrest, hk⟩ := readSecondEscape_sound hsecond
    split at h
    · next hsurrogate =>
      obtain rfl := Except.ok.inj h
      simp only [Step.value_within, Step.rest_within, Step.value_map, Step.rest_map]
      have hwhole := hinput.trans (congrArg (fun rest => a :: b :: c :: d :: rest) hrest)
      refine ⟨[a, b, c, d, '\\', 'u', a', b', c', d'], hwhole, ?_⟩
      exact .pair hn hleading hk hsurrogate
    · cases h
  · next hleading =>
    cases h
    exact ⟨[a, b, c, d], hinput, .number hn (by simpa using htrailing) (by simpa using hleading)⟩

theorem not_isTrailing_of_isLeading (h : isLeading n = true) : isTrailing n = false := by
  simp only [isLeading, isTrailing, Bool.and_eq_true, Bool.and_eq_false_iff, decide_eq_true_eq,
    decide_eq_false_iff_not] at h ⊢
  omega

theorem readNumbered_complete {e : List Char} (h : Escape ('u' :: e) c) (rest : List Char) :
    Reads readNumbered (e ++ rest) c rest := by
  generalize hu : 'u' :: e = text at h
  cases h with
  | letter h =>
    cases hu
    cases h
  | @number a b c d _ h htrailing hleading =>
    cases hu
    obtain ⟨hshorter, hfour⟩ := readHexFour_complete h rest
    show Reads readNumbered (a :: b :: c :: d :: rest) _ rest
    refine ⟨hshorter, ?_⟩
    rw [readNumbered, hfour]
    simp only [bind, Except.bind, htrailing, hleading]
    rfl
  | @pair a b c d a' b' c' d' _ _ h hleading h' htrailing =>
    cases hu
    obtain ⟨hshorter, hfour⟩ := readHexFour_complete h ('\\' :: 'u' :: a' :: b' :: c' :: d' :: rest)
    obtain ⟨hshorter', hsecond⟩ := readSecondEscape_complete h' rest
    have hnot := not_isTrailing_of_isLeading hleading
    show Reads readNumbered
      (a :: b :: c :: d :: '\\' :: 'u' :: a' :: b' :: c' :: d' :: rest) _ rest
    refine ⟨Nat.lt_trans hshorter' hshorter, ?_⟩
    rw [readNumbered, hfour]
    simp only [bind, Except.bind, hnot, hleading, hsecond, htrailing, Bool.false_eq_true, if_false,
      if_true, pure, Except.pure, Step.map, Step.within]

theorem readEscape_sound {step : Step input Char} (h : readEscape input = .ok step) :
    ∃ e, input = e ++ step.rest ∧ Escape e step.value := by
  rw [readEscape.eq_def] at h
  split at h
  · cases h
  · next digits =>
    obtain ⟨step', hnumbered, rfl⟩ := of_map_eq_ok h
    obtain ⟨e, hdigits, he⟩ := readNumbered_sound hnumbered
    exact ⟨'u' :: e, congrArg _ hdigits, he⟩
  · next l more _ =>
    split at h
    · next hletter =>
      cases h
      exact ⟨[l], rfl, .letter hletter⟩
    · cases h

theorem readEscape_complete {e : List Char} (h : Escape e c) (rest : List Char) :
    Reads readEscape (e ++ rest) c rest := by
  have hnumber : ∀ {e : List Char}, Escape ('u' :: e) c →
      Reads readEscape ('u' :: e ++ rest) c rest := by
    intro e he
    obtain ⟨hshorter, hnumbered⟩ := readNumbered_complete he rest
    show Reads readEscape ('u' :: (e ++ rest)) c rest
    refine ⟨Nat.lt_succ_of_lt hshorter, ?_⟩
    rw [readEscape, hnumbered]
    rfl
  cases h with
  | @letter l c h =>
    have hl : l ≠ 'u' := by
      rintro rfl
      cases h
    show Reads readEscape (l :: rest) c rest
    refine ⟨by simp, ?_⟩
    rw [readEscape.eq_3 _ _ (by simpa using hl)]
    split
    · next himage =>
      rw [h] at himage
      cases himage
      rfl
    · next hnone =>
      rw [h] at hnone
      cases hnone
  | number h htrailing hleading => exact hnumber (.number h htrailing hleading)
  | pair h hleading h' htrailing => exact hnumber (.pair h hleading h' htrailing)

end Escapes

/-! ## Strings -/

section Strings

variable {input raw cs rest : List Char} {c : Char}

/-- **What the reader of strings reads is a spelling**, up to the closing quote. -/
theorem readString_sound {step : Step input (List Char)} (h : readString input = .ok step) :
    ∃ raw, input = raw ++ '"' :: step.rest ∧ Spells raw step.value := by
  fun_induction readString input with
  | case1 => cases h
  | case2 rest =>
    cases h
    exact ⟨[], rfl, .nil⟩
  | case3 rest ih =>
    obtain ⟨first, hescape, h⟩ := of_bind_eq_ok h
    obtain ⟨more, hmore, h⟩ := of_bind_eq_ok h
    cases h
    obtain ⟨e, hrest, he⟩ := readEscape_sound hescape
    obtain ⟨raw, hraw, hspells⟩ := ih first hmore
    refine ⟨'\\' :: e ++ raw, ?_, .escape he hspells⟩
    show '\\' :: rest = '\\' :: e ++ raw ++ '"' :: more.rest
    rw [List.append_assoc, ← hraw, List.cons_append, ← hrest]
  | case4 c rest hquote hbackslash hcontrol => cases h
  | case5 c rest hquote hbackslash hcontrol ih =>
    obtain ⟨more, hmore, h⟩ := of_bind_eq_ok h
    cases h
    obtain ⟨raw, hraw, hspells⟩ := ih hmore
    refine ⟨c :: raw, congrArg _ hraw, .plain ?_ ?_ (by simpa using hcontrol) hspells⟩
    · exact fun h => hquote h
    · exact fun h => hbackslash h

/-- **A spelling is read** up to the closing quote. -/
theorem readString_complete (h : Spells raw cs) (rest : List Char) :
    Reads readString (raw ++ '"' :: rest) cs rest := by
  induction h with
  | nil =>
    show Reads readString ('"' :: rest) [] rest
    exact ⟨by simp, by rw [readString]⟩
  | @plain c raw cs hquote hbackslash hcontrol h ih =>
    obtain ⟨hshorter, hmore⟩ := ih
    show Reads readString (c :: (raw ++ '"' :: rest)) (c :: cs) rest
    refine ⟨Nat.lt_succ_of_lt hshorter, ?_⟩
    rw [readString.eq_4 _ _ (fun h => hquote h) fun h => hbackslash h, hcontrol, hmore]
    rfl
  | @escape e c raw cs he h ih =>
    obtain ⟨hshorter, hmore⟩ := ih
    obtain ⟨hshorter', hescape⟩ := readEscape_complete he (raw ++ '"' :: rest)
    have hinput : '\\' :: e ++ raw ++ '"' :: rest = '\\' :: (e ++ (raw ++ '"' :: rest)) := by simp
    rw [hinput]
    refine ⟨Nat.lt_succ_of_lt (Nat.lt_trans hshorter hshorter'), ?_⟩
    rw [readString, hescape]
    simp only [bind, Except.bind, hmore]
    rfl

/-! ### Decoding -/

/-- The string that a text between two quotes spells, if any. -/
def decode (raw : List Char) : List Char :=
  match readString (raw ++ ['"']) with
  | .ok step => step.value
  | .error _ => []

theorem Spells.decode_eq (h : Spells raw cs) : decode raw = cs := by
  obtain ⟨_, hread⟩ := readString_complete h []
  rw [decode, hread]

theorem Spells.append {raw' cs' : List Char} (h : Spells raw cs) (h' : Spells raw' cs') :
    Spells (raw ++ raw') (cs ++ cs') := by
  induction h with
  | nil => exact h'
  | plain hquote hbackslash hcontrol h ih => exact .plain hquote hbackslash hcontrol ih
  | @escape e c raw cs he h ih =>
    rw [List.append_assoc]
    exact .escape he ih

/-- A text without quotes, backslashes and control characters spells itself. -/
theorem Spells.self (h : ∀ c ∈ raw, c ≠ '"' ∧ c ≠ '\\' ∧ isControl c = false) :
    Spells raw raw := by
  induction raw with
  | nil => exact .nil
  | cons c raw ih =>
    obtain ⟨hquote, hbackslash, hcontrol⟩ := h c List.mem_cons_self
    exact .plain hquote hbackslash hcontrol (ih fun c hc => h c (List.mem_cons_of_mem _ hc))

theorem Spells.self_of_all
    (h : raw.all (fun c => c != '"' && c != '\\' && !isControl c) = true) : Spells raw raw :=
  .self fun c hc => by simpa [and_assoc] using List.all_eq_true.1 h c hc

/-- A character that spells itself is spelled by itself only. -/
theorem Spells.of_cons (hbackslash : c ≠ '\\') (h : Spells (c :: raw) cs) :
    ∃ cs', cs = c :: cs' ∧ c ≠ '"' ∧ isControl c = false ∧ Spells raw cs' := by
  generalize hwhole : c :: raw = whole at h
  cases h with
  | nil => cases hwhole
  | plain hquote hbackslash hcontrol h =>
    cases hwhole
    exact ⟨_, rfl, hquote, hcontrol, h⟩
  | escape => exact absurd (List.cons.inj hwhole).1 hbackslash

/-! ### Printing -/

/-- The escape that is printed for a control character is read back as its number. -/
theorem hexFour?_of_control {n : Nat} (h : n < 0x20) :
    hexFour? '0' '0' (Nat.digitChar (n / 16)) (Nat.digitChar (n % 16)) = some n := by
  have hall : ∀ k : Fin 0x20,
      hexFour? '0' '0' (Nat.digitChar (k / 16)) (Nat.digitChar (k % 16)) = some (k : Nat) := by
    decide
  exact hall ⟨n, h⟩

theorem Spells.escapeChar (c : Char) : Spells (escapeChar c) [c] := by
  have hletter : ∀ {l : Char}, letterEscape? l = some c → Spells ['\\', l] [c] := fun h =>
    .escape (.letter h) .nil
  rw [Json.escapeChar]
  split
  · next h => exact h ▸ hletter (by rw [h]; rfl)
  split
  · next h => exact hletter (by rw [h]; rfl)
  split
  · next h => exact hletter (by rw [h]; rfl)
  split
  · next h => exact hletter (by rw [h]; rfl)
  split
  · next h => exact hletter (by rw [h]; rfl)
  split
  · next h => exact hletter (by rw [h]; rfl)
  split
  · next h => exact hletter (by rw [h]; rfl)
  split
  · next hlow =>
    have hescape := Escape.number (hexFour?_of_control hlow)
      (by simp only [isTrailing, Bool.and_eq_false_iff, decide_eq_false_iff_not]; omega)
      (by simp only [isLeading, Bool.and_eq_false_iff, decide_eq_false_iff_not]; omega)
    rw [Char.ofNat_toNat] at hescape
    exact .escape hescape .nil
  · next hquote hbackslash _ _ _ _ _ hlow =>
    exact .plain hquote hbackslash (by simpa [isControl] using hlow) .nil

/-- **The printer writes a spelling.** -/
theorem Spells.escaped (cs : List Char) : Spells (escapedChars cs) cs := by
  induction cs with
  | nil => exact .nil
  | cons c cs ih =>
    rw [escapedChars, List.flatMap_cons]
    exact (Spells.escapeChar c).append ih

end Strings

end Json
end KernelRegistry
