import KernelRegistry.Proofs.Text.Utf8

/-!
# Bytes that are read as text

`KernelRegistry.Proofs.Text.Utf8` shows that the bytes of a text are read as that text.  This file
is about the other direction: nothing else is.

* `encodeChar_two`, `encodeChar_three`, `encodeChar_four` — the bytes of a character by its parts.
* `followers_cases` — which bytes can follow a first one.
* `encodeChar_combine` — **the bytes that are cut off as a character are those of the character**.
* `encode_of_decode?` — **bytes that are read as a text are the bytes of it**.
* `exists_of_decodeLossy_append`, `decodeLossy_eq_iff` — what is shown at the front of bytes is
  there.
-/

set_option autoImplicit false
namespace KernelRegistry
namespace Text

/-! ## One character -/

section Character
variable {first : UInt8} {ranges : List (UInt8 × UInt8)} {bs : Bytes} {k l m n : Nat}

theorem toNat_char_of_lt (h : n < 0xD800 ∨ 0xDFFF < n ∧ n < 0x110000) :
    (Char.ofNat n).toNat = n := by
  have hvalid : n.isValidChar := h
  rw [Char.ofNat, dif_pos hvalid]
  rfl

theorem follow_of_length (h : (takeFollowers ranges bs).1.length = ranges.length) :
    Follow ranges (takeFollowers ranges bs).1 := by
  induction ranges generalizing bs with
  | nil =>
    cases bs <;> exact .nil
  | cons range ranges ih =>
    cases bs with
    | nil => cases h
    | cons b bs =>
      rw [takeFollowers] at h ⊢
      split at h
      · next hb =>
        rw [if_pos hb]
        exact .cons hb.1 hb.2 (ih (Nat.succ.inj h))
      · cases h

/-- A byte between bounds by its distance from a mark. -/
theorem exists_byte {b low high : UInt8} (mark : Nat) (hlow : low ≤ b) (hhigh : b ≤ high)
    (hmark : mark ≤ low.toNat) : ∃ n, b = UInt8.ofNat (n + mark) ∧ low.toNat ≤ n + mark ∧
      n + mark ≤ high.toNat := by
  rw [UInt8.le_iff_toNat_le] at hlow hhigh
  refine ⟨b.toNat - mark, ?_, by omega, by omega⟩
  rw [Nat.sub_add_cancel (by omega), UInt8.ofNat_toNat]

theorem encodeChar_two (hk : k < 0x20) (hlow : 2 ≤ k) (hn : n < 0x40) :
    String.utf8EncodeChar (Char.ofNat (k * 0x40 + n)) =
      [UInt8.ofNat (k + 0xC0), UInt8.ofNat (n + 0x80)] := by
  have hv : (Char.ofNat (k * 0x40 + n)).val.toNat = k * 0x40 + n := toNat_char_of_lt (by omega)
  rw [String.utf8EncodeChar]
  simp only [hv]
  rw [if_neg (by omega), if_pos (by omega)]
  show [UInt8.ofNat ((k * 0x40 + n) / 64 % 0x20 + 0xC0),
    UInt8.ofNat ((k * 0x40 + n) % 0x40 + 0x80)] = _
  rw [show (k * 0x40 + n) / 64 % 0x20 = k by omega, show (k * 0x40 + n) % 0x40 = n by omega]


theorem encodeChar_three (hk : k < 0x10) (hm : m < 0x40) (hn : n < 0x40) (hlow : k = 0 → 0x20 ≤ m)
    (hsurrogate : k = 13 → m < 0x20) :
    String.utf8EncodeChar (Char.ofNat ((k * 0x40 + m) * 0x40 + n)) =
      [UInt8.ofNat (k + 0xE0), UInt8.ofNat (m + 0x80), UInt8.ofNat (n + 0x80)] := by
  have hv : (Char.ofNat ((k * 0x40 + m) * 0x40 + n)).val.toNat = (k * 0x40 + m) * 0x40 + n :=
    toNat_char_of_lt (by omega)
  rw [String.utf8EncodeChar]
  simp only [hv]
  rw [if_neg (by omega), if_neg (by omega), if_pos (by omega)]
  show [UInt8.ofNat (((k * 0x40 + m) * 0x40 + n) / 4096 % 0x10 + 0xE0),
    UInt8.ofNat (((k * 0x40 + m) * 0x40 + n) / 64 % 0x40 + 0x80),
    UInt8.ofNat (((k * 0x40 + m) * 0x40 + n) % 0x40 + 0x80)] = _
  rw [show ((k * 0x40 + m) * 0x40 + n) / 4096 % 0x10 = k by omega,
    show ((k * 0x40 + m) * 0x40 + n) / 64 % 0x40 = m by omega,
    show ((k * 0x40 + m) * 0x40 + n) % 0x40 = n by omega]

theorem encodeChar_four (hk : k < 5) (hl : l < 0x40) (hm : m < 0x40) (hn : n < 0x40)
    (hlow : k = 0 → 0x10 ≤ l) (hhigh : k = 4 → l < 0x10) :
    String.utf8EncodeChar (Char.ofNat (((k * 0x40 + l) * 0x40 + m) * 0x40 + n)) =
      [UInt8.ofNat (k + 0xF0), UInt8.ofNat (l + 0x80), UInt8.ofNat (m + 0x80),
        UInt8.ofNat (n + 0x80)] := by
  have hv : (Char.ofNat (((k * 0x40 + l) * 0x40 + m) * 0x40 + n)).val.toNat =
      ((k * 0x40 + l) * 0x40 + m) * 0x40 + n := toNat_char_of_lt (by omega)
  rw [String.utf8EncodeChar]
  simp only [hv]
  rw [if_neg (by omega), if_neg (by omega), if_neg (by omega)]
  show [UInt8.ofNat ((((k * 0x40 + l) * 0x40 + m) * 0x40 + n) / 262144 % 0x08 + 0xF0),
    UInt8.ofNat ((((k * 0x40 + l) * 0x40 + m) * 0x40 + n) / 4096 % 0x40 + 0x80),
    UInt8.ofNat ((((k * 0x40 + l) * 0x40 + m) * 0x40 + n) / 64 % 0x40 + 0x80),
    UInt8.ofNat ((((k * 0x40 + l) * 0x40 + m) * 0x40 + n) % 0x40 + 0x80)] = _
  rw [show (((k * 0x40 + l) * 0x40 + m) * 0x40 + n) / 262144 % 0x08 = k by omega,
    show (((k * 0x40 + l) * 0x40 + m) * 0x40 + n) / 4096 % 0x40 = l by omega,
    show (((k * 0x40 + l) * 0x40 + m) * 0x40 + n) / 64 % 0x40 = m by omega,
    show (((k * 0x40 + l) * 0x40 + m) * 0x40 + n) % 0x40 = n by omega]

/-- A byte that follows any other one carries six bits. -/
theorem Follow.exists_six {low high : UInt8} (h : Follow ((low, high) :: ranges) bs)
    (hlow : 0x80 ≤ low.toNat) : ∃ n rest, bs = UInt8.ofNat (n + 0x80) :: rest ∧
      low.toNat ≤ n + 0x80 ∧ n + 0x80 ≤ high.toNat ∧ Follow ranges rest := by
  cases h with
  | @cons _ _ b rest hl hh hrest =>
    obtain ⟨n, rfl, hbounds⟩ := exists_byte 0x80 hl hh hlow
    exact ⟨n, rest, rfl, hbounds.1, hbounds.2, hrest⟩

/-- A first byte by the number of bytes that follow it, and the bounds of the first of these. -/
theorem followers_cases (h : followers first = some ranges) :
    (∃ n < 0x80, first = UInt8.ofNat n ∧ ranges = []) ∨
    (∃ k < 0x20, 2 ≤ k ∧ first = UInt8.ofNat (k + 0xC0) ∧ ranges = [(0x80, 0xBF)]) ∨
    (∃ k < 0x10, first = UInt8.ofNat (k + 0xE0) ∧
      ranges = [if k = 0 then (0xA0, 0xBF) else if k = 13 then (0x80, 0x9F) else (0x80, 0xBF),
        (0x80, 0xBF)]) ∨
    ∃ k < 5, first = UInt8.ofNat (k + 0xF0) ∧
      ranges = [if k = 0 then (0x90, 0xBF) else if k = 4 then (0x80, 0x8F) else (0x80, 0xBF),
        (0x80, 0xBF), (0x80, 0xBF)] := by
  have hall : ∀ b : Fin 0x100, followers (UInt8.ofNat b) =
      if b.1 < 0x80 then some []
      else if b.1 < 0xC2 then none
      else if b.1 < 0xE0 then some [(0x80, 0xBF)]
      else if b.1 < 0xF0 then
        some [if b.1 - 0xE0 = 0 then (0xA0, 0xBF)
          else if b.1 - 0xE0 = 13 then (0x80, 0x9F) else (0x80, 0xBF), (0x80, 0xBF)]
      else if b.1 < 0xF5 then
        some [if b.1 - 0xF0 = 0 then (0x90, 0xBF)
          else if b.1 - 0xF0 = 4 then (0x80, 0x8F) else (0x80, 0xBF), (0x80, 0xBF), (0x80, 0xBF)]
      else none := by decide +kernel
  have hbyte := hall ⟨first.toNat, first.toNat_lt⟩
  have hself : ∀ mark, mark ≤ first.toNat → first = UInt8.ofNat (first.toNat - mark + mark) := by
    intro mark hmark
    rw [Nat.sub_add_cancel hmark, UInt8.ofNat_toNat]
  rw [UInt8.ofNat_toNat, h] at hbyte
  simp only at hbyte
  split at hbyte
  · next hlt => exact .inl ⟨first.toNat, hlt, UInt8.ofNat_toNat.symm, Option.some.inj hbyte⟩
  split at hbyte
  · cases hbyte
  split at hbyte
  · exact .inr (.inl ⟨first.toNat - 0xC0, by omega, by omega, hself _ (by omega),
      Option.some.inj hbyte⟩)
  split at hbyte
  · exact .inr (.inr (.inl ⟨first.toNat - 0xE0, by omega, hself _ (by omega),
      Option.some.inj hbyte⟩))
  split at hbyte
  · exact .inr (.inr (.inr ⟨first.toNat - 0xF0, by omega, hself _ (by omega),
      Option.some.inj hbyte⟩))
  · cases hbyte

/-- Bytes that follow a first one end with the last range. -/
theorem Follow.eq_nil (h : Follow [] bs) : bs = [] := by
  cases h
  rfl

/-- A second byte between the bounds that two first bytes set for it. -/
theorem Follow.exists_second {first last : Nat} {low high : UInt8 × UInt8}
    (h : Follow ((if k = first then low else if k = last then high else (0x80, 0xBF)) :: ranges) bs)
    (hlow : 0x80 ≤ low.1.toNat) (hlow' : low.2.toNat = 0xBF) (hhigh : high.1.toNat = 0x80)
    (hhigh' : high.2.toNat ≤ 0xBF) :
    ∃ n rest, bs = UInt8.ofNat (n + 0x80) :: rest ∧ n < 0x40 ∧ Follow ranges rest ∧
      (k = first → low.1.toNat ≤ n + 0x80) ∧ (k = last → k ≠ first → n + 0x80 ≤ high.2.toNat) := by
  split at h
  · next hk =>
    obtain ⟨n, rest, rfl, hle, hge, hrest⟩ := h.exists_six hlow
    exact ⟨n, rest, rfl, by omega, hrest, fun _ => hle, fun _ hne => absurd hk hne⟩
  split at h
  · next hk hk' =>
    obtain ⟨n, rest, rfl, -, hge, hrest⟩ := h.exists_six (Nat.le_of_eq hhigh.symm)
    exact ⟨n, rest, rfl, by omega, hrest, fun hfirst => absurd hfirst hk, fun _ _ => hge⟩
  · next hk hk' =>
    obtain ⟨n, rest, rfl, -, hge, hrest⟩ := h.exists_six (by decide)
    have hge' : n + 0x80 ≤ 0xBF := hge
    exact ⟨n, rest, rfl, by omega, hrest, fun hfirst => absurd hfirst hk,
      fun hlast => absurd hlast hk'⟩

/-- **The bytes that are cut off as a character are those of the character.** -/
theorem encodeChar_combine (hfirst : followers first = some ranges) (h : Follow ranges bs) :
    String.utf8EncodeChar (combine first bs) = first :: bs := by
  have hany : ∀ {bs : Bytes} {ranges : List (UInt8 × UInt8)}, Follow ((0x80, 0xBF) :: ranges) bs →
      ∃ n rest, bs = UInt8.ofNat (n + 0x80) :: rest ∧ n < 0x40 ∧ Follow ranges rest := by
    intro bs ranges h
    obtain ⟨n, rest, rfl, -, hge, hrest⟩ := h.exists_six (by decide)
    have hge' : n + 0x80 ≤ 0xBF := hge
    exact ⟨n, rest, rfl, by omega, hrest⟩
  rcases followers_cases hfirst with ⟨n, hn, rfl, rfl⟩ | ⟨k, hk, hlow, rfl, rfl⟩ |
    ⟨k, hk, rfl, rfl⟩ |
    ⟨k, hk, rfl, rfl⟩
  · obtain rfl := h.eq_nil
    show String.utf8EncodeChar (Char.ofNat (UInt8.ofNat n).toNat) = _
    have hnat : (Char.ofNat n).toNat = n := toNat_char_of_lt (by omega)
    rw [toNat_ofNat_byte (by omega), encodeChar_of_lt (by omega), hnat]
  · obtain ⟨n, rest, rfl, hn, hrest⟩ := hany h
    obtain rfl := hrest.eq_nil
    refine Eq.trans ?_ (encodeChar_two hk hlow hn)
    show String.utf8EncodeChar (Char.ofNat ((UInt8.ofNat (k + 0xC0)).toNat % 0x20 * 0x40 +
      (UInt8.ofNat (n + 0x80)).toNat % 0x40)) = _
    rw [toNat_ofNat_byte (by omega), toNat_ofNat_byte (by omega),
      show (k + 0xC0) % 0x20 = k by omega, show (n + 0x80) % 0x40 = n by omega]
  · obtain ⟨m, rest, rfl, hm, hrest, hzero, hsurrogate⟩ :=
      h.exists_second (by decide) (by decide) (by decide) (by decide)
    obtain ⟨n, rest, rfl, hn, hrest⟩ := hany hrest
    obtain rfl := hrest.eq_nil
    have hzero' : k = 0 → 0xA0 ≤ m + 0x80 := hzero
    have hsurrogate' : k = 13 → k ≠ 0 → m + 0x80 ≤ 0x9F := hsurrogate
    refine Eq.trans ?_ (encodeChar_three hk hm hn (by omega) (by omega))
    show String.utf8EncodeChar (Char.ofNat (((UInt8.ofNat (k + 0xE0)).toNat % 0x10 * 0x40 +
      (UInt8.ofNat (m + 0x80)).toNat % 0x40) * 0x40 + (UInt8.ofNat (n + 0x80)).toNat % 0x40)) = _
    rw [toNat_ofNat_byte (by omega), toNat_ofNat_byte (by omega), toNat_ofNat_byte (by omega),
      show (k + 0xE0) % 0x10 = k by omega, show (m + 0x80) % 0x40 = m by omega,
      show (n + 0x80) % 0x40 = n by omega]
  · obtain ⟨l, rest, rfl, hl, hrest, hzero, hlast⟩ :=
      h.exists_second (by decide) (by decide) (by decide) (by decide)
    obtain ⟨m, rest, rfl, hm, hrest⟩ := hany hrest
    obtain ⟨n, rest, rfl, hn, hrest⟩ := hany hrest
    obtain rfl := hrest.eq_nil
    have hzero' : k = 0 → 0x90 ≤ l + 0x80 := hzero
    have hlast' : k = 4 → k ≠ 0 → l + 0x80 ≤ 0x8F := hlast
    refine Eq.trans ?_ (encodeChar_four hk hl hm hn (by omega) (by omega))
    show String.utf8EncodeChar (Char.ofNat ((((UInt8.ofNat (k + 0xF0)).toNat % 0x08 * 0x40 +
      (UInt8.ofNat (l + 0x80)).toNat % 0x40) * 0x40 +
        (UInt8.ofNat (m + 0x80)).toNat % 0x40) * 0x40 +
        (UInt8.ofNat (n + 0x80)).toNat % 0x40)) = _
    rw [toNat_ofNat_byte (by omega), toNat_ofNat_byte (by omega), toNat_ofNat_byte (by omega),
      toNat_ofNat_byte (by omega), show (k + 0xF0) % 0x08 = k by omega,
      show (l + 0x80) % 0x40 = l by omega, show (m + 0x80) % 0x40 = m by omega,
      show (n + 0x80) % 0x40 = n by omega]

end Character

/-! ## Texts -/

section Texts

variable {bytes : Bytes} {c : Char} {cs : List Char} {ps : List (Option Char)} {s t : String}

/-- A character is cut off with all of its bytes. -/
theorem exists_of_pieces_cons (h : pieces bytes = some c :: ps) :
    ∃ rest, bytes = String.utf8EncodeChar c ++ rest ∧ pieces rest = ps := by
  cases bytes with
  | nil => simp [pieces] at h
  | cons first more =>
    rw [pieces] at h
    split at h
    · simp at h
    · next ranges hfirst =>
      obtain ⟨hchar, hrest⟩ := List.cons.inj h
      split at hchar
      · next hlength =>
        obtain rfl := Option.some.inj hchar
        refine ⟨_, ?_, hrest⟩
        rw [encodeChar_combine hfirst (follow_of_length hlength), List.cons_append,
          takeFollowers_append]
      · cases hchar

/-- Bytes that are cut into characters first start with the bytes of these. -/
theorem exists_of_pieces_append (h : pieces bytes = cs.map some ++ ps) :
    ∃ rest, bytes = encodeChars cs ++ rest ∧ pieces rest = ps := by
  induction cs generalizing bytes with
  | nil => exact ⟨bytes, rfl, h⟩
  | cons c cs ih =>
    obtain ⟨more, rfl, hmore⟩ := exists_of_pieces_cons h
    obtain ⟨rest, rfl, hrest⟩ := ih hmore
    exact ⟨rest, by rw [encodeChars_cons, List.append_assoc], hrest⟩

theorem eq_nil_of_pieces (h : pieces bytes = []) : bytes = [] := by
  cases bytes with
  | nil => rfl
  | cons first more =>
    rw [pieces] at h
    split at h <;> simp at h

/-- Bytes that are cut into characters only are the bytes of these. -/
theorem encodeChars_of_pieces (h : pieces bytes = cs.map some) : encodeChars cs = bytes := by
  obtain ⟨rest, rfl, hrest⟩ := exists_of_pieces_append (h.trans (List.append_nil _).symm)
  rw [eq_nil_of_pieces hrest, List.append_nil]

/-- **Bytes that are read as a text are the bytes of it.** -/
theorem encode_of_decode? {s : String} (h : decode? bytes = some s) : encode s = bytes := by
  have hall : ∀ (ps : List (Option Char)) (cs : List Char), ps.mapM id = some cs →
      ps = cs.map some := by
    intro ps
    induction ps with
    | nil =>
      intro cs hcs
      cases hcs
      rfl
    | cons p ps ih =>
      intro cs hcs
      rw [List.mapM_cons] at hcs
      cases p with
      | none => cases hcs
      | some c =>
        cases hps : ps.mapM id with
        | none =>
          rw [hps] at hcs
          cases hcs
        | some ds =>
          rw [hps] at hcs
          cases hcs
          rw [ih ds hps]
          rfl
  obtain ⟨cs, hcs, rfl⟩ := Option.map_eq_some_iff.1 h
  rw [encode, String.toList_ofList]
  exact encodeChars_of_pieces (hall _ _ hcs)

/-! ### What bytes are shown as

A character that stands for bytes that are no text may have been one of the text.  Any other one
that is shown was. -/

theorem eq_map_some_of_shown (hcs : replacement ∉ cs) (h : ps.map (·.getD replacement) = cs) :
    ps = cs.map some := by
  subst h
  rw [List.map_map]
  refine (List.map_id ps).symm.trans (List.map_congr_left fun p hp => ?_)
  cases p with
  | none => exact absurd (List.mem_map.2 ⟨none, hp, rfl⟩) hcs
  | some c => rfl

/-- **Bytes that are shown with a text at the front start with the bytes of it.** -/
theorem exists_of_decodeLossy_append (hs : replacement ∉ s.toList)
    (h : decodeLossy bytes = s ++ t) : ∃ rest, bytes = encode s ++ rest ∧ decodeLossy rest = t := by
  have hpieces : (pieces bytes).map (·.getD replacement) = s.toList ++ t.toList := by
    rw [← String.toList_append, ← h, decodeLossy, String.toList_ofList]
  obtain ⟨front, rest, hsplit, hfront, hrest⟩ := List.map_eq_append_iff.1 hpieces
  rw [eq_map_some_of_shown hs hfront] at hsplit
  obtain ⟨more, hbytes, hmore⟩ := exists_of_pieces_append hsplit
  refine ⟨more, hbytes, ?_⟩
  rw [decodeLossy, hmore, hrest, String.ofList_toList]

theorem decodeLossy_eq_iff (hs : replacement ∉ s.toList) :
    decodeLossy bytes = s ↔ bytes = encode s := by
  constructor
  · intro h
    obtain ⟨rest, rfl, hrest⟩ :=
      exists_of_decodeLossy_append hs (h.trans String.append_empty.symm)
    have hnil : pieces rest = [] := by simpa [decodeLossy] using hrest
    rw [eq_nil_of_pieces hnil, List.append_nil]
  · rintro rfl
    exact decodeLossy_encode s

end Texts

end Text
end KernelRegistry
