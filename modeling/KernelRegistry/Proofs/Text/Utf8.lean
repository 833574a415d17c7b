import KernelRegistry.Text.Utf8

/-!
# Text and its bytes

Paths, arguments and the contents of files are bytes, while documents and messages are texts.  These
lemmas say that nothing is lost on the way from a text to its bytes and back.

* `pieces_encodeChar` — the bytes of a character are cut off as that character.
* `decode?_encode`, `decodeLossy_encode` — **the bytes of a text are read as that text**.
* `mem_encodeChar_iff` — a byte that is a character on its own is part of no other character.
* `encodeChars_eq_append_cons` — where bytes are parted at such a byte, the text is parted at its
  character.
* `encode_lt` — the bytes are in the order of the code points.
-/

set_option autoImplicit false
namespace KernelRegistry
namespace Text

/-! ## One character -/

/-- The bytes follow as the ranges ask, one for each range. -/
inductive Follow : List (UInt8 × UInt8) → Bytes → Prop
  | nil : Follow [] []
  | cons {range : UInt8 × UInt8} {ranges : List (UInt8 × UInt8)} {b : UInt8} {bs : Bytes}
      (hlow : range.1 ≤ b) (hhigh : b ≤ range.2) (h : Follow ranges bs) :
      Follow (range :: ranges) (b :: bs)

section Character

variable {first : UInt8} {ranges : List (UInt8 × UInt8)} {bs rest : Bytes} {k l m n : Nat}

theorem Follow.length_eq (h : Follow ranges bs) : bs.length = ranges.length := by
  induction h with
  | nil => rfl
  | cons _ _ _ ih => rw [List.length_cons, List.length_cons, ih]

theorem Follow.cut (h : Follow ranges bs) (rest : Bytes) :
    takeFollowers ranges (bs ++ rest) = (bs, rest) := by
  induction h with
  | nil => cases rest <;> rfl
  | cons hlow hhigh _ ih => rw [List.cons_append, takeFollowers, if_pos ⟨hlow, hhigh⟩, ih]

theorem pieces_of_follow (hfirst : followers first = some ranges) (h : Follow ranges bs)
    (rest : Bytes) : pieces (first :: (bs ++ rest)) = some (combine first bs) :: pieces rest := by
  rw [pieces, hfirst]
  simp only [h.cut, h.length_eq, if_true]

theorem toNat_ofNat_byte (h : n < 0x100) : (UInt8.ofNat n).toNat = n := by
  rw [UInt8.toNat_ofNat', Nat.mod_eq_of_lt h]

theorem byte_le (h : m ≤ n) (hn : n < 0x100) : UInt8.ofNat m ≤ UInt8.ofNat n := by
  rw [UInt8.le_iff_toNat_le, toNat_ofNat_byte hn, toNat_ofNat_byte (Nat.lt_of_le_of_lt h hn)]
  exact h

/-- A byte with the lowest six bits of a number follows between these bounds. -/
theorem Follow.six (low high : Nat) (h : Follow ranges bs) (hlow : low ≤ n + 0x80)
    (hhigh : n + 0x80 ≤ high) (hbound : high < 0x100) :
    Follow ((UInt8.ofNat low, UInt8.ofNat high) :: ranges) (UInt8.ofNat (n + 0x80) :: bs) :=
  .cons (byte_le hlow (Nat.lt_of_le_of_lt hhigh hbound)) (byte_le hhigh hbound) h

theorem Follow.any (h : Follow ranges bs) (hn : n < 0x40) :
    Follow ((0x80, 0xBF) :: ranges) (UInt8.ofNat (n + 0x80) :: bs) :=
  h.six 0x80 0xBF (by omega) (by omega) (by decide)

/-! ### By the number of bytes -/

theorem pieces_one (hn : n < 0x80) (rest : Bytes) :
    pieces (UInt8.ofNat n :: rest) = some (Char.ofNat n) :: pieces rest := by
  have hall : ∀ n : Fin 0x80, followers (UInt8.ofNat n) = some [] := by decide
  rw [← List.nil_append rest, pieces_of_follow (hall ⟨n, hn⟩) .nil]
  show some (Char.ofNat (UInt8.ofNat n).toNat) :: _ = _
  rw [toNat_ofNat_byte (by omega), List.nil_append]

theorem pieces_two (hk : k < 0x20) (hlow : 2 ≤ k) (hn : n < 0x40) (rest : Bytes) :
    pieces (UInt8.ofNat (k + 0xC0) :: UInt8.ofNat (n + 0x80) :: rest) =
      some (Char.ofNat (k * 0x40 + n)) :: pieces rest := by
  have hall : ∀ k : Fin 0x20, 2 ≤ k.1 →
      followers (UInt8.ofNat (k + 0xC0)) = some [(0x80, 0xBF)] := by decide
  refine (pieces_of_follow (hall ⟨k, hk⟩ hlow) (.any .nil hn) rest).trans ?_
  show some (Char.ofNat ((UInt8.ofNat (k + 0xC0)).toNat % 0x20 * 0x40 +
    (UInt8.ofNat (n + 0x80)).toNat % 0x40)) :: _ = _
  rw [toNat_ofNat_byte (by omega), toNat_ofNat_byte (by omega), show (k + 0xC0) % 0x20 = k by omega,
    show (n + 0x80) % 0x40 = n by omega]

/-- The second byte of three is bounded after the first and after the one of the surrogates. -/
theorem pieces_three (hk : k < 0x10) (hm : m < 0x40) (hn : n < 0x40) (hlow : k = 0 → 0x20 ≤ m)
    (hsurrogate : k = 13 → m < 0x20) (rest : Bytes) :
    pieces (UInt8.ofNat (k + 0xE0) :: UInt8.ofNat (m + 0x80) :: UInt8.ofNat (n + 0x80) :: rest) =
      some (Char.ofNat ((k * 0x40 + m) * 0x40 + n)) :: pieces rest := by
  have hall : ∀ k : Fin 0x10, followers (UInt8.ofNat (k + 0xE0)) =
      some [if k.1 = 0 then (0xA0, 0xBF) else if k.1 = 13 then (0x80, 0x9F) else (0x80, 0xBF),
        (0x80, 0xBF)] := by decide
  have hfollow : Follow
      [if k = 0 then (0xA0, 0xBF) else if k = 13 then (0x80, 0x9F) else (0x80, 0xBF), (0x80, 0xBF)]
      [UInt8.ofNat (m + 0x80), UInt8.ofNat (n + 0x80)] := by
    have hlast : Follow [(0x80, 0xBF)] [UInt8.ofNat (n + 0x80)] := .any .nil hn
    split
    · next h => exact hlast.six 0xA0 0xBF (by have := hlow h; omega) (by omega) (by decide)
    split
    · next h => exact hlast.six 0x80 0x9F (by omega) (by have := hsurrogate h; omega) (by decide)
    · exact hlast.any hm
  refine (pieces_of_follow (hall ⟨k, hk⟩) hfollow rest).trans ?_
  show some (Char.ofNat (((UInt8.ofNat (k + 0xE0)).toNat % 0x10 * 0x40 +
    (UInt8.ofNat (m + 0x80)).toNat % 0x40) * 0x40 + (UInt8.ofNat (n + 0x80)).toNat % 0x40)) :: _ = _
  rw [toNat_ofNat_byte (by omega), toNat_ofNat_byte (by omega), toNat_ofNat_byte (by omega),
    show (k + 0xE0) % 0x10 = k by omega, show (m + 0x80) % 0x40 = m by omega,
    show (n + 0x80) % 0x40 = n by omega]

/-- The second byte of four is bounded after the first and after the last. -/
theorem pieces_four (hk : k < 5) (hl : l < 0x40) (hm : m < 0x40) (hn : n < 0x40)
    (hlow : k = 0 → 0x10 ≤ l) (hhigh : k = 4 → l < 0x10) (rest : Bytes) :
    pieces (UInt8.ofNat (k + 0xF0) :: UInt8.ofNat (l + 0x80) :: UInt8.ofNat (m + 0x80) ::
      UInt8.ofNat (n + 0x80) :: rest) =
      some (Char.ofNat (((k * 0x40 + l) * 0x40 + m) * 0x40 + n)) :: pieces rest := by
  have hall : ∀ k : Fin 5, followers (UInt8.ofNat (k + 0xF0)) =
      some [if k.1 = 0 then (0x90, 0xBF) else if k.1 = 4 then (0x80, 0x8F) else (0x80, 0xBF),
        (0x80, 0xBF), (0x80, 0xBF)] := by decide
  have hfollow : Follow
      [if k = 0 then (0x90, 0xBF) else if k = 4 then (0x80, 0x8F) else (0x80, 0xBF), (0x80, 0xBF),
        (0x80, 0xBF)]
      [UInt8.ofNat (l + 0x80), UInt8.ofNat (m + 0x80), UInt8.ofNat (n + 0x80)] := by
    have hlast : Follow [(0x80, 0xBF), (0x80, 0xBF)]
        [UInt8.ofNat (m + 0x80), UInt8.ofNat (n + 0x80)] :=
      .any (.any .nil hn) hm
    split
    · next h => exact hlast.six 0x90 0xBF (by have := hlow h; omega) (by omega) (by decide)
    split
    · next h => exact hlast.six 0x80 0x8F (by omega) (by have := hhigh h; omega) (by decide)
    · exact hlast.any hl
  refine (pieces_of_follow (hall ⟨k, hk⟩) hfollow rest).trans ?_
  show some (Char.ofNat ((((UInt8.ofNat (k + 0xF0)).toNat % 0x08 * 0x40 +
    (UInt8.ofNat (l + 0x80)).toNat % 0x40) * 0x40 + (UInt8.ofNat (m + 0x80)).toNat % 0x40) * 0x40 +
      (UInt8.ofNat (n + 0x80)).toNat % 0x40)) :: _ = _
  rw [toNat_ofNat_byte (by omega), toNat_ofNat_byte (by omega), toNat_ofNat_byte (by omega),
    toNat_ofNat_byte (by omega), show (k + 0xF0) % 0x08 = k by omega,
    show (l + 0x80) % 0x40 = l by omega, show (m + 0x80) % 0x40 = m by omega,
    show (n + 0x80) % 0x40 = n by omega]

/-- **The bytes of a character are cut off as that character.** -/
theorem pieces_encodeChar (c : Char) (rest : Bytes) :
    pieces (String.utf8EncodeChar c ++ rest) = some c :: pieces rest := by
  have hvalid : c.toNat < 0xD800 ∨ 0xDFFF < c.toNat ∧ c.toNat < 0x110000 := c.valid
  have hchar : ∀ {n : Nat}, n = c.toNat →
      some (Char.ofNat n) :: pieces rest = some c :: pieces rest :=
    fun h => by rw [h, Char.ofNat_toNat]
  rw [String.utf8EncodeChar]
  generalize hv : c.val.toNat = v
  replace hv : v = c.toNat := hv.symm
  split
  · exact (pieces_one (by omega) rest).trans (hchar hv)
  split
  · exact (pieces_two (by omega) (by omega) (by omega) rest).trans (hchar (by omega))
  split
  · exact (pieces_three (by omega) (by omega) (by omega) (by omega) (by omega) rest).trans
      (hchar (by omega))
  · exact (pieces_four (by omega) (by omega) (by omega) (by omega) (by omega) (by omega) rest).trans
      (hchar (by omega))

/-- A character below the 128th is a byte of its own. -/
theorem encodeChar_of_lt {c : Char} (h : c.toNat < 0x80) :
    String.utf8EncodeChar c = [UInt8.ofNat c.toNat] := by
  have hv : c.val.toNat ≤ 0x7F := Nat.le_of_lt_succ h
  rw [String.utf8EncodeChar]
  exact if_pos hv

/-- The bytes of any other character are not below the 128th. -/
theorem high_of_mem_encodeChar {c : Char} {b : UInt8} (hc : 0x80 ≤ c.toNat)
    (hb : b ∈ String.utf8EncodeChar c) : ∃ n < 0x80, b = UInt8.ofNat (n + 0x80) := by
  rw [String.utf8EncodeChar] at hb
  generalize hv : c.val.toNat = v at hb
  replace hv : v = c.toNat := hv.symm
  split at hb
  · omega
  split at hb
  · simp only [List.mem_cons, List.not_mem_nil, or_false] at hb
    rcases hb with rfl | rfl
    · exact ⟨v / 64 % 0x20 + 0x40, by omega, rfl⟩
    · exact ⟨v % 0x40, by omega, rfl⟩
  split at hb
  · simp only [List.mem_cons, List.not_mem_nil, or_false] at hb
    rcases hb with rfl | rfl | rfl
    · exact ⟨v / 4096 % 0x10 + 0x60, by omega, rfl⟩
    · exact ⟨v / 64 % 0x40, by omega, rfl⟩
    · exact ⟨v % 0x40, by omega, rfl⟩
  · simp only [List.mem_cons, List.not_mem_nil, or_false] at hb
    rcases hb with rfl | rfl | rfl | rfl
    · exact ⟨v / 262144 % 0x08 + 0x70, by omega, rfl⟩
    · exact ⟨v / 4096 % 0x40, by omega, rfl⟩
    · exact ⟨v / 64 % 0x40, by omega, rfl⟩
    · exact ⟨v % 0x40, by omega, rfl⟩

theorem ofNat_byte_inj (hm : m < 0x100) (hn : n < 0x100) (h : UInt8.ofNat m = UInt8.ofNat n) :
    m = n := by
  rw [← toNat_ofNat_byte hm, ← toNat_ofNat_byte hn, h]

/-- **A byte that is a character on its own is part of no other character.** -/
theorem mem_encodeChar_iff {a c : Char} (ha : a.toNat < 0x80) :
    UInt8.ofNat a.toNat ∈ String.utf8EncodeChar c ↔ c = a := by
  constructor
  · intro hmem
    by_cases hc : c.toNat < 0x80
    · rw [encodeChar_of_lt hc, List.mem_singleton] at hmem
      have hnat := ofNat_byte_inj (by omega) (by omega) hmem
      rw [← Char.ofNat_toNat c, ← hnat, Char.ofNat_toNat]
    · obtain ⟨n, hn, hb⟩ := high_of_mem_encodeChar (by omega) hmem
      have hnat := ofNat_byte_inj (by omega) (by omega) hb
      omega
  · rintro rfl
    rw [encodeChar_of_lt ha]
    exact List.mem_singleton_self _

end Character

/-! ## Texts -/

section Texts

variable {cs ds : List Char} {xs ys : Bytes} {a : Char} {s t : String}

theorem encodeChars_cons (c : Char) (cs : List Char) :
    encodeChars (c :: cs) = String.utf8EncodeChar c ++ encodeChars cs :=
  List.flatMap_cons

theorem encodeChars_append (cs ds : List Char) :
    encodeChars (cs ++ ds) = encodeChars cs ++ encodeChars ds :=
  List.flatMap_append

theorem encode_append (s t : String) : encode (s ++ t) = encode s ++ encode t := by
  rw [encode, String.toList_append, encodeChars_append]
  rfl

theorem pieces_encodeChars_append (cs : List Char) (rest : Bytes) :
    pieces (encodeChars cs ++ rest) = cs.map some ++ pieces rest := by
  induction cs with
  | nil => rfl
  | cons c cs ih =>
    rw [encodeChars_cons, List.append_assoc, pieces_encodeChar, ih, List.map_cons, List.cons_append]

theorem pieces_encodeChars (cs : List Char) : pieces (encodeChars cs) = cs.map some := by
  have h := pieces_encodeChars_append cs []
  rwa [pieces, List.append_nil, List.append_nil] at h

/-- **The bytes of a text are read as that text.** -/
theorem decode?_encode (s : String) : decode? (encode s) = some s := by
  have hall : ∀ cs : List Char, (cs.map some).mapM id = some cs := by
    intro cs
    induction cs with
    | nil => rfl
    | cons c cs ih => rw [List.map_cons, List.mapM_cons, ih]; rfl
  rw [decode?, encode, pieces_encodeChars, hall, Option.map_some, String.ofList_toList]

/-- The bytes of a text are shown as it, whatever comes after them. -/
theorem decodeLossy_encode_append (s : String) (rest : Bytes) :
    decodeLossy (encode s ++ rest) = s ++ decodeLossy rest := by
  have hkept : (fun c : Option Char => c.getD replacement) ∘ some = id := rfl
  rw [← String.toList_inj, decodeLossy, encode, pieces_encodeChars_append, List.map_append,
    List.map_map, hkept, List.map_id]
  simp [decodeLossy]

theorem decodeLossy_encode (s : String) : decodeLossy (encode s) = s := by
  have h := decodeLossy_encode_append s []
  have hnil : decodeLossy [] = "" := by rw [decodeLossy, pieces]; rfl
  rwa [hnil, List.append_nil, String.append_empty] at h

theorem encode_injective (h : encode s = encode t) : s = t := by
  have hs := decode?_encode s
  rw [h, decode?_encode] at hs
  exact (Option.some.inj hs).symm

theorem mem_encodeChars_iff (ha : a.toNat < 0x80) :
    UInt8.ofNat a.toNat ∈ encodeChars cs ↔ a ∈ cs := by
  rw [encodeChars, List.mem_flatMap]
  constructor
  · rintro ⟨c, hc, hmem⟩
    exact (mem_encodeChar_iff ha).1 hmem ▸ hc
  · intro hmem
    exact ⟨a, hmem, (mem_encodeChar_iff ha).2 rfl⟩

/-- **Where bytes are parted at a character of one byte, the text is parted there.** -/
theorem encodeChars_eq_append_cons (ha : a.toNat < 0x80)
    (h : encodeChars cs = xs ++ UInt8.ofNat a.toNat :: ys) :
    ∃ us vs, cs = us ++ a :: vs ∧ xs = encodeChars us ∧ ys = encodeChars vs := by
  induction cs generalizing xs with
  | nil => simp [encodeChars] at h
  | cons c cs ih =>
    rw [encodeChars_cons] at h
    rcases List.append_eq_append_iff.1 h with ⟨rest, hxs, hrest⟩ | ⟨rest, hc, hrest⟩
    · obtain ⟨us, vs, rfl, rfl, rfl⟩ := ih hrest
      exact ⟨c :: us, vs, rfl, by rw [hxs, encodeChars_cons], rfl⟩
    · cases rest with
      | nil =>
        rw [List.append_nil] at hc
        obtain ⟨us, vs, rfl, hus, rfl⟩ := @ih [] hrest.symm
        exact ⟨c :: us, vs, rfl, by rw [encodeChars_cons, ← hus, List.append_nil, hc], rfl⟩
      | cons b rest =>
        obtain ⟨rfl, rfl⟩ := List.cons.inj hrest
        obtain rfl := (mem_encodeChar_iff ha).1 (hc ▸ List.mem_append_right _ List.mem_cons_self)
        rw [encodeChar_of_lt ha] at hc
        obtain ⟨rfl, hnil⟩ | ⟨hnil, hsingle⟩ := List.append_eq_singleton_iff.1 hc.symm
        · obtain rfl := (List.cons.inj hnil).2
          exact ⟨[], cs, rfl, rfl, rfl⟩
        · cases hsingle

end Texts

/-! ## The order of the bytes -/

section Order

variable {m n : Nat} {c d : Char} {xs ys : Bytes} {cs ds : List Char} {s t : String}

/-- Bytes are compared one after the other. -/
theorem byte_cons_lt (hle : m ≤ n) (hn : n < 0x100) (h : m = n → xs < ys) :
    UInt8.ofNat m :: xs < UInt8.ofNat n :: ys := by
  rw [List.cons_lt_cons_iff, UInt8.lt_iff_toNat_lt, toNat_ofNat_byte (Nat.lt_of_le_of_lt hle hn),
    toNat_ofNat_byte hn]
  rcases Nat.lt_or_eq_of_le hle with hlt | rfl
  · exact .inl hlt
  · exact .inr ⟨rfl, h rfl⟩

theorem byte_cons_lt_of_lt (hlt : m < n) (hn : n < 0x100) :
    UInt8.ofNat m :: xs < UInt8.ofNat n :: ys :=
  byte_cons_lt (Nat.le_of_lt hlt) hn fun heq => absurd heq (Nat.ne_of_lt hlt)

/-- More bytes start with a greater one, and of as many bytes the first that differ decide. -/
theorem encodeChar_append_lt (h : c < d) (xs ys : Bytes) :
    String.utf8EncodeChar c ++ xs < String.utf8EncodeChar d ++ ys := by
  have hlt : c.val.toNat < d.val.toNat := h
  have hd : d.val.toNat < 0x110000 := by
    rcases d.valid with hvalid | hvalid <;> omega
  rw [String.utf8EncodeChar, String.utf8EncodeChar]
  generalize c.val.toNat = v at hlt ⊢
  generalize d.val.toNat = w at hlt hd ⊢
  by_cases hw : w ≤ 0x7F
  · rw [if_pos (by omega), if_pos hw]
    exact byte_cons_lt_of_lt hlt (by omega)
  rw [if_neg hw]
  by_cases hw' : w ≤ 0x7FF
  · rw [if_pos hw']
    split
    · exact byte_cons_lt_of_lt (by omega) (by omega)
    · rw [if_pos (by omega)]
      exact byte_cons_lt (by omega) (by omega) fun _ => byte_cons_lt_of_lt (by omega) (by omega)
  rw [if_neg hw']
  by_cases hw'' : w ≤ 0xFFFF
  · rw [if_pos hw'']
    split
    · exact byte_cons_lt_of_lt (by omega) (by omega)
    split
    · exact byte_cons_lt_of_lt (by omega) (by omega)
    · rw [if_pos (by omega)]
      exact byte_cons_lt (by omega) (by omega) fun _ => byte_cons_lt (by omega) (by omega) fun _ =>
        byte_cons_lt_of_lt (by omega) (by omega)
  rw [if_neg hw'']
  split
  · exact byte_cons_lt_of_lt (by omega) (by omega)
  split
  · exact byte_cons_lt_of_lt (by omega) (by omega)
  split
  · exact byte_cons_lt_of_lt (by omega) (by omega)
  · exact byte_cons_lt (by omega) (by omega) fun _ => byte_cons_lt (by omega) (by omega) fun _ =>
      byte_cons_lt (by omega) (by omega) fun _ => byte_cons_lt_of_lt (by omega) (by omega)

theorem encodeChars_lt (h : cs < ds) : encodeChars cs < encodeChars ds := by
  induction h with
  | nil =>
    obtain ⟨b, bs, hbytes⟩ := List.exists_cons_of_ne_nil String.utf8EncodeChar_ne_nil
    rw [encodeChars_cons, hbytes]
    exact List.nil_lt_cons b _
  | rel h =>
    rw [encodeChars_cons, encodeChars_cons]
    exact encodeChar_append_lt h _ _
  | cons h ih =>
    rw [encodeChars_cons, encodeChars_cons]
    exact List.append_left_lt ih

/-- **Bytes are in the order of the code points.** -/
theorem encode_lt (h : s < t) : encode s < encode t :=
  encodeChars_lt (String.lt_iff.1 h)

end Order

end Text
end KernelRegistry
