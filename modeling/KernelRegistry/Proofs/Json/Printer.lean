import KernelRegistry.Json.Printer
import KernelRegistry.Proofs.Json.Document

/-!
# Printed documents

What the printer writes is a text of a spelled document: its strings are spelled with the escapes of
the printer, its numbers with their digits.  So it is read back.

* `Json.Fits` — fewer than so many brackets are open at a time, and all numbers are of a kind.
* `Written.fits`, `parse_fits` — what is read fits, with numbers that can be written.
* `Number.Printed` — the number is what its printed text is read as; integers that were read are.
* `Json.spelled` — a document with the spellings of the printer.
* `Json.mapNumbers` — a document with other numbers.
* `writePretty_written`, `writeCompact_written` — **what is printed is a text of it**.
* `parse_pretty_mapNumbers`, `parse_pretty` — **a printed document is read back**, apart from
  numbers that are printed as others.
-/

set_option autoImplicit false
namespace KernelRegistry
namespace Json

/-! ## Documents that fit -/

/-- Fewer than `depth` brackets are open at a time, and all numbers are of a kind. -/
inductive Fits (P : Number → Prop) : Nat → Json → Prop
  | null {depth : Nat} : Fits P depth .null
  | bool {depth : Nat} {b : Bool} : Fits P depth (.bool b)
  | number {depth : Nat} {n : Number} (h : P n) : Fits P depth (.number n)
  | string {depth : Nat} {s : String} : Fits P depth (.string s)
  | array {depth : Nat} {items : List Json} (h : ∀ item ∈ items, Fits P (depth + 1) item) :
      Fits P (depth + 2) (.array items)
  | object {depth : Nat} {members : List (String × Json)}
      (h : ∀ m ∈ members, Fits P (depth + 1) m.2) : Fits P (depth + 2) (.object members)

section Fits

variable {P Q : Number → Prop} {depth depth' : Nat} {v : Json}

theorem Fits.imp (hPQ : ∀ n, P n → Q n) (h : Fits P depth v) : Fits Q depth v := by
  induction h with
  | null => exact .null
  | bool => exact .bool
  | number h => exact .number (hPQ _ h)
  | string => exact .string
  | array _ ih => exact .array ih
  | object _ ih => exact .object ih

theorem Fits.and (h : Fits P depth v) (h' : Fits Q depth' v) :
    Fits (fun n => P n ∧ Q n) depth v := by
  induction h generalizing depth' with
  | null => exact .null
  | bool => exact .bool
  | number h =>
    cases h' with
    | number h' => exact .number ⟨h, h'⟩
  | string => exact .string
  | array _ ih =>
    cases h' with
    | array h' => exact .array fun x hx => ih x hx (h' x hx)
  | object _ ih =>
    cases h' with
    | object h' => exact .object fun m hm => ih m hm (h' m hm)

end Fits

/-- All numbers, at any depth, are of a kind. -/
def EveryNumber (P : Number → Prop) (v : Json) : Prop := ∃ depth, Fits P depth v

/-! ### What is read -/

section Read

variable {P : Number → Prop} {W : Spelled → List Char → Prop} {spell value : Literal → List Char}
  {first : Bool} {depth : Nat} {text : List Char} {d : Spelled}

theorem Items.fits {items : List Spelled}
    (hW : ∀ d t, W d t → Fits P depth (d.document value)) (h : Items W first items text) :
    ∀ x ∈ Spelled.itemDocuments value items, Fits P depth x := by
  induction h with
  | close =>
    intro x hx
    cases hx
  | more _ hd _ ih =>
    intro x hx
    rcases List.mem_cons.1 hx with rfl | hx
    · exact hW _ _ hd
    · exact ih x hx

theorem Members.fits {members : List (Literal × Spelled)}
    (hW : ∀ d t, W d t → Fits P depth (d.document value)) (h : Members spell W first members text) :
    ∀ m ∈ Spelled.memberDocuments value members, Fits P depth m.2 := by
  induction h with
  | close =>
    intro m hm
    cases hm
  | more _ _ _ hd _ ih =>
    intro m hm
    rcases List.mem_cons.1 hm with rfl | hm
    · exact hW _ _ hd
    · exact ih m hm

/-- The number is the value of some text. -/
def Number.Readable (n : Number) : Prop := ∃ text, WrittenNumber n text

theorem Written.fits (value : Literal → List Char) (h : Written spell depth d text) :
    Fits Number.Readable depth (d.document value) := by
  induction depth using Nat.strongRecOn generalizing d text with
  | ind depth ih =>
    cases d with
    | null => exact .null
    | bool b => exact .bool
    | number n => exact .number ⟨text, written_number.1 h⟩
    | string l => exact .string
    | array items =>
      obtain ⟨k, inner, rfl, -, hitems⟩ := written_array.1 h
      exact .array (hitems.fits fun _ _ h => ih (k + 1) (Nat.lt_succ_self _) h)
    | object members =>
      obtain ⟨k, inner, rfl, -, hmembers⟩ := written_object.1 h
      exact .object (hmembers.fits fun _ _ h => ih (k + 1) (Nat.lt_succ_self _) h)

/-- **What is read fits** into the depth that the reader allows. -/
theorem parse_fits {text : String} {v : Json} (h : parse text = .ok v) :
    Fits Number.Readable depthLimit v := by
  obtain ⟨d, ⟨b, text', b', -, -, hd, -⟩, rfl⟩ := parse_sound h
  exact hd.fits _

end Read

/-! ## Numbers -/

section Numbers

variable {bound m n : Nat} {ds : List Char}

theorem absorb_le (h : n ≤ bound) (ds : List Char) : (absorb bound n ds).1 ≤ bound := by
  fun_induction absorb bound n ds with
  | case1 => exact h
  | case2 n c cs hle ih => exact ih hle
  | case3 => exact h

theorem absorb_append (h : absorb bound n ds = (m, [])) (more : List Char) :
    absorb bound n (ds ++ more) = absorb bound m more := by
  fun_induction absorb bound n ds with
  | case1 =>
    cases h
    rfl
  | case2 n c cs hle ih =>
    rw [List.cons_append, absorb, if_pos hle, ih h]
  | case3 => cases h

theorem digitValue_digitChar (h : n < 10) : digitValue n.digitChar = n :=
  Nat.toNat_digitChar_sub_48_of_lt_ten h

/-- The digits of a number that stays within the bound are gathered into it. -/
theorem absorb_toDigits (h : n ≤ bound) : absorb bound 0 (Nat.toDigits 10 n) = (n, []) := by
  have hlast : ∀ k d, d < 10 → k * 10 + d ≤ bound →
      absorb bound k [d.digitChar] = (k * 10 + d, []) := by
    intro k d hd hle
    rw [absorb, digitValue_digitChar hd, if_pos hle, absorb]
  induction n using Nat.strongRecOn with
  | ind n ih =>
    by_cases hn : n < 10
    · rw [Nat.toDigits_of_lt_base hn, hlast 0 n hn (by omega), Nat.zero_mul, Nat.zero_add]
    · have hdiv := Nat.div_add_mod n 10
      rw [Nat.toDigits_of_base_le (by decide) (by omega),
        absorb_append (ih (n / 10) (by omega) (by omega)),
        hlast _ _ (Nat.mod_lt n (by decide)) (by omega), Nat.mul_comm, hdiv]

theorem isDigits_toDigits (n : Nat) : IsDigits (Nat.toDigits 10 n) :=
  ⟨Nat.toDigits_ne_nil, fun _ hc => Nat.isDigit_of_mem_toDigits (by decide) (by decide) hc⟩

/-- The digits of a number start with a zero only if it is zero. -/
theorem toDigits_ne_zero_cons (hn : 0 < n) (ds : List Char) : Nat.toDigits 10 n ≠ '0' :: ds := by
  induction n using Nat.strongRecOn generalizing ds with
  | ind n ih =>
    by_cases hlt : n < 10
    · rw [Nat.toDigits_of_lt_base hlt]
      intro h
      have := Nat.digitChar_eq_zero.1 (List.cons.inj h).1
      omega
    · rw [Nat.toDigits_of_base_le (by decide) (by omega)]
      intro h
      obtain ⟨c, cs, hcs⟩ :=
        List.exists_cons_of_ne_nil (Nat.toDigits_ne_nil (n := n / 10) (b := 10))
      rw [hcs, List.cons_append] at h
      obtain ⟨rfl, -⟩ := List.cons.inj h
      exact ih (n / 10) (by omega) (by omega) cs hcs

theorem toDigits_ne_zero_digit (n : Nat) (d : Char) (ds : List Char) :
    Nat.toDigits 10 n ≠ '0' :: d :: ds := by
  rcases Nat.eq_zero_or_pos n with rfl | hn
  · rw [Nat.toDigits_zero]
    simp
  · exact toDigits_ne_zero_cons hn _

/-- The digits of a number with a sign in front, which are a number of a text. -/
theorem Numeral.written_toDigits (negative : Bool) (n : Nat) :
    Numeral.Written ⟨negative, Nat.toDigits 10 n, [], none⟩
      ((if negative then ['-'] else []) ++ Nat.toDigits 10 n) := by
  have h : Numeral.Written ⟨negative, Nat.toDigits 10 n, [], none⟩ _ :=
    .mk (isDigits_toDigits n) (toDigits_ne_zero_digit n) .none .none
  rwa [List.append_nil, List.append_nil] at h

/-- The number is what its printed text is read as. -/
def Number.Printed (n : Number) : Prop := WrittenNumber n (writeNumber n)

/-- The number is an integer. -/
def Number.IsInteger (n : Number) : Prop := ∃ i, n = .int i

/-- The largest magnitude of a negative integer. -/
def maxNegative : Nat := 0x8000000000000000

/-- An integer of 64 bits, with or without a sign, is printed as it is read. -/
theorem printed_int {i : Int} (hlow : -(maxNegative : Int) ≤ i)
    (hhigh : i ≤ (maxSignificand : Int)) : Number.Printed (.int i) := by
  cases i with
  | ofNat n =>
    have hn : n ≤ maxSignificand := Int.ofNat_le.1 hhigh
    refine ⟨⟨false, Nat.toDigits 10 n, [], none⟩, ?_, ?_⟩
    · have hwritten := Numeral.written_toDigits false n
      simpa [writeNumber, toString, Int.repr] using hwritten
    · simp [Numeral.value, absorb_toDigits hn]
  | negSucc n =>
    have hn : n + 1 ≤ maxNegative := by
      rw [Int.negSucc_eq] at hlow
      omega
    have hn' : n + 1 ≤ maxSignificand := Nat.le_trans hn (by decide)
    refine ⟨⟨true, Nat.toDigits 10 (n + 1), [], none⟩, ?_, ?_⟩
    · have hwritten := Numeral.written_toDigits true (n + 1)
      simpa [writeNumber, toString, Int.repr] using hwritten
    · have hle : n + 1 ≤ 0x8000000000000000 := hn
      simp [Numeral.value, absorb_toDigits hn', hle, Int.negSucc_eq]

/-- A number that has to be rounded is read as a floating-point number. -/
theorem Numeral.value_rounded {r : Option Binary64} {n : Number}
    (h : (match r with
      | some x => .ok (.real x)
      | none => .error [] : Except (List Char) Number) = .ok n) :
        ∃ x, r = some x ∧ n = .real x := by
  cases r with
  | none => cases h
  | some x => exact ⟨x, rfl, (Except.ok.inj h).symm⟩

/-- An integer that is the value of a numeral has 64 bits. -/
theorem Numeral.value_int {numeral : Numeral} {i : Int} (h : numeral.value = .ok (.int i)) :
    -(maxNegative : Int) ≤ i ∧ i ≤ (maxSignificand : Int) := by
  have hle := absorb_le (Nat.zero_le maxSignificand) numeral.whole
  have hreal : ∀ {r : Option Binary64}, ¬ ∃ x, r = some x ∧ Number.int i = .real x := by simp
  simp only [Numeral.value] at h
  split at h
  · split at h
    · exact absurd (Numeral.value_rounded h) hreal
    · split at h
      · cases h
      · cases h
  · split at h
    · split at h
      · cases h
        exact ⟨by omega, Int.ofNat_le.2 hle⟩
      · split at h
        · next hbound =>
          cases h
          have hlow : (absorb maxSignificand 0 numeral.whole).1 ≤ maxNegative := hbound.2
          omega
        · exact absurd (Numeral.value_rounded h) hreal
    · exact absurd (Numeral.value_rounded h) hreal

theorem printed_of_readable {n : Number} (hread : n.Readable) (hint : n.IsInteger) : n.Printed := by
  obtain ⟨i, rfl⟩ := hint
  obtain ⟨text, numeral, -, hvalue⟩ := hread
  obtain ⟨hlow, hhigh⟩ := Numeral.value_int hvalue
  exact printed_int hlow hhigh

end Numbers

/-! ## What is printed -/

/-- A string with the spelling of the printer. -/
def Literal.printed (s : String) : Literal where
  raw := escapedChars s.toList
  value := s.toList
  spells := .escaped s.toList

mutual

/-- A document with the spellings of the printer. -/
def spelled : Json → Spelled
  | null => .null
  | bool b => .bool b
  | number n => .number n
  | string s => .string (.printed s)
  | array items => .array (spelledItems items)
  | object members => .object (spelledMembers members)

/-- Every item with the spellings of the printer. -/
def spelledItems : List Json → List Spelled
  | [] => []
  | item :: items => spelled item :: spelledItems items

/-- Every member with the spellings of the printer. -/
def spelledMembers : List (String × Json) → List (Literal × Spelled)
  | [] => []
  | member :: members => (.printed member.1, spelled member.2) :: spelledMembers members

end

mutual

theorem spelled_document (v : Json) : v.spelled.document Literal.value = v := by
  cases v with
  | null => rfl
  | bool b => rfl
  | number n => rfl
  | string s => exact congrArg Json.string String.ofList_toList
  | array items => exact congrArg Json.array (spelledItems_documents items)
  | object members => exact congrArg Json.object (spelledMembers_documents members)

theorem spelledItems_documents (items : List Json) :
    Spelled.itemDocuments Literal.value (spelledItems items) = items := by
  cases items with
  | nil => rfl
  | cons item items =>
    rw [spelledItems, Spelled.itemDocuments, spelled_document item, spelledItems_documents items]

theorem spelledMembers_documents (members : List (String × Json)) :
    Spelled.memberDocuments Literal.value (spelledMembers members) = members := by
  cases members with
  | nil => rfl
  | cons member members =>
    rw [spelledMembers, Spelled.memberDocuments, spelled_document member.2,
      spelledMembers_documents members]
    exact congrArg (fun key => (key, member.2) :: members) String.ofList_toList

end

/-! ### Numbers -/

mutual

/-- The document with other numbers in place of its own. -/
def mapNumbers (f : Number → Number) : Json → Json
  | null => null
  | bool b => bool b
  | number n => number (f n)
  | string s => string s
  | array items => array (mapNumbersItems f items)
  | object members => object (mapNumbersMembers f members)

/-- Every item with other numbers. -/
def mapNumbersItems (f : Number → Number) : List Json → List Json
  | [] => []
  | item :: items => mapNumbers f item :: mapNumbersItems f items

/-- Every member with other numbers. -/
def mapNumbersMembers (f : Number → Number) : List (String × Json) → List (String × Json)
  | [] => []
  | member :: members => (member.1, mapNumbers f member.2) :: mapNumbersMembers f members

end

section MapNumbers

variable {f : Number → Number}

theorem mapNumbersItems_eq (items : List Json) :
    mapNumbersItems f items = items.map (mapNumbers f) := by
  induction items with
  | nil => rfl
  | cons item items ih => exact congrArg _ ih

theorem mapNumbersMembers_eq (members : List (String × Json)) :
    mapNumbersMembers f members = members.map fun m => (m.1, mapNumbers f m.2) := by
  induction members with
  | nil => rfl
  | cons member members ih => exact congrArg _ ih

/-- Numbers that stay what they are leave the document what it is. -/
theorem Fits.mapNumbers_eq {depth : Nat} {v : Json} (h : Fits (fun n => f n = n) depth v) :
    v.mapNumbers f = v := by
  induction h with
  | null => rfl
  | bool => rfl
  | number h => exact congrArg Json.number h
  | string => rfl
  | @array depth items h ih =>
    rw [mapNumbers, mapNumbersItems_eq, List.map_congr_left ih, List.map_id']
  | @object depth members h ih =>
    have hmembers : members.map (fun m => (m.1, mapNumbers f m.2)) = members.map id :=
      List.map_congr_left fun m hm => Prod.ext rfl (ih m hm)
    rw [mapNumbers, mapNumbersMembers_eq, hmembers, List.map_id]

end MapNumbers

/-! ### Lists and objects -/

section Collections

variable {W : Spelled → List Char → Prop} {write : Json → List Char} {g : Json → Json}
variable {b b' : List Char}

/-- Items after the first, each with a comma and blanks in front of it. -/
theorem Items.printed (hb : Blank b) (hb' : Blank b') {items : List Json}
    (h : ∀ x ∈ items, W (g x).spelled (write x)) :
    Items W false (spelledItems (items.map g))
      (items.flatMap (fun x => ',' :: (b ++ write x)) ++ (b' ++ [']'])) := by
  induction items with
  | nil => exact .close hb'
  | cons x items ih =>
    have hrest := ih fun y hy => h y (List.mem_cons_of_mem _ hy)
    have hitems := Items.more (.next blank_nil hb) (h x List.mem_cons_self) hrest
    simpa only [List.map_cons, spelledItems, List.flatMap_cons, List.append_assoc, List.cons_append,
      List.nil_append] using hitems

/-- Members after the first, each with a comma and blanks in front of it. -/
theorem Members.printed {space : List Char} (hb : Blank b) (hspace : Blank space) (hb' : Blank b')
    {members : List (String × Json)} (h : ∀ m ∈ members, W (g m.2).spelled (write m.2)) :
    Members Literal.raw W false (spelledMembers (members.map fun m => (m.1, g m.2)))
      (members.flatMap (fun m => ',' :: (b ++ writeString m.1 ++ ':' :: (space ++ write m.2))) ++
        (b' ++ ['}'])) := by
  induction members with
  | nil => exact .close hb'
  | cons m members ih =>
    have hrest := ih fun y hy => h y (List.mem_cons_of_mem _ hy)
    have hmembers : Members Literal.raw W false
        ((.printed m.1, (g m.2).spelled) :: spelledMembers (members.map fun m => (m.1, g m.2))) _ :=
      .more (.next blank_nil hb) blank_nil hspace (h m List.mem_cons_self) hrest
    simpa only [List.map_cons, spelledMembers, List.flatMap_cons, List.append_assoc,
      List.cons_append,
      List.nil_append, writeString, Literal.printed] using hmembers

end Collections

/-! ### With a line for each part -/

theorem blank_newLine (depth : Nat) : Blank (newLine depth) := by
  intro c hc
  rcases List.mem_cons.1 hc with rfl | hc
  · rfl
  · rw [List.eq_of_mem_replicate hc]
    rfl

theorem writePrettyItems_cons (k : Nat) (x : Json) (items : List Json) :
    writePrettyItems k (x :: items) = newLine k ++ writePretty k x ++
      items.flatMap fun y => ',' :: (newLine k ++ writePretty k y) := by
  induction items generalizing x with
  | nil => simp [writePrettyItems]
  | cons y items ih =>
    rw [writePrettyItems, ih, List.flatMap_cons]
    · simp
    · simp

theorem writePrettyMember_eq (k : Nat) (m : String × Json) : writePrettyMember k m =
    newLine k ++ writeString m.1 ++ ':' :: ' ' :: writePretty k m.2 := by
  rw [writePrettyMember]

theorem writePrettyMembers_cons (k : Nat) (m : String × Json) (members : List (String × Json)) :
    writePrettyMembers k (m :: members) = writePrettyMember k m ++
      members.flatMap fun m => ',' :: writePrettyMember k m := by
  induction members generalizing m with
  | nil => simp [writePrettyMembers]
  | cons m' members ih =>
    rw [writePrettyMembers, ih, List.flatMap_cons]
    · simp
    · simp

/-- **What is printed is a text of the document** with the numbers that the printed ones are read
as. -/
theorem writePretty_written {f : Number → Number} {depth : Nat} {v : Json}
    (h : Fits (fun n => WrittenNumber (f n) (writeNumber n)) depth v) (k : Nat) :
    Written Literal.raw depth (v.mapNumbers f).spelled (writePretty k v) := by
  induction h generalizing k with
  | null => exact written_null.2 rfl
  | @bool depth b =>
    cases b with
    | true => exact written_true.2 rfl
    | false => exact written_false.2 rfl
  | number h => exact written_number.2 h
  | string => exact written_string.2 rfl
  | @array depth items h ih =>
    rw [mapNumbers, mapNumbersItems_eq]
    cases items with
    | nil => exact written_array.2 ⟨depth, [']'], rfl, rfl, .close blank_nil⟩
    | cons x items =>
      have hrest := Items.printed (blank_newLine (k + 1)) (blank_newLine k)
        fun y hy => ih y (List.mem_cons_of_mem _ hy) (k + 1)
      have hitems :=
        Items.more (.first (blank_newLine (k + 1))) (ih x List.mem_cons_self (k + 1)) hrest
      refine written_array.2 ⟨depth, _, rfl, ?_, hitems⟩
      simp [writePretty, writePrettyItems_cons]
  | @object depth members h ih =>
    rw [mapNumbers, mapNumbersMembers_eq]
    cases members with
    | nil => exact written_object.2 ⟨depth, ['}'], rfl, rfl, .close blank_nil⟩
    | cons m members =>
      have hspace : Blank [' '] := by simp [Blank, isSpace]
      have hrest := Members.printed (blank_newLine (k + 1)) hspace (blank_newLine k)
        fun y hy => ih y (List.mem_cons_of_mem _ hy) (k + 1)
      have hmembers : Members Literal.raw _ true ((.printed m.1, (m.2.mapNumbers f).spelled) ::
          spelledMembers (members.map fun m => (m.1, m.2.mapNumbers f))) _ :=
        .more (.first (blank_newLine (k + 1))) blank_nil hspace (ih m List.mem_cons_self (k + 1))
          hrest
      refine written_object.2 ⟨depth, _, rfl, ?_, hmembers⟩
      simp [writePretty, writePrettyMembers_cons, writePrettyMember_eq, writeString,
        Literal.printed]

/-! ### On one line -/

theorem writeCompactItems_cons (x : Json) (items : List Json) :
    writeCompactItems (x :: items) =
      writeCompact x ++ items.flatMap fun y => ',' :: writeCompact y := by
  induction items generalizing x with
  | nil => simp [writeCompactItems]
  | cons y items ih =>
    rw [writeCompactItems, ih, List.flatMap_cons]
    · simp
    · simp

theorem writeCompactMembers_cons (m : String × Json) (members : List (String × Json)) :
    writeCompactMembers (m :: members) = writeString m.1 ++ ':' :: writeCompact m.2 ++
      members.flatMap fun m => ',' :: (writeString m.1 ++ ':' :: writeCompact m.2) := by
  induction members generalizing m with
  | nil => simp [writeCompactMembers]
  | cons m' members ih =>
    rw [writeCompactMembers, ih, List.flatMap_cons]
    · simp
    · simp

/-- **What is printed on one line is a text of the document**, too. -/
theorem writeCompact_written {f : Number → Number} {depth : Nat} {v : Json}
    (h : Fits (fun n => WrittenNumber (f n) (writeNumber n)) depth v) :
    Written Literal.raw depth (v.mapNumbers f).spelled (writeCompact v) := by
  induction h with
  | null => exact written_null.2 rfl
  | @bool depth b =>
    cases b with
    | true => exact written_true.2 rfl
    | false => exact written_false.2 rfl
  | number h => exact written_number.2 h
  | string => exact written_string.2 rfl
  | @array depth items h ih =>
    rw [mapNumbers, mapNumbersItems_eq]
    cases items with
    | nil => exact written_array.2 ⟨depth, [']'], rfl, rfl, .close blank_nil⟩
    | cons x items =>
      have hrest := Items.printed blank_nil blank_nil fun y hy => ih y (List.mem_cons_of_mem _ hy)
      have hitems := Items.more (.first blank_nil) (ih x List.mem_cons_self) hrest
      refine written_array.2 ⟨depth, _, rfl, ?_, hitems⟩
      simp [writeCompact, writeCompactItems_cons]
  | @object depth members h ih =>
    rw [mapNumbers, mapNumbersMembers_eq]
    cases members with
    | nil => exact written_object.2 ⟨depth, ['}'], rfl, rfl, .close blank_nil⟩
    | cons m members =>
      have hrest :=
        Members.printed blank_nil blank_nil blank_nil fun y hy => ih y (List.mem_cons_of_mem _ hy)
      have hmembers : Members Literal.raw _ true ((.printed m.1, (m.2.mapNumbers f).spelled) ::
          spelledMembers (members.map fun m => (m.1, m.2.mapNumbers f))) _ :=
        .more (.first blank_nil) blank_nil blank_nil (ih m List.mem_cons_self) hrest
      refine written_object.2 ⟨depth, _, rfl, ?_, hmembers⟩
      simp [writeCompact, writeCompactMembers_cons, writeString, Literal.printed]

/-! ### Whole texts -/

/-- **A printed document is read** as the document with the numbers that the printed ones are read
as. -/
theorem parse_pretty_mapNumbers {f : Number → Number} {v : Json}
    (h : Fits (fun n => WrittenNumber (f n) (writeNumber n)) depthLimit v) :
    parse (pretty v) = .ok (v.mapNumbers f) := by
  have hwritten := writePretty_written h 0
  have htext : WrittenText Literal.raw (v.mapNumbers f).spelled (pretty v).toList := by
    refine ⟨[], _, [], blank_nil, blank_nil, hwritten, ?_⟩
    rw [pretty, String.toList_ofList, List.append_nil, List.nil_append]
  rw [parse_complete Literal.spells htext, spelled_document]

/-- **A printed document is read back**, if its numbers are. -/
theorem parse_pretty {v : Json} (h : Fits Number.Printed depthLimit v) :
    parse (pretty v) = .ok v := by
  have hsame : Fits (fun n => id n = n) depthLimit v := h.imp fun _ _ => rfl
  rw [parse_pretty_mapNumbers (f := id) h, hsame.mapNumbers_eq]

end Json
end KernelRegistry
