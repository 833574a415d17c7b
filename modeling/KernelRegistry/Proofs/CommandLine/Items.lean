import KernelRegistry.Proofs.CommandLine.Shape
import KernelRegistry.Proofs.Except
import KernelRegistry.Proofs.Manifest

/-!
# Command lines that are accepted

A command line is seen here from the side of those who write it: as a list of items, each of them
written in one argument or in two.  Reading it gives the items back, with nothing added or left out.

* `Item`, `Item.words` — a setting or another option, and how it is written.
* `Item.Valid` — the value is one that the option takes.
* `Progress.reads_item` — **what is written is read** by an option that is as good as read.
* `occurrences_items` — **a command line of valid items is read as them**, in their order.
-/

set_option autoImplicit false
namespace KernelRegistry
namespace CommandLine

open Text (Bytes encode)

/-! ## What is written -/

/-- Something on a command line.  A value is `attached` if it stands behind an equals sign, and not
in an argument of its own; a setting is `assigned` if the option is the one for all parameters. -/
inductive Item where
  | setting (p : Parameter) (raw : String) (assigned attached : Bool)
  | held (h : Held) (value : Bytes) (attached : Bool)
  | switch (s : Switch)

/-- The values that can stand in an argument of their own: one that looks like an option would be
taken for one. -/
def StandsAlone (value : Bytes) : Prop := value = [dash] ∨ value.head? ≠ some dash

namespace Item

/-- The option that is written. -/
def key : Item → Key
  | setting p _ false _ => .parameter p
  | setting _ _ true _ => .assignment
  | held h _ _ => .held h
  | switch s => .switch s

/-- The value that is written. -/
def value? : Item → Option Bytes
  | setting _ raw false _ => some (encode raw)
  | setting p raw true _ => some (encode (p.name ++ "=" ++ raw))
  | held _ value _ => some value
  | switch _ => none

/-- Whether the value stands behind an equals sign. -/
def isAttached : Item → Bool
  | setting _ _ _ attached | held _ _ attached => attached
  | switch _ => false

/-- The arguments that are written. -/
def words (item : Item) : List Bytes :=
  let name := encode ("--" ++ item.key.name)
  match item.value? with
  | some value => if item.isAttached then [name ++ equals :: value] else [name, value]
  | none => [name]

/-- The parameter that is set, with the written value. -/
def setting? : Item → Option (Parameter × String)
  | setting p raw _ _ => some (p, raw)
  | _ => none

/-- The option, if it may be given once only. -/
def once? : Item → Option Key
  | setting _ _ _ _ => none
  | held h _ _ => some (.held h)
  | switch s => some (.switch s)

/-- The option takes the value: it belongs to a parameter of the manifest that accepts it, or it is
a text where one is wanted, and no empty path.  In an argument of its own it does not look like an
option; an assignment never does. -/
def Valid (m : Manifest) : Item → Prop
  | setting p raw assigned attached => p ∈ m.parameters ∧ (∃ value, p.resolve raw = .ok value) ∧
    (assigned = false → attached = false → StandsAlone (encode raw))
  | held h value attached => (h = .python → IsText value) ∧ (h = .manifest → value ≠ []) ∧
    (attached = false → StandsAlone value)
  | switch _ => True

/-- The occurrence of an item, whose last argument is at a position. -/
def occurrence (position : Nat) : Item → Occurrence
  | setting p raw false _ => .parameter position p.name raw
  | setting p raw true _ => .assignment position p.name raw
  | held h value _ => .held h value
  | switch s => .switch s

/-- The occurrences of several items from a position on. -/
def occurrences : Nat → List Item → List Occurrence
  | _, [] => []
  | start, item :: items =>
    item.occurrence (start + item.words.length - 1) ::
      occurrences (start + item.words.length) items

end Item

/-! ## Names -/

section Names

variable {m : Manifest} {item : Item} {p : Parameter} {key key' : Key} {value : Bytes}

theorem standsAlone_iff : StandsAlone value ↔ Shape.of value = .plain := by
  rw [Shape.of_eq_plain_iff]
  rcases value with - | ⟨b, - | ⟨b', rest⟩⟩
  · simp [StandsAlone]
  · simp [StandsAlone]
    exact em _
  · simp [StandsAlone]

theorem names_of_isOptionName {name : String} (h : isOptionName name = true) :
    ∃ c cs, name.toList = c :: cs ∧ c.isAlpha = true ∧ '=' ∉ name.toList := by
  rw [isOptionName, hasForm] at h
  split at h
  · next c cs hname =>
    rw [Bool.and_eq_true, List.all_eq_true] at h
    refine ⟨c, cs, hname, h.1, fun hmem => ?_⟩
    rw [hname] at hmem
    rcases List.mem_cons.1 hmem with rfl | hmem
    · exact absurd h.1 (by decide)
    · exact absurd (h.2 _ hmem) (by decide)
  · cases h

/-- The installer's own names are reserved, and are found. -/
theorem own_names : ∀ key ∈ ownKeys, key.name ∈ reservedNames ∧ isOptionName key.name = true ∧
    ownKeys.find? (·.name = key.name) = some key := by
  decide

/-- Messages show the installer's own options in different ways. -/
theorem own_shown : ∀ key ∈ ownKeys, ∀ key' ∈ ownKeys, key.shown = key'.shown → key = key' := by
  decide

theorem key?_own (m : Manifest) (h : key ∈ ownKeys) : key? m key.name = some key := by
  rw [key?, keys, List.append_assoc, List.find?_append, (own_names key h).2.2]
  rfl

theorem key?_parameter (hm : m.check = .ok ()) (hp : p ∈ m.parameters) :
    key? m p.name = some (.parameter p) := by
  have hown : ownKeys.find? (·.name = p.name) = none := by
    rw [List.find?_eq_none]
    intro key hkey hname
    refine ((Manifest.accepted hm).1 p hp).notReserved ?_
    rw [← of_decide_eq_true hname]
    exact (own_names key hkey).1
  have hfound : (m.parameters.map Key.parameter).find? (·.name = p.name) = some (.parameter p) := by
    rw [List.find?_map]
    exact congrArg (Option.map Key.parameter) (Manifest.parameter?_name hm hp)
  rw [key?, keys, List.append_assoc, List.find?_append, hown, Option.none_or, List.find?_append,
    hfound]
  rfl

theorem mem_ownKeys_held (h : Held) : Key.held h ∈ ownKeys := by cases h <;> decide

theorem mem_ownKeys_switch (s : Switch) : Key.switch s ∈ ownKeys := by cases s <;> decide

/-- **The option of an item is found by its name**, which is one of an option. -/
theorem Item.Valid.key? (hm : m.check = .ok ()) (h : item.Valid m) :
    CommandLine.key? m item.key.name = some item.key ∧ isOptionName item.key.name = true := by
  have hown : ∀ {key : Key}, key ∈ ownKeys →
      CommandLine.key? m key.name = some key ∧ isOptionName key.name = true := fun hkey =>
    ⟨key?_own m hkey, (own_names _ hkey).2.1⟩
  cases item with
  | setting p raw assigned attached =>
    cases assigned with
    | false => exact ⟨key?_parameter hm h.1, ((Manifest.accepted hm).1 p h.1).isOptionName⟩
    | true => exact hown (show Key.assignment ∈ ownKeys by decide)
  | held held value attached => exact hown (mem_ownKeys_held held)
  | switch s => exact hown (mem_ownKeys_switch s)

end Names

/-! ## Arguments -/

section Words

variable {m : Manifest} {item : Item} {value : Bytes}

theorem encode_dashes (name : String) : encode ("--" ++ name) = dash :: dash :: encode name := by
  rw [Text.encode_append]
  rfl

theorem words_attached (hvalue : item.value? = some value) (h : item.isAttached = true) :
    item.words = [dash :: dash :: assigned (encode item.key.name) (some value)] := by
  simp only [Item.words, hvalue, h, if_true, encode_dashes]
  rfl

theorem words_separate (hvalue : item.value? = some value) (h : item.isAttached = false) :
    item.words = [dash :: dash :: assigned (encode item.key.name) none, value] := by
  simp only [Item.words, hvalue, h, encode_dashes]
  rfl

theorem takesValue_key (hvalue : item.value? = some value) : item.key.takesValue = true := by
  cases item with
  | setting p raw assigned attached => cases assigned <;> rfl
  | held h held attached => rfl
  | switch s => cases hvalue

/-- A value in an argument of its own does not look like an option. -/
theorem Item.Valid.standsAlone (hm : m.check = .ok ()) (h : item.Valid m)
    (hvalue : item.value? = some value) (hseparate : item.isAttached = false) :
    StandsAlone value := by
  cases item with
  | setting p raw assigned attached =>
    obtain ⟨hp, -, halone⟩ := h
    cases assigned with
    | false => exact Option.some.inj hvalue ▸ halone rfl hseparate
    | true =>
      cases hvalue
      obtain ⟨c, cs, hname, halpha, -⟩ :=
        names_of_isOptionName ((Manifest.accepted hm).1 p hp).isOptionName
      refine .inr fun hhead => ?_
      rw [String.append_assoc, Text.encode_append, encode, hname, Text.encodeChars_cons] at hhead
      obtain ⟨b, bs, hbytes⟩ := List.exists_cons_of_ne_nil (String.utf8EncodeChar_ne_nil (c := c))
      rw [hbytes] at hhead
      obtain rfl : b = dash := Option.some.inj hhead
      have hdash : c = '-' := (Text.mem_encodeChar_iff (a := '-') (by decide)).1
        (by rw [hbytes]; exact List.mem_cons_self)
      rw [hdash] at halpha
      exact absurd halpha (by decide)
  | held held value' attached => exact Option.some.inj hvalue ▸ h.2.2 hseparate
  | switch s => cases hvalue

end Words

/-! ## What is taken note of -/

section Record

variable {m : Manifest} {item : Item} {given : List Occurrence} {value : Bytes} {key : Key}

theorem textOf_encode (s : String) : textOf (encode s) = .ok s := by
  rw [textOf, Text.decode?_encode]

theorem splitAssignment_eq {name : String} (h : isOptionName name = true) (raw : String) :
    splitAssignment (name ++ "=" ++ raw) = some (name, raw) := by
  obtain ⟨c, cs, hname, -, hequals⟩ := names_of_isOptionName h
  have hall : ∀ d ∈ name.toList, decide (d ≠ '=') = true := fun d hd =>
    decide_eq_true fun heq => hequals (heq ▸ hd)
  have htext : (name ++ "=" ++ raw).toList = name.toList ++ '=' :: raw.toList := by simp
  rw [splitAssignment, htext, List.span_eq_takeWhile_dropWhile, List.takeWhile_append_of_pos hall,
    List.dropWhile_append_of_pos hall, List.takeWhile_cons_of_neg (by simp),
    List.dropWhile_cons_of_neg (by simp), List.append_nil, hname]
  show some (String.ofList (c :: cs), String.ofList raw.toList) = _
  rw [← hname, String.ofList_toList, String.ofList_toList]

/-- The option was not given yet, or may be given several times. -/
def MayBeGiven (given : List Occurrence) (item : Item) : Prop :=
  ∀ key, item.once? = some key → ∀ o ∈ given, o.once? ≠ some key.shown

theorem checkOnce_eq_ok (h : ∀ o ∈ given, o.once? ≠ some key.shown) :
    Progress.checkOnce given key = .ok () := by
  have hany : given.any (·.once? = some key.shown) = false := by
    rw [List.any_eq_false]
    intro o ho
    simpa using h o ho
  rw [Progress.checkOnce, hany]
  rfl

theorem readHeld_valid {h : Held} {attached : Bool}
    (hvalid : (Item.held h value attached).Valid m) :
    readHeld h value = .ok (.held h value) := by
  obtain ⟨hpython, hmanifest, -⟩ := hvalid
  cases h with
  | location => rfl
  | python =>
    obtain ⟨s, rfl⟩ := hpython rfl
    rw [readHeld, textOf_encode]
    rfl
  | manifest =>
    have hne : value.isEmpty = false := by simpa using hmanifest rfl
    rw [readHeld, hne]
    rfl

/-- **The value of a valid item is taken note of.** -/
theorem record_item (hm : m.check = .ok ()) (hvalid : item.Valid m) (hmay : MayBeGiven given item)
    (hvalue : item.value? = some value) (position : Nat) :
    Progress.record m given item.key position value =
      .ok (given ++ [item.occurrence position]) := by
  cases item with
  | setting p raw assigned attached =>
    obtain ⟨hp, ⟨resolved, hresolve⟩, -⟩ := hvalid
    cases assigned with
    | false =>
      cases hvalue
      show (do return given ++ [← readParameter p position (← textOf (encode raw))]) = _
      rw [textOf_encode]
      show (do return given ++ [← readParameter p position raw]) = _
      rw [readParameter, hresolve]
      rfl
    | true =>
      cases hvalue
      show (do return given ++ [← readAssignment m position (← textOf _)]) = _
      rw [textOf_encode]
      show (do return given ++ [← readAssignment m position _]) = _
      rw [readAssignment, splitAssignment_eq ((Manifest.accepted hm).1 p hp).isOptionName]
      simp only [Manifest.parameter?_name hm hp, Option.isSome_some, if_true]
      rfl
  | held h held attached =>
    cases hvalue
    show (do Progress.checkOnce given (.held h); return given ++ [← readHeld h value]) = _
    rw [checkOnce_eq_ok (hmay _ rfl), readHeld_valid hvalid]
    rfl
  | switch s => cases hvalue

theorem recordSwitch_item {s : Switch} (hmay : MayBeGiven given (.switch s)) (calledAs : String) :
    Progress.recordSwitch m calledAs given (.switch s) = .ok (given ++ [.switch s]) := by
  show (do Progress.checkOnce given (.switch s); return given ++ [Occurrence.switch s]) = _
  rw [checkOnce_eq_ok (hmay _ rfl)]
  rfl

end Record

/-! ## What is read -/

namespace Progress

variable {m : Manifest} {item : Item} {p : Progress} {given : List Occurrence} {value : Bytes}

/-- Arguments with their positions from some position on. -/
def numbered : Nat → List Bytes → List (Nat × Bytes)
  | _, [] => []
  | start, word :: words => (start, word) :: numbered (start + 1) words

theorem numbered_append (start : Nat) (words words' : List Bytes) :
    numbered start (words ++ words') =
      numbered start words ++ numbered (start + words.length) words' := by
  induction words generalizing start with
  | nil => rfl
  | cons word words ih =>
    rw [List.cons_append, numbered, numbered, ih, List.length_cons, Nat.add_right_comm,
      Nat.add_assoc]
    rfl

theorem range_zip (start : Nat) (words : List Bytes) :
    (List.range' start words.length).zip words = numbered start words := by
  induction words generalizing start with
  | nil => rfl
  | cons word words ih => rw [List.length_cons, List.range'_succ, List.zip_cons_cons, ih, numbered]

/-- The name of an option as it stands in an argument. -/
theorem shape_of_name {name : String} (h : isOptionName name = true) (value : Option Bytes) :
    Shape.of (dash :: dash :: assigned (encode name) value) = .long (encode name) value := by
  obtain ⟨c, cs, hname, -, hequals⟩ := names_of_isOptionName h
  have hnot : equals ∉ encode name := fun hmem =>
    hequals ((Text.mem_encodeChars_iff (a := '=') (by decide)).1 hmem)
  have hne : encode name ≠ [] := by
    rw [encode, hname, Text.encodeChars_cons]
    simp [String.utf8EncodeChar_ne_nil]
  refine Shape.of_eq_long_iff.2 ⟨hnot, ?_, rfl⟩
  cases value with
  | none => exact hne
  | some value => exact fun hnil => hne (List.append_eq_nil_iff.1 hnil).1

/-- A value behind an equals sign is taken note of at once. -/
theorem read_attached (calledAs : String) {key : Key} {given' : List Occurrence}
    (hname : isOptionName key.name = true) (hkey : key? m key.name = some key)
    (htakes : key.takesValue = true) (hescaped : p.escaped = false)
    (hsettle : p.settle m = .ok given) (position : Nat)
    (hrecord : record m given key position value = .ok given') :
    p.read m calledAs (position, dash :: dash :: assigned (encode key.name) (some value)) =
      .ok ⟨given', none, false⟩ := by
  rw [read, hescaped, if_neg Bool.false_ne_true, shape_of_name hname]
  show readLong m calledAs p position (encode key.name) (some value) = _
  rw [readLong, Text.decode?_encode, Option.bind_some, hkey]
  simp only [htakes, if_true, hsettle, hescaped, bind, Except.bind, hrecord]
  rfl

/-- An option whose value is to come waits for it. -/
theorem read_waiting (calledAs : String) {key : Key} (hname : isOptionName key.name = true)
    (hkey : key? m key.name = some key) (htakes : key.takesValue = true)
    (hescaped : p.escaped = false) (hsettle : p.settle m = .ok given) (position : Nat) :
    p.read m calledAs (position, dash :: dash :: assigned (encode key.name) none) =
      .ok ⟨given, some (key, none), false⟩ := by
  rw [read, hescaped, if_neg Bool.false_ne_true, shape_of_name hname]
  show readLong m calledAs p position (encode key.name) none = _
  rw [readLong, Text.decode?_encode, Option.bind_some, hkey]
  simp only [htakes, if_true, hsettle, hescaped, bind, Except.bind]
  rfl

/-- Any value that stands alone is what it waits for. -/
theorem read_value (calledAs : String) {key : Key} (hvalue : StandsAlone value) (position : Nat) :
    read m calledAs ⟨given, some (key, none), false⟩ (position, value) =
      .ok ⟨given, some (key, some (position, value)), false⟩ := by
  rw [read, if_neg Bool.false_ne_true, standsAlone_iff.1 hvalue]
  rfl

theorem read_switch (calledAs : String) {s : Switch} {given' : List Occurrence}
    (hescaped : p.escaped = false) (hsettle : p.settle m = .ok given) (position : Nat)
    (hrecord : recordSwitch m calledAs given (.switch s) = .ok given') :
    p.read m calledAs (position, dash :: dash :: assigned (encode (Key.switch s).name) none) =
      .ok ⟨given', none, false⟩ := by
  have hown := mem_ownKeys_switch s
  rw [read, hescaped, if_neg Bool.false_ne_true, shape_of_name (own_names _ hown).2.1]
  show readLong m calledAs p position (encode (Key.switch s).name) none = _
  rw [readLong, Text.decode?_encode, Option.bind_some, key?_own m hown]
  show (do let given ← p.settle m; return { p with
    given := ← recordSwitch m calledAs given (.switch s), waiting := none }) = _
  simp only [hsettle, hescaped, bind, Except.bind, hrecord]
  rfl

/-- **What is written is read** after anything that is as good as read, and is as good as read
itself. -/
theorem reads_item (calledAs : String) (hm : m.check = .ok ()) (hvalid : item.Valid m)
    (hmay : MayBeGiven given item) (hescaped : p.escaped = false)
    (hsettle : p.settle m = .ok given) (start : Nat) :
    ∃ q, (numbered start item.words).foldlM (read m calledAs) p = .ok q ∧ q.escaped = false ∧
      q.settle m = .ok (given ++ [item.occurrence (start + item.words.length - 1)]) := by
  obtain ⟨hkey, hname⟩ := hvalid.key? hm
  cases hvalue : item.value? with
  | some value =>
    have htakes := takesValue_key hvalue
    have hrecord := record_item hm hvalid hmay hvalue
    cases hattached : item.isAttached with
    | true =>
      rw [words_attached hvalue hattached]
      have hread := read_attached calledAs hname hkey htakes hescaped hsettle start
        (hrecord start)
      exact ⟨_, foldlM_cons_of_ok hread [], rfl, rfl⟩
    | false =>
      rw [words_separate hvalue hattached]
      have halone := hvalid.standsAlone hm hvalue hattached
      have hwait := read_waiting calledAs hname hkey htakes hescaped hsettle start
      refine ⟨⟨given, some (item.key, some (start + 1, value)), false⟩,
        (foldlM_cons_of_ok hwait _).trans ?_, rfl, hrecord (start + 1)⟩
      exact foldlM_cons_of_ok (read_value calledAs halone (start + 1)) []
  | none =>
    cases item with
    | switch s =>
      have hread := read_switch calledAs hescaped hsettle start (recordSwitch_item hmay calledAs)
      have hwords : Item.words (.switch s) =
          [dash :: dash :: assigned (encode (Key.switch s).name) none] := by
        simp only [Item.words, Item.value?, encode_dashes]
        rfl
      rw [hwords]
      exact ⟨_, foldlM_cons_of_ok hread [], rfl, rfl⟩
    | setting p raw assigned attached => cases assigned <;> cases hvalue
    | held h held attached => cases hvalue

/-! ### All that is written -/

theorem once?_occurrence (item : Item) (position : Nat) :
    (item.occurrence position).once? = item.once?.map Key.shown := by
  cases item with
  | setting p raw assigned attached => cases assigned <;> rfl
  | held h held attached => rfl
  | switch s => rfl

theorem mem_ownKeys_of_once? {key : Key} (h : item.once? = some key) : key ∈ ownKeys := by
  cases item with
  | setting p raw assigned attached => cases h
  | held held value attached => exact Option.some.inj h ▸ mem_ownKeys_held held
  | switch s => exact Option.some.inj h ▸ mem_ownKeys_switch s

/-- If an item may be given, it may still be given after another one that does not exclude it. -/
theorem mayBeGiven_concat {item' : Item} (hmay : MayBeGiven given item')
    (hne : ∀ key, item.once? = some key → item'.once? ≠ some key) (position : Nat) :
    MayBeGiven (given ++ [item.occurrence position]) item' := by
  intro key' hkey' o ho hshown
  rcases List.mem_append.1 ho with ho | ho
  · exact hmay key' hkey' o ho hshown
  · rw [List.mem_singleton.1 ho, once?_occurrence] at hshown
    obtain ⟨key, hkey, heq⟩ := Option.map_eq_some_iff.1 hshown
    have hown := own_shown key (mem_ownKeys_of_once? hkey) key' (mem_ownKeys_of_once? hkey') heq
    exact hne key hkey (hown ▸ hkey')

/-- **A command line of valid items is read as them**, in their order. -/
theorem reads_items (calledAs : String) (hm : m.check = .ok ()) {items : List Item}
    (hvalid : ∀ item ∈ items, item.Valid m) (honce : (items.filterMap Item.once?).Nodup)
    (hmay : ∀ item ∈ items, MayBeGiven given item) (hescaped : p.escaped = false)
    (hsettle : p.settle m = .ok given) (start : Nat) :
    ∃ q, (numbered start (items.flatMap Item.words)).foldlM (read m calledAs) p = .ok q ∧
      q.settle m = .ok (given ++ Item.occurrences start items) := by
  induction items generalizing p given start with
  | nil => exact ⟨p, rfl, by rw [Item.occurrences, List.append_nil, hsettle]⟩
  | cons item items ih =>
    obtain ⟨p', hread, hescaped', hsettle'⟩ := reads_item calledAs hm
      (hvalid item List.mem_cons_self) (hmay item List.mem_cons_self) hescaped hsettle start
    have hrest : (items.filterMap Item.once?).Nodup ∧
        ∀ key, item.once? = some key → key ∉ items.filterMap Item.once? := by
      cases hkey : item.once? with
      | none =>
        rw [List.filterMap_cons_none hkey] at honce
        exact ⟨honce, fun key h => by cases h⟩
      | some key =>
        rw [List.filterMap_cons_some hkey, List.nodup_cons] at honce
        exact ⟨honce.2, fun key' h => Option.some.inj h ▸ honce.1⟩
    have hmay' : ∀ item' ∈ items,
        MayBeGiven (given ++ [item.occurrence (start + item.words.length - 1)]) item' :=
      fun item' hitem' => mayBeGiven_concat (hmay item' (List.mem_cons_of_mem _ hitem'))
        (fun key hkey hkey' => hrest.2 key hkey (List.mem_filterMap.2 ⟨item', hitem', hkey'⟩)) _
    obtain ⟨q, hreads, hq⟩ := ih (fun x hx => hvalid x (List.mem_cons_of_mem _ hx)) hrest.1 hmay'
      hescaped' hsettle' (start + item.words.length)
    refine ⟨q, ?_, ?_⟩
    · rw [List.flatMap_cons, numbered_append, List.foldlM_append, hread]
      exact hreads
    · rw [hq, Item.occurrences, List.append_assoc]
      rfl

end Progress

/-! ## The command line -/

section Whole

variable {m : Manifest} {items : List Item}

theorem choosesLocation_occurrence (item : Item) (position : Nat) :
    (item.occurrence position).choosesLocation = item.key.choosesLocation := by
  cases item with
  | setting p raw assigned attached => cases assigned <;> rfl
  | held h held attached => rfl
  | switch s => rfl

theorem length_locations (start : Nat) (items : List Item) :
    ((Item.occurrences start items).filter (·.choosesLocation)).length =
      (items.filter (·.key.choosesLocation)).length := by
  induction items generalizing start with
  | nil => rfl
  | cons item items ih =>
    rw [Item.occurrences, List.filter_cons, List.filter_cons, choosesLocation_occurrence]
    split
    · rw [List.length_cons, List.length_cons, ih]
    · exact ih _

theorem checkLocations_items (hlocation : (items.filter (·.key.choosesLocation)).length ≤ 1)
    (start : Nat) : checkLocations (Item.occurrences start items) = .ok () := by
  have hlength : (((Item.occurrences start items).filter (·.choosesLocation)).filterMap
      (·.once?)).length ≤ 1 :=
    Nat.le_trans (List.length_filterMap_le _ _) (by rw [length_locations]; exact hlocation)
  rw [checkLocations]
  split
  · next first other others hlist =>
    rw [hlist] at hlength
    simp at hlength
  · rfl

/-- **Valid items are what is read** from the arguments that they are written in, if those that may
be given once only are, and no two choose the location. -/
theorem occurrences_items (hm : m.check = .ok ()) (hvalid : ∀ item ∈ items, item.Valid m)
    (honce : (items.filterMap Item.once?).Nodup)
    (hlocation : (items.filter (·.key.choosesLocation)).length ≤ 1) (calledAs : String) :
    occurrences m calledAs (items.flatMap Item.words) = .ok (Item.occurrences 0 items) := by
  have hmay : ∀ item ∈ items, MayBeGiven [] item := fun item _ key _ o ho => by cases ho
  obtain ⟨q, hread, hsettle⟩ := Progress.reads_items (p := {}) calledAs hm hvalid honce
    hmay rfl rfl 0
  rw [← Progress.range_zip, ← List.range_eq_range'] at hread
  rw [occurrences, hread]
  show (do let given ← q.settle m; checkLocations given; return given) = _
  rw [hsettle, List.nil_append]
  show (do checkLocations _; return _) = _
  rw [checkLocations_items hlocation]
  rfl

end Whole

end CommandLine
end KernelRegistry
