import KernelRegistry.Proofs.CommandLine.Items
import KernelRegistry.Proofs.CommandLine.ManifestPath
import KernelRegistry.Proofs.Text.Reread

/-!
# What accepted command lines are made of

`KernelRegistry.Proofs.CommandLine.Items` shows that items are read as they were written.  Here is
the other direction: whatever is accepted was written as items.

* `Item.Taken` — what the reader has checked of an item: all but the values of assignments.
* `record_taken` — a value that is taken note of is that of an item.
* `Progress.Reads` — a reader has read the words of some items, and perhaps of one more that waits.
* `Progress.read_reads` — **a step keeps that**.
* `exists_items` — **an accepted command line was written as items**, perhaps with two dashes at its
  end.
-/

set_option autoImplicit false
namespace KernelRegistry
namespace CommandLine

open Text (Bytes encode)

/-! ## Items -/

/-- The facts about an item that the reader has checked. -/
structure Item.Taken (m : Manifest) (item : Item) : Prop where
  known : ∀ s, item.setting? = some s → m.parameter? s.1.name = some s.1
  resolves : ∀ s, item.setting? = some s → item.key ≠ .assignment →
    ∃ value, s.1.resolve s.2 = .ok value
  standsAlone : ∀ value, item.value? = some value → item.isAttached = false → StandsAlone value

section Keys

variable {m : Manifest} {key : Key} {name : String} {p : Parameter}

theorem mem_of_parameter? (h : m.parameter? name = some p) : p ∈ m.parameters ∧ p.name = name :=
  ⟨List.mem_of_find?_eq_some h,
    of_decide_eq_true (List.find?_some (p := fun q : Parameter => decide (q.name = name)) h)⟩

/-- An option of a parameter is one of the manifest. -/
theorem mem_of_key?_parameter (h : key? m name = some (.parameter p)) :
    p ∈ m.parameters ∧ p.name = name := by
  have hmem : Key.parameter p ∈ keys m := List.mem_of_find?_eq_some h
  have hname : p.name = name := name_of_key? h
  refine ⟨?_, hname⟩
  simp only [keys, ownKeys, List.mem_append, List.mem_cons, List.mem_map] at hmem
  simpa using hmem

/-- The name of a setting ends at the first equals sign. -/
theorem eq_of_splitAssignment {text raw : String} (h : splitAssignment text = some (name, raw)) :
    text = name ++ "=" ++ raw := by
  have hparts := List.takeWhile_append_dropWhile (p := fun c => decide (c ≠ '=')) (l := text.toList)
  rw [splitAssignment, List.span_eq_takeWhile_dropWhile] at h
  split at h
  · cases h
  · next front c rest _ hspan =>
    obtain ⟨hfront, hrest⟩ := Prod.mk.inj hspan
    have hc : c = '=' := by
      have hhead := List.head?_dropWhile_not (fun c => decide (c ≠ '=')) text.toList
      rw [hrest] at hhead
      simpa using hhead
    cases h
    rw [hfront, hrest, hc] at hparts
    rw [← String.toList_inj, ← hparts]
    simp
  · cases h

end Keys

section Record

variable {m : Manifest} {key : Key} {given given' : List Occurrence} {value : Bytes}
    {position : Nat}

/-- An assignment is to a parameter of the manifest. -/
theorem readAssignment_taken {text : String} {o : Occurrence}
    (h : readAssignment m position text = .ok o) :
    ∃ p raw, m.parameter? p.name = some p ∧ text = p.name ++ "=" ++ raw ∧
      o = .assignment position p.name raw := by
  rw [readAssignment] at h
  split at h
  · cases h
  · next name raw hsplit =>
    split at h
    · next hknown =>
      obtain ⟨p, hp⟩ := Option.isSome_iff_exists.1 hknown
      obtain ⟨-, rfl⟩ := mem_of_parameter? hp
      exact ⟨p, raw, hp, eq_of_splitAssignment hsplit, (Except.ok.inj h).symm⟩
    · cases h

theorem readParameter_taken {p : Parameter} {raw : String} {o : Occurrence}
    (h : readParameter p position raw = .ok o) :
    (∃ resolved, p.resolve raw = .ok resolved) ∧ o = .parameter position p.name raw := by
  refine ⟨?_, readParameter_eq_ok h⟩
  rw [readParameter] at h
  split at h
  · next resolved hresolve => exact ⟨resolved, hresolve⟩
  · cases h

theorem encode_of_textOf {s : String} (h : textOf value = .ok s) : encode s = value := by
  rw [textOf] at h
  split at h
  · next hdecode =>
    cases h
    exact Text.encode_of_decode? hdecode
  · cases h

/-- **A value that is taken note of is that of an item**, in either spelling. -/
theorem record_taken (hm : m.check = .ok ()) (hkey : key? m key.name = some key)
    (htakes : key.takesValue = true) (h : Progress.record m given key position value = .ok given')
    (attached : Bool) (halone : attached = false → StandsAlone value) :
    ∃ item : Item, item.Taken m ∧ item.key = key ∧ item.value? = some value ∧
      item.isAttached = attached ∧ given' = given ++ [item.occurrence position] := by
  cases key with
  | held held =>
    obtain ⟨u, -, h⟩ := of_bind_eq_ok h
    obtain ⟨o, ho, h⟩ := of_bind_eq_ok h
    cases h
    refine ⟨.held held value attached, ⟨fun s hs => ?_, fun s hs => ?_, fun v hv hattached => ?_⟩,
      rfl, rfl, rfl, ?_⟩
    · cases hs
    · cases hs
    · exact Option.some.inj hv ▸ halone hattached
    · rw [readHeld_eq_ok ho]
      rfl
  | assignment =>
    obtain ⟨text, htext, h⟩ := of_bind_eq_ok h
    obtain ⟨o, ho, h⟩ := of_bind_eq_ok h
    cases h
    obtain ⟨p, raw, hp, rfl, rfl⟩ := readAssignment_taken ho
    obtain rfl := encode_of_textOf htext
    refine ⟨.setting p raw true attached, ⟨fun s hs => ?_, fun s hs hne => ?_,
      fun v hv hattached => ?_⟩, rfl, rfl, rfl, rfl⟩
    · cases hs
      exact hp
    · exact absurd rfl hne
    · exact Option.some.inj hv ▸ halone hattached
  | parameter p =>
    obtain ⟨text, htext, h⟩ := of_bind_eq_ok h
    obtain ⟨o, ho, h⟩ := of_bind_eq_ok h
    cases h
    obtain ⟨hresolve, rfl⟩ := readParameter_taken ho
    obtain rfl := encode_of_textOf htext
    have hp := Manifest.parameter?_name hm (mem_of_key?_parameter hkey).1
    refine ⟨.setting p text false attached, ⟨fun s hs => ?_, fun s hs _ => ?_,
      fun v hv hattached => ?_⟩, rfl, rfl, rfl, rfl⟩
    · cases hs
      exact hp
    · cases hs
      exact hresolve
    · exact Option.some.inj hv ▸ halone hattached
  | switch s => cases htakes
  | help => cases htakes
  | version => cases htakes

/-- An option without a value that is taken note of is a switch. -/
theorem recordSwitch_taken {calledAs : String} (htakes : key.takesValue = false)
    (h : Progress.recordSwitch m calledAs given key = .ok given') :
    ∃ s, key = .switch s ∧ given' = given ++ [.switch s] := by
  cases key with
  | switch s =>
    obtain ⟨u, -, h⟩ := of_bind_eq_ok h
    cases h
    exact ⟨s, rfl, rfl⟩
  | help => cases h
  | version => cases h
  | held held => cases htakes
  | assignment => cases htakes
  | parameter p => cases htakes

theorem taken_switch (s : Switch) : (Item.switch s).Taken m :=
  ⟨fun _ hs => (nomatch hs), fun _ hs => (nomatch hs), fun _ hv => (nomatch hv)⟩

theorem words_switch (s : Switch) :
    (Item.switch s).words = [dash :: dash :: assigned (encode (Key.switch s).name) none] := by
  simp only [Item.words, Item.value?, encode_dashes]
  rfl

end Record

/-! ## Words -/

section Words

variable {items items' : List Item} {item : Item} {start : Nat}

theorem occurrences_append (start : Nat) (items items' : List Item) :
    Item.occurrences start (items ++ items') = Item.occurrences start items ++
      Item.occurrences (start + (items.flatMap Item.words).length) items' := by
  induction items generalizing start with
  | nil => rfl
  | cons item items ih =>
    rw [List.cons_append, Item.occurrences, Item.occurrences, ih, List.flatMap_cons,
      List.length_append, Nat.add_assoc]
    rfl

/-- One more item is read at the last of its words. -/
theorem occurrences_concat (items : List Item) (item : Item) :
    Item.occurrences 0 (items ++ [item]) = Item.occurrences 0 items ++
      [item.occurrence ((items.flatMap Item.words).length + item.words.length - 1)] := by
  rw [occurrences_append, Nat.zero_add]
  rfl

end Words

namespace Progress

/-! ## Steps -/

/-- The words of an option that waits. -/
def waitingWords : Option (Key × Option (Nat × Bytes)) → List Bytes
  | none => []
  | some (key, none) => [dash :: dash :: assigned (encode key.name) none]
  | some (key, some (_, value)) => [dash :: dash :: assigned (encode key.name) none, value]

/-- Only an option of the manifest that takes a value waits for one; the value is the last of so
many words if it came already. -/
def Waits (m : Manifest) (count : Nat) : Option (Key × Option (Nat × Bytes)) → Prop
  | none => True
  | some (key, value) => key? m key.name = some key ∧ key.takesValue = true ∧
      ∀ v, value = some v → v.1 + 1 = count ∧ StandsAlone v.2

/-- A reader has read the words of items, and perhaps of one more that waits.  This is what a step
of the reader keeps, so it holds at the end of an accepted command line. -/
structure Reads (m : Manifest) (words : List Bytes) (items : List Item) (p : Progress) : Prop where
  taken : ∀ item ∈ items, item.Taken m
  given : p.given = Item.occurrences 0 items
  spelled : words = items.flatMap Item.words ++ waitingWords p.waiting
  waits : Waits m words.length p.waiting

variable {m : Manifest} {p p' q : Progress} {words arguments : List Bytes} {items : List Item}
  {given : List Occurrence} {calledAs : String} {position : Nat} {argument name : Bytes}
  {value : Option Bytes} {item : Item}

/-- Items that were taken note of, and all that was read are their words. -/
structure ItemsRead (m : Manifest) (words : List Bytes) (given : List Occurrence)
    (items : List Item) : Prop where
  taken : ∀ item ∈ items, item.Taken m
  given : given = Item.occurrences 0 items
  spelled : words = items.flatMap Item.words

theorem ItemsRead.concat (h : ItemsRead m words given items) (hitem : item.Taken m) :
    ItemsRead m (words ++ item.words)
      (given ++ [item.occurrence (words.length + item.words.length - 1)]) (items ++ [item]) := by
  obtain ⟨htaken, rfl, rfl⟩ := h
  refine ⟨fun x hx => ?_, (occurrences_concat items item).symm, ?_⟩
  · rcases List.mem_append.1 hx with hx | hx
    · exact htaken x hx
    · exact List.mem_singleton.1 hx ▸ hitem
  · rw [List.flatMap_append, List.flatMap_singleton]

theorem ItemsRead.reads (h : ItemsRead m words given items) (escaped : Bool) :
    Reads m words items ⟨given, none, escaped⟩ :=
  ⟨h.taken, h.given, h.spelled.trans (List.append_nil _).symm, trivial⟩

/-- **What waits becomes an item** when it is taken note of. -/
theorem Reads.settle (hm : m.check = .ok ()) (h : Reads m words items p)
    (hsettle : p.settle m = .ok given) : ∃ items', ItemsRead m words given items' := by
  obtain ⟨before, waiting, escaped⟩ := p
  obtain ⟨htaken, hgiven, hwords, hwaits⟩ := h
  rw [Progress.settle] at hsettle
  split at hsettle
  · next hwaiting =>
    cases hwaiting
    cases hsettle
    exact ⟨items, htaken, hgiven, hwords.trans (List.append_nil _)⟩
  · cases hsettle
  · next key position value hwaiting =>
    cases hwaiting
    obtain ⟨hkey, htakes, hvalue⟩ := hwaits
    obtain ⟨hposition, halone⟩ := hvalue _ rfl
    obtain ⟨item, hitem, rfl, hitemValue, hattached, rfl⟩ :=
      record_taken hm hkey htakes hsettle false fun _ => halone
    have hitemsRead : ItemsRead m (items.flatMap Item.words) before items := ⟨htaken, hgiven, rfl⟩
    have hitemWords := words_separate hitemValue hattached
    refine ⟨items ++ [item], ?_⟩
    have hconcat := hitemsRead.concat hitem
    have hlength : (items.flatMap Item.words).length + item.words.length = words.length := by
      rw [hwords, waitingWords, List.length_append, hitemWords]
    rw [hlength, ← hposition, Nat.add_sub_cancel] at hconcat
    rw [hwords, waitingWords, ← hitemWords]
    exact hconcat

theorem name_of_decode? {key : Key} (h : (Text.decode? name).bind (key? m) = some key) :
    encode key.name = name ∧ key? m key.name = some key := by
  obtain ⟨s, hs, hkey⟩ := Option.bind_eq_some_iff.1 h
  obtain rfl := name_of_key? hkey
  exact ⟨Text.encode_of_decode? hs, hkey⟩

/-- An option is read, with a value behind an equals sign or none. -/
theorem readLong_reads (hm : m.check = .ok ()) (h : Reads m words items p)
    (hshape : Shape.of argument = .long name value) (hescaped : p.escaped = false)
    (hread : p.readLong m calledAs words.length name value = .ok p') :
    p'.escaped = false ∧ ∃ items', Reads m (words ++ [argument]) items' p' := by
  obtain ⟨-, -, rfl⟩ := Shape.of_eq_long_iff.1 hshape
  rw [readLong] at hread
  split at hread
  · cases hread
  next key hkey =>
  obtain ⟨rfl, hfound⟩ := name_of_decode? hkey
  split at hread
  · next htakes =>
    obtain ⟨given, hsettle, hread⟩ := of_bind_eq_ok hread
    obtain ⟨items', hitemsRead⟩ := h.settle hm hsettle
    split at hread
    · next v =>
      obtain ⟨noted, hrecord, hread⟩ := of_bind_eq_ok hread
      cases hread
      obtain ⟨item, hitem, rfl, hvalue, hattached, rfl⟩ :=
        record_taken hm hfound htakes hrecord true (by simp)
      have hconcat := hitemsRead.concat hitem
      rw [words_attached hvalue hattached] at hconcat
      exact ⟨hescaped, _, hconcat.reads _⟩
    · cases hread
      refine ⟨hescaped, items', hitemsRead.taken, hitemsRead.given, ?_, hfound, htakes,
        by simp⟩
      rw [hitemsRead.spelled]
      rfl
  · next htakes =>
    split at hread
    · cases hread
    · obtain ⟨given, hsettle, hread⟩ := of_bind_eq_ok hread
      obtain ⟨noted, hrecord, hread⟩ := of_bind_eq_ok hread
      cases hread
      obtain ⟨items', hitemsRead⟩ := h.settle hm hsettle
      obtain ⟨s, rfl, rfl⟩ := recordSwitch_taken (by simpa using htakes) hrecord
      have hconcat := hitemsRead.concat (taken_switch s)
      rw [words_switch] at hconcat
      exact ⟨hescaped, _, hconcat.reads _⟩

/-- An argument that is no option is the value that was waited for. -/
theorem readPlain_reads (h : Reads m words items p) (hshape : Shape.of argument = .plain)
    (hread : p.readPlain words.length argument = .ok p') :
    p'.escaped = p.escaped ∧ Reads m (words ++ [argument]) items p' := by
  obtain ⟨before, waiting, escaped⟩ := p
  obtain ⟨htaken, hgiven, hwords, hwaits⟩ := h
  rw [readPlain] at hread
  split at hread
  · next key hwaiting =>
    cases hwaiting
    cases hread
    refine ⟨rfl, htaken, hgiven, ?_, hwaits.1, hwaits.2.1, fun v hv => ?_⟩
    · rw [hwords, List.append_assoc]
      rfl
    · cases hv
      exact ⟨by rw [List.length_append, List.length_singleton], standsAlone_iff.2 hshape⟩
  · cases hread

/-- **A step reads one more word of an item**, unless it ends the options. -/
theorem read_reads (hm : m.check = .ok ()) (h : Reads m words items p)
    (hescaped : p.escaped = false) (hread : p.read m calledAs (words.length, argument) = .ok p') :
    (p'.escaped = false ∧ ∃ items', Reads m (words ++ [argument]) items' p') ∨
      argument = [dash, dash] ∧ p' = { p with escaped := true } := by
  rw [read, hescaped, if_neg Bool.false_ne_true] at hread
  split at hread
  · next hshape => exact .inr ⟨Shape.of_eq_escape_iff.1 hshape, (Except.ok.inj hread).symm⟩
  · next hshape => exact .inl (readLong_reads hm h hshape hescaped hread)
  · exact absurd hread readShort_ne_ok
  · next hshape =>
    obtain ⟨hsame, hreads⟩ := readPlain_reads h hshape hread
    exact .inl ⟨hsame.trans hescaped, items, hreads⟩

/-- All that was read are the words of items, perhaps with two dashes behind them. -/
theorem exists_itemsRead (hm : m.check = .ok ()) (h : Reads m words items p)
    (hescaped : p.escaped = false)
    (hread : (numbered words.length arguments).foldlM (read m calledAs) p = .ok q)
    (hsettle : q.settle m = .ok given) :
    ∃ items', (ItemsRead m (words ++ arguments) given items' ∨
      ∃ front, words ++ arguments = front ++ [[dash, dash]] ∧ ItemsRead m front given items') := by
  induction arguments generalizing words items p with
  | nil =>
    cases hread
    obtain ⟨items', hitemsRead⟩ := h.settle hm hsettle
    exact ⟨items', .inl (by rwa [List.append_nil])⟩
  | cons argument arguments ih =>
    obtain ⟨p', hfirst, hrest⟩ := of_bind_eq_ok hread
    rcases read_reads hm h hescaped hfirst with ⟨hescaped', items', hreads⟩ | ⟨rfl, rfl⟩
    · have hlength : words.length + 1 = (words ++ [argument]).length := by
        rw [List.length_append, List.length_singleton]
      rw [hlength] at hrest
      rw [← List.singleton_append, ← List.append_assoc]
      exact ih hreads hescaped' hrest
    · -- The options have ended, so that nothing can follow.
      obtain ⟨hnil, rfl⟩ := eq_nil_of_escaped rfl hrest
      obtain rfl : arguments = [] := by
        cases arguments with
        | nil => rfl
        | cons argument arguments => cases hnil
      obtain ⟨items', hitemsRead⟩ := h.settle hm hsettle
      exact ⟨items', .inr ⟨words, rfl, hitemsRead⟩⟩

end Progress

/-! ## The command line -/

/-- **An accepted command line was written as items**, perhaps with two dashes at its end. -/
theorem exists_items {m : Manifest} {calledAs : String} {arguments : List Bytes}
    {given : List Occurrence} (hm : m.check = .ok ())
    (h : occurrences m calledAs arguments = .ok given) :
    ∃ items ending, (∀ item ∈ items, item.Taken m) ∧ given = Item.occurrences 0 items ∧
      arguments = items.flatMap Item.words ++ ending ∧ (ending = [] ∨ ending = [[dash, dash]]) := by
  obtain ⟨q, hread, h⟩ := of_bind_eq_ok h
  obtain ⟨settled, hsettle, h⟩ := of_bind_eq_ok h
  obtain ⟨u, -, h⟩ := of_bind_eq_ok h
  cases h
  have hstart : Progress.Reads m [] [] {} := ⟨fun _ h => (nomatch h), rfl, rfl, trivial⟩
  rw [List.range_eq_range', Progress.range_zip] at hread
  obtain ⟨items, hitems⟩ := Progress.exists_itemsRead hm hstart rfl hread hsettle
  rcases hitems with hitemsRead | ⟨front, harguments, hitemsRead⟩
  · refine ⟨items, [], hitemsRead.taken, hitemsRead.given, ?_, .inl rfl⟩
    rw [List.append_nil]
    exact hitemsRead.spelled
  · refine ⟨items, [[dash, dash]], hitemsRead.taken, hitemsRead.given, ?_, .inr rfl⟩
    rw [← hitemsRead.spelled]
    exact harguments

end CommandLine
end KernelRegistry
