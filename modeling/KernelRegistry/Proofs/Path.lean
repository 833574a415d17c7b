import KernelRegistry.FileTree.Walk
import KernelRegistry.Proofs.Text.Utf8

/-!
# The names in a path

What a path says, apart from where it starts, is the list of its segments that are neither empty
nor a dot.  This file is about how that list responds to the operations on paths.

* `Path.IsName` — what can be the name of something in a directory.
* `Path.names` — the segments that count; `names_join`, `names_parent?` and
  `names_dropSlashes` are the equations the file operations rest on.
* `Path.within` — a path followed by names below it.
-/

set_option autoImplicit false
namespace KernelRegistry
namespace Path

open Text (Bytes)

theorem display_ofString (s : String) : (ofString s).display = s := Text.decodeLossy_encode s

/-! ## Segments -/

/-- A slash cuts a string of bytes in two. -/
theorem segments_append_slash (a b : Bytes) :
    segments (a ++ slash :: b) = segments a ++ segments b :=
  List.splitOn_append_cons_self a b

@[simp]
theorem segments_nil : segments [] = [[]] := rfl

theorem segments_of_not_mem {a : Bytes} (h : slash ∉ a) : segments a = [a] :=
  List.splitOn_eq_singleton h

theorem slash_not_mem_of_mem_segments {s : Bytes} {bytes : Bytes} (h : s ∈ segments bytes) :
    slash ∉ s := by
  induction bytes generalizing s with
  | nil =>
    rw [segments_nil, List.mem_singleton] at h
    simp [h]
  | cons b bs ih =>
    rw [segments, List.splitOn_cons_eq_if_modifyHead] at h
    split at h
    · rcases List.mem_cons.1 h with rfl | h
      · simp
      · exact ih h
    · next hb =>
      have hb' : slash ≠ b := fun h => hb (h ▸ beq_self_eq_true slash)
      cases hs : bs.splitOn slash with
      | nil => exact absurd hs (List.splitOn_ne_nil slash bs)
      | cons t ts =>
        rw [hs, List.modifyHead_cons] at h
        rcases List.mem_cons.1 h with rfl | h
        · have ht : slash ∉ t := ih (by rw [segments, hs]; exact List.mem_cons_self)
          simp [hb', ht]
        · exact ih (by rw [segments, hs]; exact List.mem_cons_of_mem _ h)

theorem joinSegments_segments (bytes : Bytes) : joinSegments (segments bytes) = bytes :=
  List.intercalate_splitOn slash

theorem segments_joinSegments {parts : List Bytes} (h : ∀ s ∈ parts, slash ∉ s)
    (hne : parts ≠ []) : segments (joinSegments parts) = parts :=
  List.splitOn_intercalate slash h hne

/-! ## Names -/

/-- The names that something in a directory can have.  A dot and two dots are segments of paths, but
no names. -/
structure IsName (name : Bytes) : Prop where
  nonempty : name ≠ []
  noSlash : slash ∉ name
  notDot : name ≠ [dot]
  notDots : name ≠ [dot, dot]

instance (name : Bytes) : Decidable (IsName name) :=
  decidable_of_iff (name ≠ [] ∧ slash ∉ name ∧ name ≠ [dot] ∧ name ≠ [dot, dot])
    ⟨fun h => ⟨h.1, h.2.1, h.2.2.1, h.2.2.2⟩,
     fun h => ⟨h.nonempty, h.noSlash, h.notDot, h.notDots⟩⟩

/-- The segments of a path that count.  Empty segments and single dots stand for the directory that
the path has come to. -/
def names (p : Path) : List Bytes := (segments p.bytes).filter (!isTrivial ·)

theorem isTrivial_iff {s : Bytes} : isTrivial s = true ↔ s = [] ∨ s = [dot] := by
  simp [isTrivial]

theorem IsName.not_isTrivial {name : Bytes} (h : IsName name) : isTrivial name = false := by
  rw [← Bool.not_eq_true, isTrivial_iff]
  exact not_or.2 ⟨h.nonempty, h.notDot⟩

@[simp]
theorem names_nil : names ⟨[]⟩ = [] := rfl

theorem names_of_not_mem {s : Bytes} (hslash : slash ∉ s) (hs : isTrivial s = false) :
    names ⟨s⟩ = [s] := by
  rw [names, segments_of_not_mem hslash, List.filter_cons_of_pos (by simp [hs]), List.filter_nil]

theorem IsName.names_eq {name : Bytes} (h : IsName name) : names ⟨name⟩ = [name] :=
  names_of_not_mem h.noSlash h.not_isTrivial

theorem of_mem_names {p : Path} {s : Bytes} (h : s ∈ p.names) :
    slash ∉ s ∧ isTrivial s = false := by
  obtain ⟨hmem, hcounts⟩ := List.mem_filter.1 h
  exact ⟨slash_not_mem_of_mem_segments hmem, by simpa using hcounts⟩

theorem names_append_slash (a b : Bytes) : names ⟨a ++ slash :: b⟩ = names ⟨a⟩ ++ names ⟨b⟩ := by
  rw [names, segments_append_slash, List.filter_append]
  rfl

/-- The names of a path spelled by segments are the segments that count. -/
theorem names_joinSegments {parts : List Bytes} (h : ∀ s ∈ parts, slash ∉ s) :
    names ⟨joinSegments parts⟩ = parts.filter (!isTrivial ·) := by
  cases parts with
  | nil => rfl
  | cons s ss => rw [names, segments_joinSegments h (List.cons_ne_nil s ss)]

/-! ### Joining -/

theorem isAbsolute_of_not_mem {s : Bytes} (h : slash ∉ s) : isAbsolute ⟨s⟩ = false := by
  cases s with
  | nil => rfl
  | cons b bs =>
    have hb : b ≠ slash := fun hb => h (hb ▸ List.mem_cons_self)
    simp [isAbsolute, hb]

theorem isAbsolute_eq_false_of_isName {name : Bytes} (h : IsName name) :
    isAbsolute ⟨name⟩ = false :=
  isAbsolute_of_not_mem h.noSlash

theorem isEmpty_join {base : Path} (h : base.bytes ≠ []) (p : Path) :
    (base.join p).isEmpty = false := by
  rw [join]
  split
  · next habs =>
    cases hp : p.bytes with
    | nil => simp [isAbsolute, hp] at habs
    | cons b bs => rw [isEmpty, hp]; rfl
  · split <;> simp [isEmpty, h]

/-- The names of a joined path are those of its parts. -/
theorem names_join {base p : Path} (h : p.isAbsolute = false) :
    (base.join p).names = base.names ++ p.names := by
  rw [join, if_neg (by simp [h])]
  split
  · next hb =>
    rcases Bool.or_eq_true_iff.1 hb with hb | hb
    · have : base.bytes = [] := by simpa [isEmpty] using hb
      simp [names, this, isTrivial]
    · obtain ⟨a, ha⟩ := List.getLast?_eq_some_iff.1 (of_decide_eq_true hb)
      have hbase : base.names = names ⟨a⟩ := by
        rw [names, ha, segments_append_slash, List.filter_append]
        simp [names, isTrivial]
      rw [hbase, ha, List.append_assoc, List.singleton_append]
      exact names_append_slash a p.bytes
  · exact names_append_slash base.bytes p.bytes

theorem isAbsolute_join {base p : Path} (h : p.isAbsolute = false) :
    (base.join p).isAbsolute = base.isAbsolute := by
  rw [join, if_neg (by simp [h])]
  cases hb : base.bytes with
  | nil => simpa [isAbsolute, isEmpty, hb] using h
  | cons b bs => split <;> simp [isAbsolute, hb]

/-- The segments of a relative path come last in the path that it is joined to. -/
theorem segments_join_of_relative (base : Path) {p : Path} (h : p.isAbsolute = false) :
    ∃ pre, segments (base.join p).bytes = pre ++ segments p.bytes ∧
      pre.filter (!isTrivial ·) = base.names := by
  rw [join, if_neg (by simp [h])]
  split
  · next hb =>
    rcases Bool.or_eq_true_iff.1 hb with hb | hb
    · have hbase : base.bytes = [] := by simpa [isEmpty] using hb
      exact ⟨[], by rw [hbase]; rfl, by rw [names, hbase]; rfl⟩
    · obtain ⟨a, ha⟩ := List.getLast?_eq_some_iff.1 (of_decide_eq_true hb)
      refine ⟨segments a, ?_, ?_⟩
      · rw [ha, List.append_assoc, List.singleton_append, segments_append_slash]
      · rw [names, ha, segments_append_slash, List.filter_append]
        simp [isTrivial]
  · exact ⟨segments base.bytes, segments_append_slash _ _, rfl⟩

/-- A name comes last in the path that it is joined to. -/
theorem segments_join (base : Path) {name : Bytes} (h : IsName name) :
    ∃ pre, segments (base.join ⟨name⟩).bytes = pre ++ [name] ∧
      pre.filter (!isTrivial ·) = base.names := by
  have hjoin := segments_join_of_relative base (isAbsolute_eq_false_of_isName h)
  rwa [segments_of_not_mem h.noSlash] at hjoin

/-- A path followed by names below it. -/
def within (p : Path) (below : List Bytes) : Path := p.extend (below.map .name)

@[simp]
theorem within_nil (p : Path) : p.within [] = p := rfl

theorem within_cons (p : Path) (name : Bytes) (below : List Bytes) :
    p.within (name :: below) = (p.join ⟨name⟩).within below := rfl

theorem within_concat (p : Path) (below : List Bytes) (name : Bytes) :
    p.within (below ++ [name]) = (p.within below).join ⟨name⟩ := by
  simp [within, extend, Component.bytes]

theorem names_within {p : Path} {below : List Bytes} (h : ∀ name ∈ below, IsName name) :
    (p.within below).names = p.names ++ below := by
  induction below generalizing p with
  | nil => simp
  | cons name rest ih =>
    have hname : IsName name := h name List.mem_cons_self
    rw [within_cons, ih fun n hn => h n (List.mem_cons_of_mem _ hn),
      names_join (isAbsolute_eq_false_of_isName hname), hname.names_eq, List.append_assoc,
      List.singleton_append]

theorem isAbsolute_within {p : Path} {below : List Bytes} (h : ∀ name ∈ below, IsName name) :
    (p.within below).isAbsolute = p.isAbsolute := by
  induction below generalizing p with
  | nil => rfl
  | cons name rest ih =>
    rw [within_cons, ih fun n hn => h n (List.mem_cons_of_mem _ hn),
      isAbsolute_join (isAbsolute_eq_false_of_isName (h name List.mem_cons_self))]

/-! ### Leaving out the end -/

/-- Leaving out segments that do not count at the end leaves no other names. -/
theorem filter_trimTrivial (parts : List Bytes) :
    (trimTrivial parts).filter (!isTrivial ·) = parts.filter (!isTrivial ·) := by
  have h : ∀ l : List Bytes,
      (l.dropWhile isTrivial).filter (!isTrivial ·) = l.filter (!isTrivial ·) := by
    intro l
    induction l with
    | nil => rfl
    | cons s ss ih =>
      by_cases hs : isTrivial s = true
      · rw [List.dropWhile_cons_of_pos hs, ih, List.filter_cons_of_neg (by simp [hs])]
      · rw [List.dropWhile_cons_of_neg hs]
  rw [trimTrivial, List.filter_reverse, h, List.filter_reverse, List.reverse_reverse]

/-- The start of a path and the bytes after it make up the path. -/
theorem head_bytes (p : Path) :
    p.bytes = (p.head.1.map Component.bytes).getD [] ++ p.head.2 := by
  rw [head]
  split
  · next h => simp [h]
  · next b rest h =>
    rw [h]
    split
    · next hb => simp [Component.bytes, hb]
    · split
      · next hb =>
        rw [Bool.and_eq_true, decide_eq_true_eq] at hb
        simp [Component.bytes, hb.1]
      · simp

/-- The names of a path are those of what comes after its start. -/
theorem names_head (p : Path) : names ⟨p.head.2⟩ = p.names := by
  rw [head]
  split
  · next h => simp [names, h]
  · next b rest h =>
    have hp : p = ⟨b :: rest⟩ := by rw [← h]
    rw [hp]
    split
    · next hb => exact hb ▸ (names_append_slash [] rest).symm
    · split
      · next hb =>
        rw [Bool.and_eq_true, decide_eq_true_eq] at hb
        obtain ⟨rfl, hrest⟩ := hb
        cases rest with
        | nil => rfl
        | cons c cs =>
          have hc : c = slash := by simpa using hrest
          subst hc
          exact (names_append_slash [] cs).trans (names_append_slash [dot] cs).symm
      · rfl

theorem names_start (p : Path) : names ⟨(p.head.1.map Component.bytes).getD []⟩ = [] := by
  rw [head]
  split
  · rfl
  · split
    · rfl
    · split <;> rfl

theorem isAbsolute_start (p : Path) :
    isAbsolute ⟨(p.head.1.map Component.bytes).getD []⟩ = p.isAbsolute := by
  rw [head]
  split
  · next h => simp [isAbsolute, h]
  · next b rest h =>
    split
    · next hb => simp [isAbsolute, h, hb, Component.bytes]
    · next hb =>
      split
      · next hdot =>
        rw [Bool.and_eq_true, decide_eq_true_eq] at hdot
        simp [isAbsolute, h, hb, Component.bytes, ← hdot.1]
      · simp [isAbsolute, h, hb]

theorem joinSegments_append {a b : List Bytes} (ha : a ≠ []) (hb : b ≠ []) :
    joinSegments (a ++ b) = joinSegments a ++ slash :: joinSegments b := by
  induction a with
  | nil => exact absurd rfl ha
  | cons s ss ih =>
    cases ss with
    | nil =>
      cases b with
      | nil => exact absurd rfl hb
      | cons t ts => simp [joinSegments, List.intercalate_cons_cons]
    | cons t ts =>
      have := ih (List.cons_ne_nil t ts)
      simp only [joinSegments, List.cons_append, List.intercalate_cons_cons] at this ⊢
      rw [this]
      simp

/-- Segments are cut in three by the last one that counts. -/
theorem eq_append_of_dropWhile {parts before : List Bytes} {last : Bytes}
    (h : parts.reverse.dropWhile isTrivial = last :: before) :
    isTrivial last = false ∧ ∃ after, parts = before.reverse ++ last :: after ∧
      after.filter (!isTrivial ·) = [] := by
  refine ⟨?_, (parts.reverse.takeWhile isTrivial).reverse, ?_, ?_⟩
  · have := List.head?_dropWhile_not isTrivial parts.reverse
    rwa [h] at this
  · have := congrArg List.reverse
      (List.takeWhile_append_dropWhile (p := isTrivial) (l := parts.reverse))
    rw [h] at this
    simpa using this.symm
  · rw [List.filter_reverse, List.reverse_eq_nil_iff, List.filter_eq_nil_iff]
    intro s hs
    have := List.all_takeWhile (p := isTrivial) (l := parts.reverse)
    simpa using List.all_eq_true.1 this s hs

theorem trimTrivial_append (parts : List Bytes) : ∃ rest, parts = trimTrivial parts ++ rest := by
  refine ⟨(parts.reverse.takeWhile isTrivial).reverse, ?_⟩
  have := List.takeWhile_append_dropWhile (p := isTrivial) (l := parts.reverse)
  rw [trimTrivial, ← List.reverse_append, this, List.reverse_reverse]

/-- The bytes before the last segment that counts are a first part of all bytes. -/
theorem exists_joinSegments_trimmed {body : Bytes} {before after : List Bytes} {last : Bytes}
    (hsegs : segments body = before.reverse ++ last :: after)
    (htrimmed : trimTrivial before.reverse ≠ []) :
    ∃ rest, before.reverse = trimTrivial before.reverse ++ rest ∧
      body = joinSegments (trimTrivial before.reverse) ++
        slash :: joinSegments (rest ++ last :: after) := by
  obtain ⟨rest, hrest⟩ := trimTrivial_append before.reverse
  refine ⟨rest, hrest, ?_⟩
  rw [← joinSegments_append htrimmed (by simp), ← List.append_assoc, ← hrest, ← hsegs,
    joinSegments_segments]

/-- A path without its last name is spelled by the names before it. -/
theorem names_trimmed {p : Path} {before after : List Bytes} {last : Bytes}
    (hsegs : segments p.head.2 = before.reverse ++ last :: after)
    (hlast : isTrivial last = false) (hafter : after.filter (!isTrivial ·) = []) :
    let q : Path :=
      ⟨(p.head.1.map Component.bytes).getD [] ++ joinSegments (trimTrivial before.reverse)⟩
    p.names = q.names ++ [last] ∧ q.isAbsolute = p.isAbsolute := by
  intro q
  have hslash : ∀ s ∈ segments p.head.2, slash ∉ s := fun s => slash_not_mem_of_mem_segments
  have hp : p.names = (before.reverse ++ last :: after).filter (!isTrivial ·) := by
    rw [← names_head p, names, hsegs]
  have hlast' : [last].filter (!isTrivial ·) = [last] := by simp [hlast]
  by_cases htr : trimTrivial before.reverse = []
  · have hq : q = ⟨(p.head.1.map Component.bytes).getD []⟩ := by
      simp [q, htr, joinSegments]
    rw [hq, names_start, isAbsolute_start]
    refine ⟨?_, rfl⟩
    have hbefore := filter_trimTrivial before.reverse
    rw [htr] at hbefore
    rw [hp, List.filter_append, ← hbefore, List.filter_cons_of_pos (by simp [hlast]), hafter]
    rfl
  · obtain ⟨rest, hrest, hbody⟩ := exists_joinSegments_trimmed hsegs htr
    have hbytes : p = ⟨q.bytes ++ slash :: joinSegments (rest ++ last :: after)⟩ := by
      have := head_bytes p
      rw [hbody, ← List.append_assoc] at this
      rw [← this]
    have hrest' : rest.filter (!isTrivial ·) = [] := by
      have := filter_trimTrivial before.reverse
      rw [hrest, List.filter_append, ← hrest] at this
      exact List.append_right_eq_self.1 this.symm
    constructor
    · rw [hbytes, names_append_slash, names_joinSegments, List.filter_append, hrest',
        List.filter_cons_of_pos (by simp [hlast]), hafter]
      · rfl
      · intro s hs
        refine hslash s ?_
        rw [hsegs, hrest, List.append_assoc]
        exact List.mem_append_right _ hs
    · cases hq : q.bytes with
      | nil =>
        have hstart : (p.head.1.map Component.bytes).getD [] = [] := (List.append_eq_nil_iff.1 hq).1
        rw [← isAbsolute_start p, hstart, isAbsolute, hq]
        rfl
      | cons b bs =>
        rw [hbytes, isAbsolute, isAbsolute, hq]
        rfl

/-- **The parent of a path lacks its last name**, and starts where the path starts. -/
theorem names_parent? {p q : Path} (h : p.parent? = some q) :
    q.names = p.names.dropLast ∧ q.isAbsolute = p.isAbsolute := by
  cases hdrop : (segments p.head.2).reverse.dropWhile isTrivial with
  | nil =>
    simp only [parent?, hdrop, Option.ite_none_right_eq_some, Option.some.injEq] at h
    obtain ⟨hstart, rfl⟩ := h
    have hnames : p.names = [] := by
      have := filter_trimTrivial (segments p.head.2)
      rw [trimTrivial, hdrop] at this
      rw [← names_head p]
      exact this.symm
    refine ⟨by rw [hnames]; rfl, ?_⟩
    rw [← isAbsolute_start p, hstart]
    rfl
  | cons last before =>
    obtain ⟨hlast, after, hsegs, hafter⟩ := eq_append_of_dropWhile hdrop
    obtain ⟨hnames, habs⟩ := names_trimmed hsegs hlast hafter
    have hq : q = ⟨(p.head.1.map Component.bytes).getD [] ++
        joinSegments (trimTrivial before.reverse)⟩ := by
      simp only [parent?, hdrop] at h
      exact (Option.some.inj h).symm
    rw [hq, hnames, List.dropLast_concat]
    exact ⟨rfl, habs⟩

theorem names_eq_nil_of_all_slash {bytes : Bytes} (h : ∀ b ∈ bytes, b = slash) :
    names ⟨bytes⟩ = [] := by
  induction bytes with
  | nil => rfl
  | cons b bs ih =>
    obtain rfl := h b List.mem_cons_self
    have := names_append_slash [] bs
    rw [ih fun c hc => h c (List.mem_cons_of_mem _ hc)] at this
    exact this

theorem names_append_of_all_slash (a : Bytes) {bytes : Bytes} (h : ∀ b ∈ bytes, b = slash) :
    names ⟨a ++ bytes⟩ = names ⟨a⟩ := by
  cases bytes with
  | nil => rw [List.append_nil]
  | cons b bs =>
    obtain rfl := h b List.mem_cons_self
    rw [names_append_slash, names_eq_nil_of_all_slash fun c hc => h c (List.mem_cons_of_mem _ hc),
      List.append_nil]

/-- Only slashes are dropped from the end of a path, and not the one that it starts with. -/
theorem dropSlashes_append (p : Path) :
    (FileTree.dropSlashes p).isAbsolute = p.isAbsolute ∧ ∃ slashes, (∀ b ∈ slashes, b = slash) ∧
      p.bytes = (FileTree.dropSlashes p).bytes ++ slashes := by
  have hcut := congrArg List.reverse
    (List.takeWhile_append_dropWhile (p := (· = slash)) (l := p.bytes.reverse))
  rw [List.reverse_append, List.reverse_reverse] at hcut
  have hall : ∀ b ∈ (p.bytes.reverse.takeWhile (· = slash)).reverse, b = slash := by
    intro b hb
    have := List.all_takeWhile (p := (· = slash)) (l := p.bytes.reverse)
    simpa using List.all_eq_true.1 this b (List.mem_reverse.1 hb)
  rw [FileTree.dropSlashes]
  split
  · next hnil =>
    rw [hnil, List.reverse_nil, List.nil_append] at hcut
    rw [hcut] at hall
    split
    · next habs =>
      refine ⟨habs.symm, p.bytes.tail, fun b hb => hall b (List.mem_of_mem_tail hb), ?_⟩
      cases hbytes : p.bytes with
      | nil => simp [isAbsolute, hbytes] at habs
      | cons b bs => rw [hall b (by simp [hbytes])]; rfl
    · exact ⟨rfl, [], by simp, (List.append_nil _).symm⟩
  · next hcons =>
    refine ⟨?_, _, hall, hcut.symm⟩
    conv => rhs; rw [isAbsolute, ← hcut]
    rw [isAbsolute]
    cases hd : (p.bytes.reverse.dropWhile (· = slash)).reverse with
    | nil => exact absurd (List.reverse_eq_nil_iff.1 hd) hcons
    | cons b bs => rfl

/-- **Slashes at the end of a path say nothing**, for its names and for where it starts. -/
theorem names_dropSlashes (p : Path) :
    (FileTree.dropSlashes p).names = p.names ∧
      (FileTree.dropSlashes p).isAbsolute = p.isAbsolute := by
  obtain ⟨habs, slashes, hall, hbytes⟩ := dropSlashes_append p
  have hp : p = ⟨(FileTree.dropSlashes p).bytes ++ slashes⟩ := congrArg Path.mk hbytes
  refine ⟨?_, habs⟩
  conv => rhs; rw [hp]
  exact (names_append_of_all_slash _ hall).symm

theorem segments_append_of_all_slash (a : Bytes) {slashes : Bytes} (h : ∀ b ∈ slashes, b = slash) :
    ∃ more, more.all (·.isEmpty) = true ∧ segments (a ++ slashes) = segments a ++ more := by
  induction slashes generalizing a with
  | nil => exact ⟨[], rfl, by rw [List.append_nil, List.append_nil]⟩
  | cons b bs ih =>
    obtain rfl := h b List.mem_cons_self
    obtain ⟨more, hmore, hsegments⟩ := ih [] fun c hc => h c (List.mem_cons_of_mem _ hc)
    rw [List.nil_append] at hsegments
    exact ⟨[] :: more, hmore, by rw [segments_append_slash, hsegments]; rfl⟩

theorem exists_bytes_join (base : Path) {name : Bytes} (h : IsName name) :
    ∃ before, (base.join ⟨name⟩).bytes = before ++ name := by
  rw [join, if_neg (by simp [isAbsolute_eq_false_of_isName h])]
  split
  · exact ⟨base.bytes, rfl⟩
  · exact ⟨base.bytes ++ [slash], by simp⟩

theorem head_join {base p : Path} (hbase : base.bytes ≠ []) (hp : p.isAbsolute = false) :
    (base.join p).head.1 = base.head.1 := by
  obtain ⟨b, bs, hb⟩ := List.exists_cons_of_ne_nil hbase
  obtain ⟨rest, hrest, hempty⟩ : ∃ rest, (base.join p).bytes = b :: rest ∧
      (b ≠ slash → (rest.isEmpty || rest.head? = some slash) =
        (bs.isEmpty || bs.head? = some slash)) := by
    rw [join, if_neg (by simp [hp])]
    split
    · next hlast =>
      refine ⟨bs ++ p.bytes, by rw [hb]; rfl, fun hne => ?_⟩
      cases bs with
      | nil => simp [isEmpty, hb, hne] at hlast
      | cons c cs => simp
    · refine ⟨bs ++ slash :: p.bytes, by rw [hb]; rfl, fun _ => ?_⟩
      cases bs <;> simp
  rw [head, head, hrest, hb]
  by_cases hslash : b = slash
  · simp [hslash]
  · have := hempty hslash
    simp only [if_neg hslash, this]
    split <;> rfl

/-- A path that ends in a name has no slashes at its end. -/
theorem dropSlashes_join (base : Path) {name : Bytes} (h : IsName name) :
    FileTree.dropSlashes (base.join ⟨name⟩) = base.join ⟨name⟩ := by
  obtain ⟨before, hbefore⟩ := exists_bytes_join base h
  rcases List.eq_nil_or_concat name with rfl | ⟨init, last, hname⟩
  · exact absurd rfl h.nonempty
  rw [List.concat_eq_append] at hname
  have hlast : last ≠ slash := fun hlast => h.noSlash (by simp [hname, hlast])
  have hreverse : (base.join ⟨name⟩).bytes.reverse.dropWhile (· = slash) =
      last :: (before ++ init).reverse := by
    rw [hbefore, hname]
    simp [hlast]
  have hbytes : (base.join ⟨name⟩).bytes = (last :: (before ++ init).reverse).reverse := by
    rw [hbefore, hname]
    simp
  rw [FileTree.dropSlashes, hreverse]
  exact congrArg Path.mk hbytes.symm

/-! ### Paths that say the same

Where a path leads depends on where it starts and on its names only. -/

/-- `q` starts where `p` starts, and its names are those of `p` followed by `below`.  Slashes and
dots may be spelled in another way, since no tree can tell. -/
structure Follows (p : Path) (below : List Bytes) (q : Path) : Prop where
  names : q.names = p.names ++ below
  isAbsolute : q.isAbsolute = p.isAbsolute

namespace Follows

variable {p q : Path} {below : List Bytes} {name : Bytes}

theorem refl (p : Path) : Follows p [] p := ⟨(List.append_nil _).symm, rfl⟩

theorem within (p : Path) {below : List Bytes} (h : ∀ name ∈ below, IsName name) :
    Follows p below (p.within below) :=
  ⟨names_within h, isAbsolute_within h⟩

theorem join (h : Follows p below q) (hname : IsName name) :
    Follows p (below ++ [name]) (q.join ⟨name⟩) := by
  have habs := isAbsolute_eq_false_of_isName hname
  constructor
  · rw [names_join habs, hname.names_eq, h.names, List.append_assoc]
  · rw [isAbsolute_join habs, h.isAbsolute]

/-- A name that follows a path may as well belong to it. -/
theorem of_join (h : Follows p [name] q) (hname : IsName name) : Follows (p.join ⟨name⟩) [] q := by
  have hjoin := (refl p).join hname
  exact ⟨by rw [h.names, hjoin.names, List.append_nil, List.nil_append],
    h.isAbsolute.trans hjoin.isAbsolute.symm⟩

theorem within_nil (h : Follows p [] q) (hbelow : ∀ name ∈ below, IsName name) :
    Follows (p.within below) [] (q.within below) := by
  have hp := within p hbelow
  have hq := within q hbelow
  exact ⟨by rw [hq.names, hp.names, h.names, List.append_nil, List.append_nil],
    by rw [hq.isAbsolute, hp.isAbsolute, h.isAbsolute]⟩

theorem isEmpty_eq_false (h : Follows p (name :: below) q) : q.isEmpty = false := by
  have hnames := h.names
  cases hq : q.bytes with
  | nil => rw [Path.names, hq] at hnames; simp [isTrivial] at hnames
  | cons b bs => rw [isEmpty, hq]; rfl

theorem parent? (h : Follows p (below ++ [name]) q) {above : Path}
    (habove : q.parent? = some above) : Follows p below above := by
  obtain ⟨hnames, habs⟩ := names_parent? habove
  constructor
  · rw [hnames, h.names, ← List.append_assoc, List.dropLast_concat]
  · rw [habs, h.isAbsolute]

theorem dropSlashes (h : Follows p below q) : Follows p below (FileTree.dropSlashes q) := by
  obtain ⟨hnames, habs⟩ := names_dropSlashes q
  exact ⟨hnames.trans h.names, habs.trans h.isAbsolute⟩

end Follows
end Path
end KernelRegistry
