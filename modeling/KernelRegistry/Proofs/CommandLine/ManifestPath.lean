import KernelRegistry.Proofs.CommandLine.Shape
import KernelRegistry.Proofs.Except
import KernelRegistry.Run

/-!
# The scan for the manifest

The path of the manifest is looked for before the command line can be read.  The scan knows one
option and nothing of values, so it may take the value of another option for this one, or miss that
this one ended.  It does not do so on a command line that is accepted.

* `Progress.manifest?` — the path that the reader of the command line has found.
* `Progress.ahead` — the path that the scan finds in the arguments to come.
* `Progress.read_manifest` — a step of the reader changes neither.
* `manifestPath_eq` — **the scan finds the path that the command line gives**.
-/

set_option autoImplicit false
namespace KernelRegistry
namespace CommandLine

open Text (Bytes encode)

/-! ## The option -/

section Option

variable {m : Manifest} {name : String} {key : Key}

theorem key?_manifest (m : Manifest) : key? m "manifest" = some (.held .manifest) := by
  rw [key?, keys, List.append_assoc, List.find?_append]
  rfl

theorem name_of_key? (h : key? m name = some key) : key.name = name := by
  simpa using List.find?_some h

/-- The name of the option is the name of no other one. -/
theorem eq_manifest_iff (h : key? m name = some key) :
    name = "manifest" ↔ key = .held .manifest := by
  constructor
  · rintro rfl
    exact Option.some.inj (h.symm.trans (key?_manifest m))
  · rintro rfl
    exact (name_of_key? h).symm

end Option

/-! ## The scan -/

section Scan

variable {argument : Bytes} {arguments : List Bytes} {name : String} {value : Option Bytes}

theorem manifestOption_eq : manifestOption = dash :: dash :: encode "manifest" := by decide

/-- One step of the scan. -/
theorem givenManifest?_cons (argument : Bytes) (arguments : List Bytes) :
    givenManifest? (argument :: arguments) =
      if argument = [dash, dash] then none
      else if argument = manifestOption then arguments.head?.map Path.mk
      else
        match attachedManifest? argument with
        | some path => some (.ofString (Text.decodeLossy path))
        | none => givenManifest? arguments := by
  rw [givenManifest?.eq_def]
  cases arguments with
  | nil => rfl
  | cons path arguments => rfl

theorem scan_cons_of_not (hescape : argument ≠ [dash, dash]) (hoption : argument ≠ manifestOption)
    (hattached : ¬ (manifestOption ++ [equals]) <+: argument) :
    givenManifest? (argument :: arguments) = givenManifest? arguments := by
  have hprefix : (manifestOption ++ [equals]).isPrefixOf argument = false := by
    rw [← Bool.not_eq_true, List.isPrefixOf_iff_prefix]
    exact hattached
  rw [givenManifest?_cons, if_neg hescape, if_neg hoption, attachedManifest?, hprefix]
  rfl

/-- An argument that is no option is passed over. -/
theorem scan_plain (h : Shape.of argument = .plain) :
    givenManifest? (argument :: arguments) = givenManifest? arguments := by
  have hno : ∀ rest : Bytes, argument ≠ dash :: dash :: rest := by
    rintro rest rfl
    rcases Shape.of_eq_plain_iff.1 h with h | h
    · simp at h
    · exact h rfl
  refine scan_cons_of_not (hno []) (hno _) ?_
  rintro ⟨rest, hrest⟩
  exact hno _ hrest.symm

/-- Another option is passed over. -/
theorem scan_other (hshape : Shape.of argument = .long (encode name) value)
    (hname : name ≠ "manifest") :
    givenManifest? (argument :: arguments) = givenManifest? arguments := by
  obtain ⟨hequals, hne, rfl⟩ := Shape.of_eq_long_iff.1 hshape
  have hmanifest : equals ∉ encode "manifest" := by decide
  have hsplit : ∀ value', assigned (encode name) value ≠ assigned (encode "manifest") value' :=
    fun value' heq => hname (Text.encode_injective ((assigned_inj hequals hmanifest).1 heq).1)
  refine scan_cons_of_not ?_ ?_ ?_
  · intro heq
    exact hne (List.cons.inj (List.cons.inj heq).2).2
  · intro heq
    exact hsplit none (List.cons.inj (List.cons.inj heq).2).2
  · rintro ⟨rest, hrest⟩
    refine hsplit (some rest) ?_
    rw [manifestOption_eq] at hrest
    have htail := (List.cons.inj (List.cons.inj hrest).2).2
    rw [← htail]
    exact List.append_assoc _ _ _

/-- A path behind an equals sign is taken as it is shown. -/
theorem scan_attached (path : Bytes) (arguments : List Bytes) :
    givenManifest? ((manifestOption ++ [equals] ++ path) :: arguments) =
      some (.ofString (Text.decodeLossy path)) := by
  have hprefix : (manifestOption ++ [equals]).isPrefixOf (manifestOption ++ [equals] ++ path) =
      true :=
    List.isPrefixOf_iff_prefix.2 (List.prefix_append _ _)
  have hlength : (manifestOption ++ [equals]).length = manifestOption.length + 1 := by simp
  have hoption : manifestOption ++ [equals] ++ path ≠ manifestOption := fun heq => by
    simpa using congrArg List.length heq
  have hescape : manifestOption ++ [equals] ++ path ≠ [dash, dash] := by
    rw [manifestOption_eq]
    intro heq
    cases (List.cons.inj (List.cons.inj heq).2).2
  rw [givenManifest?_cons, if_neg hescape, if_neg hoption, attachedManifest?, if_pos hprefix,
    ← hlength, List.drop_left]

theorem scan_assigned (path : Bytes) (hpath : IsText path)
    (hshape : Shape.of argument = .long (encode "manifest") (some path)) :
    givenManifest? (argument :: arguments) = some ⟨path⟩ := by
  obtain ⟨-, -, rfl⟩ := Shape.of_eq_long_iff.1 hshape
  have hargument : dash :: dash :: assigned (encode "manifest") (some path) =
      manifestOption ++ [equals] ++ path := by
    rw [manifestOption_eq, assigned, List.append_assoc]
    rfl
  rw [hargument, scan_attached]
  exact congrArg (fun bytes => some (Path.mk bytes)) hpath.encode_decodeLossy

theorem scan_separate (hshape : Shape.of argument = .long (encode "manifest") none) :
    givenManifest? (argument :: arguments) = arguments.head?.map Path.mk := by
  obtain ⟨-, -, rfl⟩ := Shape.of_eq_long_iff.1 hshape
  have hescape : manifestOption ≠ [dash, dash] := by decide
  rw [assigned, ← manifestOption_eq, givenManifest?_cons, if_neg hescape, if_pos rfl]

end Scan

/-! ## The reader -/

section Held

variable {m : Manifest} {given given' : List Occurrence} {key : Key} {position : Nat}
    {value : Bytes}
  {calledAs : String}

theorem heldValue?_concat (given : List Occurrence) (o : Occurrence) (h : Held) :
    heldValue? (given ++ [o]) h = (heldValue? given h).or (heldValue? [o] h) := by
  rw [heldValue?, heldValue?, heldValue?, List.findSome?_append]

theorem readHeld_eq_ok {h : Held} {o : Occurrence} (hread : readHeld h value = .ok o) :
    o = .held h value := by
  cases h with
  | location => exact (Except.ok.inj hread).symm
  | python =>
    obtain ⟨s, -, rfl⟩ := of_map_eq_ok hread
    rfl
  | manifest =>
    rw [readHeld] at hread
    split at hread
    · cases hread
    · exact (Except.ok.inj hread).symm

theorem readAssignment_eq_ok {text : String} {o : Occurrence}
    (h : readAssignment m position text = .ok o) :
    ∃ name raw, o = .assignment position name raw := by
  rw [readAssignment] at h
  split at h
  · cases h
  · split at h
    · exact ⟨_, _, (Except.ok.inj h).symm⟩
    · cases h

theorem readParameter_eq_ok {p : Parameter} {raw : String} {o : Occurrence}
    (h : readParameter p position raw = .ok o) : o = .parameter position p.name raw := by
  rw [readParameter] at h
  split at h
  · exact (Except.ok.inj h).symm
  · cases h

/-- A value that is taken note of is found if it is the option's. -/
theorem record_manifest (h : Progress.record m given key position value = .ok given') :
    heldValue? given' .manifest =
      (heldValue? given .manifest).or (if key = .held .manifest then some value else none) := by
  cases key with
  | held held =>
    obtain ⟨u, -, h⟩ := of_bind_eq_ok h
    obtain ⟨o, ho, h⟩ := of_bind_eq_ok h
    cases h
    rw [heldValue?_concat, readHeld_eq_ok ho]
    congr 1
    simp [heldValue?]
  | assignment =>
    obtain ⟨text, -, h⟩ := of_bind_eq_ok h
    obtain ⟨o, ho, h⟩ := of_bind_eq_ok h
    cases h
    obtain ⟨name, raw, rfl⟩ := readAssignment_eq_ok ho
    exact heldValue?_concat given _ _
  | parameter p =>
    obtain ⟨text, -, h⟩ := of_bind_eq_ok h
    obtain ⟨o, ho, h⟩ := of_bind_eq_ok h
    cases h
    obtain rfl := readParameter_eq_ok ho
    exact heldValue?_concat given _ _
  | switch s =>
    cases h
    exact Option.or_none.symm
  | help =>
    cases h
    exact Option.or_none.symm
  | version =>
    cases h
    exact Option.or_none.symm

theorem recordSwitch_manifest (h : Progress.recordSwitch m calledAs given key = .ok given') :
    heldValue? given' .manifest = heldValue? given .manifest := by
  cases key with
  | switch s =>
    obtain ⟨u, -, h⟩ := of_bind_eq_ok h
    cases h
    rw [heldValue?_concat]
    exact Option.or_none
  | help => cases h
  | version => cases h
  | held held => cases h; rfl
  | assignment => cases h; rfl
  | parameter p => cases h; rfl

end Held

namespace Progress

variable {m : Manifest} {p p' q : Progress} {given : List Occurrence} {calledAs : String}
  {position : Nat} {argument name : Bytes} {value : Option Bytes} {arguments : List Bytes}

/-- The value of the option in an argument of its own, if it came already. -/
def held? : Option (Key × Option (Nat × Bytes)) → Option Bytes
  | some (.held .manifest, some (_, value)) => some value
  | _ => none

/-- The path that was found so far. -/
def manifest? (p : Progress) : Option Bytes :=
  (heldValue? p.given .manifest).or (held? p.waiting)

/-- The path that the scan finds in the arguments to come, after those that were read. -/
def ahead (p : Progress) (arguments : List Bytes) : Option Bytes :=
  if p.escaped then none
  else if p.waiting = some (.held .manifest, none) then arguments.head?
  else (givenManifest? arguments).map Path.bytes

section States

variable {escaped : Bool} {key : Key}

@[simp] theorem manifest?_none :
    manifest? ⟨given, none, escaped⟩ = heldValue? given .manifest :=
  Option.or_none

@[simp] theorem manifest?_waiting :
    manifest? ⟨given, some (key, none), escaped⟩ = heldValue? given .manifest := by
  have hheld : held? (some (key, none)) = none := by
    rw [held?.eq_def]
    split
    · next h => cases h
    · rfl
  rw [manifest?, hheld, Option.or_none]

@[simp] theorem manifest?_valued {path : Bytes} :
    manifest? ⟨given, some (key, some (position, path)), escaped⟩ =
      (heldValue? given .manifest).or (if key = .held .manifest then some path else none) := by
  have hheld : held? (some (key, some (position, path))) =
      if key = .held .manifest then some path else none := by
    cases key with
    | held h => cases h <;> rfl
    | _ => rfl
  rw [manifest?, hheld]

@[simp] theorem ahead_escaped {waiting : Option (Key × Option (Nat × Bytes))} :
    ahead ⟨given, waiting, true⟩ arguments = none := rfl

@[simp] theorem ahead_none :
    ahead ⟨given, none, false⟩ arguments = (givenManifest? arguments).map Path.bytes := by
  simp [ahead]

@[simp] theorem ahead_waiting : ahead ⟨given, some (key, none), false⟩ arguments =
    if key = .held .manifest then arguments.head?
    else (givenManifest? arguments).map Path.bytes := by
  simp [ahead]

@[simp] theorem ahead_valued {path : Bytes} :
    ahead ⟨given, some (key, some (position, path)), false⟩ arguments =
      (givenManifest? arguments).map Path.bytes := by
  simp [ahead]

end States

/-- An option that waits for a value cannot be taken note of. -/
theorem waiting_of_settle (h : p.settle m = .ok given) (key : Key) :
    p.waiting ≠ some (key, none) := by
  intro hwaiting
  rw [settle, hwaiting] at h
  cases h

/-- Only what was found is taken note of, and the scan is at an option then. -/
theorem settle_manifest (arguments : List Bytes) (h : p.settle m = .ok given) :
    heldValue? given .manifest = p.manifest? ∧ (p.escaped = false →
      p.ahead arguments = (givenManifest? arguments).map Path.bytes) := by
  obtain ⟨before, waiting, escaped⟩ := p
  rw [settle] at h
  split at h
  · next hwaiting =>
    cases hwaiting
    cases h
    refine ⟨manifest?_none.symm, ?_⟩
    rintro ⟨⟩
    exact ahead_none
  · cases h
  · next hwaiting =>
    cases hwaiting
    refine ⟨(record_manifest h).trans manifest?_valued.symm, ?_⟩
    rintro ⟨⟩
    exact ahead_valued

/-! ### One argument -/

theorem readLong_manifest (htext : IsText argument) (hshape : Shape.of argument = .long name value)
    (hescaped : p.escaped = false) (h : p.readLong m calledAs position name value = .ok p')
    (arguments : List Bytes) :
    p'.manifest?.or (p'.ahead arguments) = p.manifest?.or (p.ahead (argument :: arguments)) := by
  obtain ⟨-, -, hargument⟩ := Shape.of_eq_long_iff.1 hshape
  obtain ⟨⟨n, rfl⟩, hvalue⟩ := (hargument ▸ htext).long
  rw [readLong, Text.decode?_encode, Option.bind_some] at h
  split at h
  · cases h
  next key hkey =>
  have hother : key ≠ .held .manifest →
      givenManifest? (argument :: arguments) = givenManifest? arguments := fun hne =>
    scan_other hshape fun hname => hne ((eq_manifest_iff hkey).1 hname)
  have hname : key = .held .manifest → n = "manifest" := (eq_manifest_iff hkey).2
  split at h
  · obtain ⟨settled, hsettle, h⟩ := of_bind_eq_ok h
    obtain ⟨hfound, hahead⟩ := settle_manifest (argument :: arguments) hsettle
    rw [hahead hescaped, ← hfound]
    split at h
    · next path _ =>
      -- The value stands behind an equals sign.
      obtain ⟨noted, hrecord, h⟩ := of_bind_eq_ok h
      cases h
      rw [hescaped, manifest?_none, ahead_none, record_manifest hrecord]
      by_cases hmanifest : key = .held .manifest
      · obtain rfl := hname hmanifest
        rw [if_pos hmanifest, scan_assigned path (hvalue path rfl) hshape, Option.or_assoc]
        rfl
      · rw [if_neg hmanifest, Option.or_none, hother hmanifest]
    · -- The value is the next argument.
      cases h
      rw [hescaped, manifest?_waiting, ahead_waiting]
      by_cases hmanifest : key = .held .manifest
      · obtain rfl := hname hmanifest
        rw [if_pos hmanifest, scan_separate hshape, Option.map_map]
        exact congrArg _ Option.map_id'.symm
      · rw [if_neg hmanifest, hother hmanifest]
  · next htakes =>
    have hne : key ≠ .held .manifest := by
      rintro rfl
      exact htakes rfl
    split at h
    · cases h
    · obtain ⟨settled, hsettle, h⟩ := of_bind_eq_ok h
      obtain ⟨noted, hrecord, h⟩ := of_bind_eq_ok h
      obtain ⟨hfound, hahead⟩ := settle_manifest (argument :: arguments) hsettle
      cases h
      rw [hahead hescaped, ← hfound, hescaped, manifest?_none, ahead_none,
        recordSwitch_manifest hrecord, hother hne]

/-- The letters only ask for texts. -/
theorem readShort_ne_ok {letters : Bytes} : p.readShort m calledAs letters ≠ .ok p' := by
  intro h
  rw [readShort] at h
  split at h
  · split at h
    · next c _ key hkey =>
      obtain ⟨given, -, h⟩ := of_bind_eq_ok h
      obtain ⟨given', hrecord, h⟩ := of_bind_eq_ok h
      rw [letterKey?] at hkey
      split at hkey
      · cases hkey
        cases hrecord
      split at hkey
      · cases hkey
        cases hrecord
      · cases hkey
    · cases h
  · cases h

theorem readPlain_manifest (hshape : Shape.of argument = .plain) (hescaped : p.escaped = false)
    (h : p.readPlain position argument = .ok p') (arguments : List Bytes) :
    p'.manifest?.or (p'.ahead arguments) = p.manifest?.or (p.ahead (argument :: arguments)) := by
  obtain ⟨before, waiting, escaped⟩ := p
  obtain rfl : escaped = false := hescaped
  rw [readPlain] at h
  split at h
  · next key hwaiting =>
    cases hwaiting
    cases h
    rw [manifest?_valued, ahead_valued, manifest?_waiting, ahead_waiting]
    by_cases hmanifest : key = .held .manifest
    · rw [if_pos hmanifest, if_pos hmanifest, Option.or_assoc]
      rfl
    · rw [if_neg hmanifest, if_neg hmanifest, Option.or_none, scan_plain hshape]
  · cases h

/-- **A step of the reader changes neither** what was found nor what the scan will find, unless it
ends the options while one of them waits for a value. -/
theorem read_manifest (htext : IsText argument)
    (h : p.read m calledAs (position, argument) = .ok p')
    (hends : p'.escaped = true → ∀ key, p'.waiting ≠ some (key, none)) (arguments : List Bytes) :
    p'.manifest?.or (p'.ahead arguments) = p.manifest?.or (p.ahead (argument :: arguments)) := by
  rw [read] at h
  split at h
  · cases h
  next hescaped =>
  replace hescaped : p.escaped = false := by simpa using hescaped
  split at h
  · next hshape =>
    obtain ⟨before, waiting, escaped⟩ := p
    obtain rfl : escaped = false := hescaped
    cases h
    have hscan : givenManifest? (argument :: arguments) = none := by
      rw [givenManifest?_cons, if_pos (Shape.of_eq_escape_iff.1 hshape)]
    have hnone : ahead ⟨before, waiting, false⟩ (argument :: arguments) = none := by
      rw [ahead, if_neg Bool.false_ne_true, if_neg (hends rfl _), hscan]
      rfl
    rw [hnone]
    rfl
  · next hshape => exact readLong_manifest htext hshape hescaped h arguments
  · exact absurd h readShort_ne_ok
  · next hshape => exact readPlain_manifest hshape hescaped h arguments

/-! ### All arguments -/

/-- After the options have ended no argument is accepted. -/
theorem eq_nil_of_escaped (hescaped : p.escaped = true) {numbered : List (Nat × Bytes)}
    (h : numbered.foldlM (read m calledAs) p = .ok q) : numbered = [] ∧ q = p := by
  cases numbered with
  | nil => exact ⟨rfl, (Except.ok.inj h).symm⟩
  | cons argument numbered =>
    obtain ⟨p', hread, -⟩ := of_bind_eq_ok h
    rw [read, if_pos hescaped] at hread
    cases hread

/-- **What a whole command line gives is what was found, or else what the scan finds ahead.** -/
theorem manifest_of_reads {numbered : List (Nat × Bytes)} (htext : ∀ a ∈ numbered, IsText a.2)
    (h : numbered.foldlM (read m calledAs) p = .ok q) (hsettle : q.settle m = .ok given) :
    heldValue? given .manifest = p.manifest?.or (p.ahead (numbered.map Prod.snd)) := by
  induction numbered generalizing p with
  | nil =>
    cases h
    have hnone : q.ahead [] = none := by
      rw [ahead]
      split
      · rfl
      split
      · rfl
      · rfl
    rw [List.map_nil, hnone, Option.or_none]
    exact (settle_manifest [] hsettle).1
  | cons argument numbered ih =>
    obtain ⟨p', hread, hrest⟩ := of_bind_eq_ok h
    have hends : p'.escaped = true → ∀ key, p'.waiting ≠ some (key, none) := by
      intro hescaped
      obtain ⟨-, rfl⟩ := eq_nil_of_escaped hescaped hrest
      exact waiting_of_settle hsettle
    rw [ih (fun a ha => htext a (List.mem_cons_of_mem _ ha)) hrest,
      read_manifest (htext argument List.mem_cons_self) hread hends, List.map_cons]

end Progress

/-! ## The whole command line -/

theorem map_snd_numbered (arguments : List Bytes) :
    ((List.range arguments.length).zip arguments).map Prod.snd = arguments :=
  List.map_snd_zip (Nat.le_of_eq (List.length_range).symm)

/-- **The scan finds the path that the command line gives.**  If a command line of texts is accepted
for some manifest, the manifest that was looked for before is the one that the command line names,
and the one beside the program if it names none. -/
theorem manifestPath_eq (m : Manifest) (argv : List String) (beside : Path)
    (invocation : Invocation) (h : Invocation.parse m (argv.map encode) = .ok invocation) :
    manifestPath beside (argv.map encode) =
      invocation.arguments.manifest.getD (manifestBeside beside) := by
  obtain ⟨given, hgiven, h⟩ := of_bind_eq_ok h
  obtain ⟨q, hread, hgiven⟩ := of_bind_eq_ok hgiven
  obtain ⟨settled, hsettle, hgiven⟩ := of_bind_eq_ok hgiven
  obtain ⟨u, -, hgiven⟩ := of_bind_eq_ok hgiven
  cases hgiven
  cases h
  have htext : ∀ a ∈ (List.range (argv.map encode).tail.length).zip (argv.map encode).tail,
      IsText a.2 := by
    intro a ha
    obtain ⟨s, -, hs⟩ := List.mem_map.1 (List.mem_of_mem_tail (List.of_mem_zip ha).2)
    exact ⟨s, hs.symm⟩
  have hmanifest := Progress.manifest_of_reads htext hread hsettle
  rw [map_snd_numbered] at hmanifest
  have hstart : ({} : Progress).manifest?.or (({} : Progress).ahead (argv.map encode).tail) =
      (givenManifest? (argv.map encode).tail).map Path.bytes := Progress.ahead_none
  have hgivenPath : (Arguments.of given).manifest = givenManifest? (argv.map encode).tail := by
    show (heldValue? given .manifest).map Path.mk = _
    rw [hmanifest, hstart, Option.map_map]
    exact Option.map_id'
  rw [manifestPath, hgivenPath]

namespace Sample

/-- A manifest with one parameter. -/
def titled : Manifest where
  kernelName := "demo"
  parameters := [{ name := "title", variableName := "TITLE", kind := .string }]

/-- A command line with a value that looks like the option, and the option after it. -/
def titledArguments : List String := ["install", "--title=--manifest=x", "--manifest", "m.json"]

/-- The invocation that the command line gives. -/
def titledInvocation : Invocation where
  arguments := {
    user := false, sysPrefix := false, location := none, legacy := false, replace := false,
    python := none, manifest := some (.ofString "m.json"), assignments := [], debug := false }
  settings := [⟨0, "title", "--manifest=x"⟩]

theorem parse_titled :
    Invocation.parse titled (titledArguments.map encode) = .ok titledInvocation := by
  decide +kernel

end Sample

/-- The value of the parameter is passed over. -/
theorem manifestPath_titled :
    Invocation.parse Sample.titled (Sample.titledArguments.map encode) =
        .ok Sample.titledInvocation ∧
      manifestPath (.ofString "/bin") (Sample.titledArguments.map encode) = .ofString "m.json" := by
  refine ⟨Sample.parse_titled, ?_⟩
  exact manifestPath_eq Sample.titled Sample.titledArguments (.ofString "/bin")
    Sample.titledInvocation Sample.parse_titled

end CommandLine
end KernelRegistry
