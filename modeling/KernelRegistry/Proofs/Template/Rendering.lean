import KernelRegistry.Proofs.Json.Canonical
import KernelRegistry.Proofs.Json.Real
import KernelRegistry.Proofs.Template.Substitution

/-!
# Rendered templates

What a template is rendered to is a text of the filled template's document with a table put into its
`env` member.

* `filledDocument` — the document of a filled template.
* `Merged` — the members of a document before and after a table was put into its `env`.
* `mergeEnvironment_eq_ok_iff`, `mergeEnvironment_merged` — when and how that is done.
* `render_reread` — what is rendered is read as the merged document, with floating-point numbers
  read anew.
* `parse_render` — **a template is rendered if it can be, and what is rendered is read as the merged
  document**.
-/

set_option autoImplicit false
namespace KernelRegistry
namespace Template

open Json

/-- The document of a filled template. -/
def filledDocument (template : String) (directory : Path) : Except Failure Json :=
  (parse (fill template directory)).map canonical

/-- The member `env` is an object, or missing. -/
def HasEnvironment (members : List (String × Json)) : Prop :=
  ∀ v, Entries.lookup "env" members = some v → ∃ inner, v = .object inner

/-- Members before and after a table was put into their `env`: there, what the table has under a key
is found as a string, and everything else as before; there is nothing else that changed. -/
structure Merged (env : Environment) (members merged : List (String × Json)) : Prop where
  canonical : Canonical (.object merged)
  elsewhere : ∀ key, key ≠ "env" → Entries.lookup key merged = Entries.lookup key members
  environment : ∃ inner inner',
    (Entries.lookup "env" members).getD (.object []) = .object inner ∧
    Entries.lookup "env" merged = some (.object inner') ∧
    ∀ key, Entries.lookup key inner' =
      ((env.get? key).map Json.string).or (Entries.lookup key inner)

/-- There is only one way to put a table into `env`. -/
theorem Merged.unique {env : Environment} {members merged merged' : List (String × Json)}
    (h : Merged env members merged) (h' : Merged env members merged') : merged = merged' := by
  obtain ⟨inner, own, hinner, hown, henv⟩ := h.environment
  obtain ⟨inner', own', hinner', hown', henv'⟩ := h'.environment
  cases hinner.symm.trans hinner'
  have hsorted : ∀ {members inner : List (String × Json)}, Canonical (.object members) →
      Entries.lookup "env" members = some (.object inner) → Entries.Sorted inner := fun hc hl =>
    (canonicalMembers_iff.1 hc.2 _ (Entries.mem_of_lookup hl)).1
  have hequal : own = own' := Entries.eq_of_lookup (hsorted h.canonical hown)
    (hsorted h'.canonical hown') fun key => (henv key).trans (henv' key).symm
  refine Entries.eq_of_lookup h.canonical.1 h'.canonical.1 fun key => ?_
  by_cases hkey : key = "env"
  · rw [hkey, hown, hown', hequal]
  · rw [h.elsewhere key hkey, h'.elsewhere key hkey]

/-! ## Putting a table into `env` -/

section Merge

variable {P : Number → Prop} {depth : Nat} {env : Environment} {v : Json}
  {members inner : List (String × Json)} {key : String}

theorem mergeEnvironment_eq_ok_iff : (∃ merged, mergeEnvironment env v = .ok merged) ↔
    ∃ members, v = .object members ∧ HasEnvironment members := by
  constructor
  · rintro ⟨merged, h⟩
    rw [mergeEnvironment.eq_def] at h
    split at h
    · next members =>
      split at h
      · next inner hinner =>
        refine ⟨members, rfl, fun v hv => ⟨inner, ?_⟩⟩
        rw [hv, Option.getD_some] at hinner
        exact hinner
      · cases h
    · cases h
  · rintro ⟨members, rfl, henv⟩
    cases hlookup : Entries.lookup "env" members with
    | none => exact ⟨_, by rw [mergeEnvironment, hlookup]; rfl⟩
    | some v =>
      obtain ⟨inner, rfl⟩ := henv v hlookup
      exact ⟨_, by rw [mergeEnvironment, hlookup]; rfl⟩

/-- Putting a table into a document is an insertion into the object that is there. -/
theorem mergeEnvironment_object {merged : Json}
    (h : mergeEnvironment env (.object members) = .ok merged) :
    ∃ inner, (Entries.lookup "env" members).getD (.object []) = .object inner ∧
      merged = .object (Entries.insert "env" (.object (insertAll env inner)) members) := by
  rw [mergeEnvironment] at h
  split at h
  · next inner hinner =>
    cases h
    exact ⟨inner, hinner, rfl⟩
  · cases h

theorem insertAll_eq (env : Environment) (members : List (String × Json)) :
    insertAll env members = (env.entries.map fun e => (e.1, Json.string e.2)).foldl
      (fun done entry => Entries.insert entry.1 entry.2 done) members := by
  rw [insertAll, List.foldl_map]

theorem lookup_insertAll (env : Environment) (inner : List (String × Json)) (key : String) :
    Entries.lookup key (insertAll env inner) =
      ((env.get? key).map Json.string).or (Entries.lookup key inner) := by
  have hsorted : Entries.Sorted (env.entries.map fun e => (e.1, Json.string e.2)) :=
    List.pairwise_map.2 env.sorted
  rw [insertAll_eq, Entries.lookup_foldl_insert hsorted, Entries.lookup_map]
  rfl

theorem mem_insertAll {m : String × Json} (h : m ∈ insertAll env inner) :
    (∃ s, m.2 = .string s) ∨ m ∈ inner := by
  rw [insertAll_eq] at h
  refine (Entries.mem_foldl_insert h).imp_left fun h => ?_
  obtain ⟨e, -, rfl⟩ := List.mem_map.1 h
  exact ⟨e.2, rfl⟩

theorem canonical_insertAll (h : Canonical (.object inner)) :
    Canonical (.object (insertAll env inner)) := by
  obtain ⟨hsorted, hmembers⟩ := h
  refine ⟨?_, canonicalMembers_iff.2 fun m hm => ?_⟩
  · rw [insertAll_eq]
    exact hsorted.foldl_insert
  · rcases mem_insertAll hm with ⟨s, hs⟩ | hm
    · rw [hs]
      exact trivial
    · exact canonicalMembers_iff.1 hmembers m hm

theorem canonical_insert (h : Canonical (.object members)) (hv : Canonical v) :
    Canonical (.object (Entries.insert key v members)) := by
  obtain ⟨hsorted, hmembers⟩ := h
  refine ⟨hsorted.insert key v, canonicalMembers_iff.2 fun m hm => ?_⟩
  rcases Entries.mem_insert hm with rfl | hm
  · exact hv
  · exact canonicalMembers_iff.1 hmembers m hm

/-- A property of all members, and of the empty object, holds of what is put under `env`. -/
theorem environment_of_members {Q : Json → Prop} (hempty : Q (.object []))
    (hmembers : ∀ m ∈ members, Q m.2)
    (h : (Entries.lookup "env" members).getD (.object []) = .object inner) : Q (.object inner) := by
  cases hlookup : Entries.lookup "env" members with
  | none =>
    rw [hlookup] at h
    exact h ▸ hempty
  | some v =>
    rw [hlookup] at h
    exact h ▸ hmembers _ (Entries.mem_of_lookup hlookup)

/-- **Putting a table into `env` changes what it should** and nothing else. -/
theorem mergeEnvironment_merged {merged : Json}
    (h : mergeEnvironment env (.object members) = .ok merged)
    (hcanonical : Canonical (.object members)) :
    ∃ members', merged = .object members' ∧ Merged env members members' := by
  obtain ⟨inner, hinner, rfl⟩ := mergeEnvironment_object h
  have hempty : Canonical (.object []) := ⟨List.Pairwise.nil, trivial⟩
  have hinside : Canonical (.object inner) :=
    environment_of_members hempty (canonicalMembers_iff.1 hcanonical.2) hinner
  refine ⟨_, rfl, canonical_insert hcanonical (canonical_insertAll hinside), ?_, inner, _, hinner,
    ?_, lookup_insertAll env inner⟩
  · intro key hkey
    rw [Entries.lookup_insert, if_neg (Ne.symm hkey)]
  · rw [Entries.lookup_insert, if_pos rfl]

theorem fits_insertAll (h : Fits P (depth + 2) (.object inner)) :
    Fits P (depth + 2) (.object (insertAll env inner)) := by
  cases h with
  | object h =>
    refine .object fun m hm => ?_
    rcases mem_insertAll hm with ⟨s, hs⟩ | hm
    · rw [hs]
      exact .string
    · exact h m hm

/-- Three brackets are enough for a new `env`, and none is added to one that is there. -/
theorem mergeEnvironment_fits {merged : Json} (h : mergeEnvironment env v = .ok merged)
    (hfits : Fits P (depth + 3) v) : Fits P (depth + 3) merged := by
  obtain ⟨members, rfl, -⟩ := mergeEnvironment_eq_ok_iff.1 ⟨merged, h⟩
  obtain ⟨inner, hinner, rfl⟩ := mergeEnvironment_object h
  cases hfits with
  | object hmembers =>
    have hempty : Fits P (depth + 2) (.object []) := .object fun m hm => by cases hm
    have hinside := environment_of_members hempty hmembers hinner
    refine .object fun m hm => ?_
    rcases Entries.mem_insert hm with rfl | hm
    · exact fits_insertAll hinside
    · exact hmembers m hm

end Merge

/-! ## Rendering -/

section Render

variable {template text : String} {directory : Path} {env : Environment} {v : Json}

theorem filledDocument_eq_ok (h : filledDocument template directory = .ok v) :
    Canonical v ∧ Fits Number.Readable depthLimit v := by
  obtain ⟨written, hwritten, rfl⟩ := of_map_eq_ok h
  exact ⟨canonical_canonical written, (parse_fits hwritten).canonical⟩

theorem render_eq_ok_iff : render template directory env = .ok text ↔
    ∃ v merged, filledDocument template directory = .ok v ∧ mergeEnvironment env v = .ok merged ∧
      text = pretty merged := by
  rw [render, document, filledDocument]
  cases hparse : parse (fill template directory) with
  | error failure => simp [Except.map]
  | ok written =>
    cases hmerge : mergeEnvironment env written.canonical with
    | error fault => simp [Except.map, hmerge]
    | ok merged => simp [Except.map, hmerge, eq_comm]

/-- **What is rendered is read as the merged document**, apart from floating-point numbers that are
not read as what they were printed for. -/
theorem render_reread (h : render template directory env = .ok text) :
    ∃ members merged, filledDocument template directory = .ok (.object members) ∧
      Merged env members merged ∧ text = pretty (.object merged) ∧
      parse text = .ok (Json.object merged).reread := by
  obtain ⟨v, merged, hfilled, hmerge, rfl⟩ := render_eq_ok_iff.1 h
  obtain ⟨members, rfl, -⟩ := mergeEnvironment_eq_ok_iff.1 ⟨merged, hmerge⟩
  obtain ⟨hcanonical, hfits⟩ := filledDocument_eq_ok hfilled
  obtain ⟨members', rfl, hmerged⟩ := mergeEnvironment_merged hmerge hcanonical
  exact ⟨members, members', hfilled, hmerged, rfl,
    parse_pretty_reread (mergeEnvironment_fits hmerge hfits)⟩

/-- **Rendered templates.**  A template is rendered exactly if the filled template is a document
that is an object, in which `env` is an object or missing.  If its numbers are integers, the
rendered text is read as that document with the table in its `env`. -/
theorem parse_render (template : String) (directory : Path) (env : Environment) :
    ((∃ text, render template directory env = .ok text) ↔
      ∃ members, filledDocument template directory = .ok (.object members) ∧
        HasEnvironment members) ∧
    ∀ (text : String) (members : List (String × Json)), render template directory env = .ok text →
      filledDocument template directory = .ok (.object members) →
      EveryNumber Number.IsInteger (.object members) →
      ∃ merged, parse text = .ok (.object merged) ∧ Merged env members merged := by
  refine ⟨⟨?_, ?_⟩, ?_⟩
  · rintro ⟨text, h⟩
    obtain ⟨v, merged, hfilled, hmerge, -⟩ := render_eq_ok_iff.1 h
    obtain ⟨members, rfl, henv⟩ := mergeEnvironment_eq_ok_iff.1 ⟨merged, hmerge⟩
    exact ⟨members, hfilled, henv⟩
  · rintro ⟨members, hfilled, henv⟩
    obtain ⟨merged, hmerge⟩ : ∃ merged, mergeEnvironment env (.object members) = .ok merged :=
      mergeEnvironment_eq_ok_iff.2 ⟨members, rfl, henv⟩
    exact ⟨_, render_eq_ok_iff.2 ⟨_, merged, hfilled, hmerge, rfl⟩⟩
  · rintro text members h hmembers ⟨_, hintegers⟩
    obtain ⟨v, merged, hfilled, hmerge, rfl⟩ := render_eq_ok_iff.1 h
    cases hmembers.symm.trans hfilled
    obtain ⟨hcanonical, hfits⟩ := filledDocument_eq_ok hmembers
    have hprinted : Fits Number.Printed depthLimit (.object members) :=
      (hfits.and hintegers).imp fun n hn => printed_of_readable hn.1 hn.2
    obtain ⟨members', rfl, hmerged⟩ := mergeEnvironment_merged hmerge hcanonical
    exact ⟨members', parse_pretty (mergeEnvironment_fits hmerge hprinted), hmerged⟩

end Render

namespace Sample

/-- The members of a kernel file that runs one program. -/
def kernelMembers (program : String) : List (String × Json) :=
  [("argv", .array [.string program]), ("env", .object [("A", .string "1"), ("B", .string "2")]),
    ("version", .number (.int (-3)))]

/-- The text of a template before its token. -/
def beforeToken : List Char := "\x7b\n    \"argv\": [\n        \"".toList

/-- The text of a template after its token. -/
def afterToken : List Char :=
  "\"\n    ],\n    \"env\": \x7b\n        \"A\": \"1\",\n        \"B\": \"2\"\n    \x7d,\n".toList ++
    "    \"version\": -3\n\x7d".toList

/-- A template in which the token is the program. -/
def kernelTemplate : String := String.ofList (beforeToken ++ (token ++ afterToken))

/-- A table with a new value for one of the variables, and another variable. -/
def overrides : Environment := ⟨[("B", "x"), ("C", "")], List.pairwise_pair.2 (by decide)⟩

/-- The text of the file with the table in its `env`. -/
def renderedText : String :=
  pretty (.object [("argv", .array [.string "/a\"b"]),
    ("env", .object [("A", .string "1"), ("B", .string "x"), ("C", .string "")]),
    ("version", .number (.int (-3)))])

theorem printed_kernelMembers (program : String) :
    Fits (fun n => n.Printed ∧ n.IsInteger) depthLimit (.object (kernelMembers program)) := by
  have hnumber : Number.Printed (.int (-3)) := printed_int (by decide) (by decide)
  refine .object fun m hm => ?_
  simp only [kernelMembers, List.mem_cons, List.not_mem_nil, or_false] at hm
  rcases hm with rfl | rfl | rfl
  · refine .array fun x hx => ?_
    rw [List.mem_singleton.1 hx]
    exact .string
  · refine .object fun m hm => ?_
    simp only [List.mem_cons, List.not_mem_nil, or_false] at hm
    rcases hm with rfl | rfl
    · exact .string
    · exact .string
  · exact .number ⟨hnumber, -3, rfl⟩

theorem fill_kernelTemplate :
    fill kernelTemplate (.ofString "/a\"b") = pretty (.object (kernelMembers "/a\"b")) := by
  have hfragment : (pathFragment (.ofString "/a\"b")).toList = "/a\\\"b".toList := by decide +kernel
  have hbefore : '@' ∉ beforeToken := by decide
  have hafter : ¬ token <:+: afterToken := by decide +kernel
  rw [fill, kernelTemplate, String.toList_ofList, replaceToken_skip hbefore, replaceToken_eq,
    pieces_token_append (by decide), pieces_of_not_infix hafter, hfragment]
  decide +kernel

theorem filledDocument_kernelTemplate : filledDocument kernelTemplate (.ofString "/a\"b") =
    .ok (.object (kernelMembers "/a\"b")) := by
  have hprinted := (printed_kernelMembers "/a\"b").imp fun n hn => hn.1
  rw [filledDocument, fill_kernelTemplate, parse_pretty hprinted]
  rfl

theorem render_kernelTemplate :
    render kernelTemplate (.ofString "/a\"b") overrides = .ok renderedText :=
  render_eq_ok_iff.2 ⟨_, _, filledDocument_kernelTemplate, rfl, rfl⟩

end Sample

/-- A directory with a quote, and a table that changes one variable and adds another. -/
theorem parse_render_kernelTemplate :
    render Sample.kernelTemplate (.ofString "/a\"b") Sample.overrides = .ok Sample.renderedText ∧
      ∃ merged, parse Sample.renderedText = .ok (.object merged) ∧
        Merged Sample.overrides (Sample.kernelMembers "/a\"b") merged := by
  refine ⟨Sample.render_kernelTemplate, ?_⟩
  obtain ⟨-, hread⟩ := parse_render Sample.kernelTemplate (.ofString "/a\"b") Sample.overrides
  have hintegers := (Sample.printed_kernelMembers "/a\"b").imp fun n hn => hn.2
  exact hread _ _ Sample.render_kernelTemplate Sample.filledDocument_kernelTemplate ⟨_, hintegers⟩

end Template
end KernelRegistry
