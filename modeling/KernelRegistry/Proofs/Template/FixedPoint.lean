import KernelRegistry.Proofs.Template.Rendering
import KernelRegistry.Proofs.Text.Utf8

/-!
# Rendering a rendered template

The text of an installed file is a template itself, for other directories and with other tables.

* `KeysIncrease` — in every object of a document the keys increase, as strings of bytes.
* `document_merged` — the document of an installed file.
* `fill_of_not_infix` — without a token there is nothing to fill in.
* `Merged.again` — putting a table into `env` twice is putting it there once.
* `render_again` — **in an installed file the keys increase, and rendering it again with the same
  table gives the same text**, whatever the directory, if no token is left in it.

Only documents whose numbers are integers come back as the same text: a floating-point number can be
read as a neighbour of what it was printed for.
-/

set_option autoImplicit false
namespace KernelRegistry
namespace Template

open Json

/-- In every object at every depth the bytes of the keys increase from each member to any later one,
so no key occurs twice. -/
def KeysIncrease (v : Json) : Prop :=
  ∀ members, Subdocument (.object members) v →
    members.Pairwise fun m m' => Text.encode m.1 < Text.encode m'.1

section Again

variable {template text : String} {directory : Path} {env : Environment} {v value : Json}
  {members merged : List (String × Json)}

theorem keysIncrease_of_canonical (h : Canonical v) : KeysIncrease v := fun _ hsub =>
  (h.subdocument hsub).1.imp fun hlt => Text.encode_lt hlt

theorem document_eq_ok_iff : document template directory env = .ok value ↔
    ∃ v, filledDocument template directory = .ok v ∧ mergeEnvironment env v = .ok value := by
  rw [document, filledDocument]
  cases parse (fill template directory) <;> simp [Except.map]

/-- The document of an installed file is canonical, and within the limits of what is read. -/
theorem document_merged (h : document template directory env = .ok value) :
    ∃ members merged, value = .object merged ∧ Merged env members merged ∧
      Fits Number.Readable depthLimit value := by
  obtain ⟨v, hfilled, hmerge⟩ := document_eq_ok_iff.1 h
  obtain ⟨members, rfl, -⟩ := mergeEnvironment_eq_ok_iff.1 ⟨value, hmerge⟩
  obtain ⟨hcanonical, hfits⟩ := filledDocument_eq_ok hfilled
  obtain ⟨merged, rfl, hmerged⟩ := mergeEnvironment_merged hmerge hcanonical
  exact ⟨members, merged, rfl, hmerged, mergeEnvironment_fits hmerge hfits⟩

/-- Putting a table into members a second time changes nothing. -/
theorem Merged.again (h : Merged env members merged) : Merged env merged merged := by
  obtain ⟨inner, inner', -, hinner', henv⟩ := h.environment
  refine ⟨h.canonical, fun _ _ => rfl, inner', inner', by rw [hinner', Option.getD_some], hinner',
    fun key => ?_⟩
  rw [henv, ← Option.or_assoc, Option.or_self]

theorem mergeEnvironment_again (h : Merged env members merged) :
    mergeEnvironment env (.object merged) = .ok (.object merged) := by
  obtain ⟨inner, inner', -, hinner', -⟩ := h.environment
  have henv : HasEnvironment merged := fun v hv => ⟨inner', Option.some.inj (hv.symm.trans hinner')⟩
  obtain ⟨value, hmerge⟩ := mergeEnvironment_eq_ok_iff.2 ⟨merged, rfl, henv⟩
  obtain ⟨merged', rfl, hmerged'⟩ := mergeEnvironment_merged hmerge h.canonical
  rw [hmerge, hmerged'.unique h.again]

/-- Without a token there is nothing to fill in. -/
theorem fill_of_not_infix (h : ¬ token <:+: text.toList) (directory : Path) :
    fill text directory = text := by
  rw [fill, replaceToken_eq, pieces_of_not_infix h]
  simp

/-- A canonical document with the table in its `env`, written down, is rendered to itself. -/
theorem render_pretty (hprinted : Fits Number.Printed depthLimit (.object merged))
    (h : Merged env members merged) (hfree : ¬ token <:+: (pretty (.object merged)).toList)
    (directory : Path) :
    render (pretty (.object merged)) directory env = .ok (pretty (.object merged)) := by
  refine render_eq_ok_iff.2 ⟨.object merged, .object merged, ?_, mergeEnvironment_again h, rfl⟩
  rw [filledDocument, fill_of_not_infix hfree, parse_pretty hprinted]
  exact congrArg Except.ok (canonical_eq_self h.canonical)

/-- **Rendered texts.**  In the text of an installed file the keys of every object increase.  If the
numbers of its document are integers and no token is left in it, rendering it again with the same
table gives the same text, for every directory. -/
theorem render_again (h : render template directory env = .ok text) :
    (∃ written, parse text = .ok written ∧ KeysIncrease written) ∧
    ∀ value, document template directory env = .ok value → EveryNumber Number.IsInteger value →
      ¬ token <:+: text.toList → ∀ other : Path, render text other env = .ok text := by
  obtain ⟨value, hdocument, rfl⟩ := of_map_eq_ok h
  obtain ⟨members, merged, rfl, hmerged, hfits⟩ := document_merged hdocument
  refine ⟨⟨_, parse_pretty_reread hfits, ?_⟩, ?_⟩
  · exact keysIncrease_of_canonical (hmerged.canonical.mapNumbers Number.reread)
  · rintro value hvalue ⟨depth, hintegers⟩ hfree other
    cases hvalue.symm.trans hdocument
    have hprinted : Fits Number.Printed depthLimit (.object merged) :=
      (hfits.and hintegers).imp fun n hn => printed_of_readable hn.1 hn.2
    exact render_pretty hprinted hmerged hfree other

end Again

/-- The kernel file of one directory, rendered again for another one. -/
theorem render_again_kernelTemplate :
    render Sample.kernelTemplate (.ofString "/a\"b") Sample.overrides = .ok Sample.renderedText ∧
      ¬ token <:+: Sample.renderedText.toList ∧
      render Sample.renderedText (.ofString "/c") Sample.overrides = .ok Sample.renderedText := by
  have hfree : ¬ token <:+: Sample.renderedText.toList := by decide +kernel
  obtain ⟨value, hvalue, -⟩ := of_map_eq_ok Sample.render_kernelTemplate
  obtain ⟨v, hfilled, hmerge⟩ := document_eq_ok_iff.1 hvalue
  cases hfilled.symm.trans Sample.filledDocument_kernelTemplate
  have hintegers := (Sample.printed_kernelMembers "/a\"b").imp fun n hn => hn.2
  obtain ⟨-, hagain⟩ := render_again Sample.render_kernelTemplate
  exact ⟨Sample.render_kernelTemplate, hfree,
    hagain value hvalue ⟨_, mergeEnvironment_fits hmerge hintegers⟩ hfree (.ofString "/c")⟩

end Template
end KernelRegistry
