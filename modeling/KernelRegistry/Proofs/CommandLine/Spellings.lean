import KernelRegistry.Proofs.CommandLine.ManifestPath
import KernelRegistry.Proofs.Text.Reread

/-!
# Two spellings of the option for the manifest

The path of the manifest is an argument of its own, or it stands behind an equals sign.  The scan
compares what the arguments are shown as.  This finds the same arguments as a comparison of their
bytes, since the option has no character that stands for bytes that are no text; but a path behind
an equals sign is cut out of what is shown, while a path of its own is taken as it is.

* `givenManifest?_shown` — the scan in terms of what the arguments are shown as.
* `PassedOver` — the arguments that the scan does not stop at, with `scan_passedOver`.
* `manifestPath_spellings` — **which paths the two spellings mean, and when they are the same**.
* `manifestPath_attached_loses` — a path that only one spelling finds.
-/

set_option autoImplicit false
namespace KernelRegistry
namespace CommandLine

open Text (Bytes encode decodeLossy)

section Scan

variable {argument path : Bytes} {arguments before : List Bytes} {text : String}

theorem encode_manifest_equals : encode "--manifest=" = manifestOption ++ [equals] := by decide

/-- **The scan in terms of what the arguments are shown as.**  Two dashes end it, the option takes
the next argument as it is, and what is shown behind the equals sign is taken as a text. -/
theorem givenManifest?_shown (argument : Bytes) (arguments : List Bytes) :
    (decodeLossy argument = "--" → givenManifest? (argument :: arguments) = none) ∧
      (decodeLossy argument = "--manifest" →
        givenManifest? (argument :: arguments) = arguments.head?.map Path.mk) ∧
      (∀ text, decodeLossy argument = "--manifest=" ++ text →
        givenManifest? (argument :: arguments) = some (.ofString text)) ∧
      (decodeLossy argument ≠ "--" → decodeLossy argument ≠ "--manifest" →
        (∀ text, decodeLossy argument ≠ "--manifest=" ++ text) →
        givenManifest? (argument :: arguments) = givenManifest? arguments) := by
  have hescape : decodeLossy argument = "--" ↔ argument = [dash, dash] :=
    Text.decodeLossy_eq_iff (by decide)
  have hoption : decodeLossy argument = "--manifest" ↔ argument = manifestOption :=
    Text.decodeLossy_eq_iff (by decide)
  refine ⟨?_, ?_, ?_, ?_⟩
  · intro h
    rw [givenManifest?_cons, if_pos (hescape.1 h)]
  · intro h
    have hne : manifestOption ≠ [dash, dash] := by decide
    rw [hoption.1 h, givenManifest?_cons, if_neg hne, if_pos rfl]
  · intro text h
    obtain ⟨path, rfl, rfl⟩ := Text.exists_of_decodeLossy_append (by decide) h
    rw [encode_manifest_equals, scan_attached]
  · intro hnotEscape hnotOption hnotAttached
    refine scan_cons_of_not (mt hescape.2 hnotEscape) (mt hoption.2 hnotOption) ?_
    rintro ⟨path, rfl⟩
    refine hnotAttached (decodeLossy path) ?_
    rw [← encode_manifest_equals, Text.decodeLossy_encode_append]

/-- An argument that the scan does not stop at.  It is compared byte by byte, although the scan
compares what arguments are shown as. -/
structure PassedOver (argument : Bytes) : Prop where
  notEscape : argument ≠ encode "--"
  notOption : argument ≠ encode "--manifest"
  notAttached : ¬ encode "--manifest=" <+: argument

instance (argument : Bytes) : Decidable (PassedOver argument) :=
  decidable_of_iff
    (argument ≠ encode "--" ∧ argument ≠ encode "--manifest" ∧ ¬ encode "--manifest=" <+: argument)
    ⟨fun h => ⟨h.1, h.2.1, h.2.2⟩, fun h => ⟨h.notEscape, h.notOption, h.notAttached⟩⟩

theorem scan_passedOver (h : ∀ argument ∈ before, PassedOver argument) (arguments : List Bytes) :
    givenManifest? (before ++ arguments) = givenManifest? arguments := by
  induction before with
  | nil => rfl
  | cons argument before ih =>
    obtain ⟨hargument, hbefore⟩ := List.forall_mem_cons.1 h
    have hattached := hargument.notAttached
    rw [encode_manifest_equals] at hattached
    rw [List.cons_append, scan_cons_of_not hargument.notEscape hargument.notOption hattached,
      ih hbefore]

/-- A path in an argument of its own is taken as it is. -/
theorem manifestPath_separate (beside : Path) (program : Bytes) (path : Bytes) (after : List Bytes)
    (h : ∀ argument ∈ before, PassedOver argument) :
    manifestPath beside (program :: before ++ encode "--manifest" :: path :: after) = ⟨path⟩ := by
  rw [manifestPath, List.cons_append, List.tail_cons, scan_passedOver h,
    (givenManifest?_shown _ _).2.1 (Text.decodeLossy_encode _)]
  rfl

/-- A path behind an equals sign is taken as the text that it is shown as. -/
theorem manifestPath_attached (beside : Path) (program : Bytes) (path : Bytes) (after : List Bytes)
    (h : ∀ argument ∈ before, PassedOver argument) :
    manifestPath beside (program :: before ++ (encode "--manifest=" ++ path) :: after) =
      .ofString (decodeLossy path) := by
  rw [manifestPath, List.cons_append, List.tail_cons, scan_passedOver h,
    (givenManifest?_shown _ _).2.2.1 _ (Text.decodeLossy_encode_append _ _)]
  rfl

end Scan

/-- **Two spellings of the option for the manifest.**  Behind arguments that are passed over, a path
in an argument of its own is the path of the manifest, byte for byte; behind an equals sign the path
of the manifest is the text that it is shown as.  The two are the same if and only if the path is
that of a text. -/
theorem manifestPath_spellings (beside : Path) (program : Bytes) (before after : List Bytes)
    (path : Bytes) (h : ∀ argument ∈ before, PassedOver argument) :
    manifestPath beside (program :: before ++ encode "--manifest" :: path :: after) = ⟨path⟩ ∧
      manifestPath beside (program :: before ++ (encode "--manifest=" ++ path) :: after) =
        .ofString (decodeLossy path) ∧
      (manifestPath beside (program :: before ++ (encode "--manifest=" ++ path) :: after) =
          manifestPath beside (program :: before ++ encode "--manifest" :: path :: after) ↔
        ∃ s : String, path = encode s) := by
  have hseparate := manifestPath_separate beside program path after h
  have hattached := manifestPath_attached beside program path after h
  refine ⟨hseparate, hattached, ?_⟩
  rw [hseparate, hattached]
  constructor
  · intro heq
    exact ⟨decodeLossy path, (congrArg Path.bytes heq).symm⟩
  · intro hpath
    exact congrArg Path.mk (IsText.encode_decodeLossy hpath)

namespace Sample

/-- Arguments that look like the option: it is the value of another one, or bytes that are no text
stand in it. -/
def nearArguments : List Bytes := [encode "--title=--manifest=x", encode "--manifest" ++ [0xFF]]

/-- A path that is not that of a text. -/
def unreadable : Bytes := encode "/" ++ [0xFF]

/-- The invocation of the command line with this path behind the equals sign. -/
def unreadableInvocation : Invocation where
  arguments := {
    user := false, sysPrefix := false, location := none, legacy := false, replace := false,
    python := none, manifest := some ⟨unreadable⟩, assignments := [], debug := false }
  settings := []

theorem parse_unreadable :
    Invocation.parse titled [encode "install", encode "--manifest=" ++ unreadable] =
      .ok unreadableInvocation := by
  decide +kernel

end Sample

open CommandLine.Sample in
/-- The spellings of a path with a blank and letters of two and three bytes mean the same. -/
theorem manifestPath_spellings_near :
    (∀ argument ∈ nearArguments, PassedOver argument) ∧
      manifestPath (.ofString "/bin")
          (encode "install" :: nearArguments ++ [encode "--manifest=" ++ encode "/é €.json"]) =
        manifestPath (.ofString "/bin")
          (encode "install" :: nearArguments ++ [encode "--manifest", encode "/é €.json"]) := by
  have hnear : ∀ argument ∈ nearArguments, PassedOver argument := by decide
  obtain ⟨-, -, hsame⟩ := manifestPath_spellings (.ofString "/bin") (encode "install")
    nearArguments [] (encode "/é €.json") hnear
  exact ⟨hnear, hsame.2 ⟨_, rfl⟩⟩

open CommandLine.Sample in
/-- **A path that only one spelling finds.**  It is that of no text.  Behind the equals sign the
scan finds another path, while the reader of the command line finds it there as well. -/
theorem manifestPath_attached_loses :
    manifestPath (.ofString "/bin") [encode "install", encode "--manifest", unreadable] =
        ⟨unreadable⟩ ∧
      manifestPath (.ofString "/bin") [encode "install", encode "--manifest=" ++ unreadable] =
        .ofString "/\uFFFD" ∧
      manifestPath (.ofString "/bin") [encode "install", encode "--manifest=" ++ unreadable] ≠
        manifestPath (.ofString "/bin") [encode "install", encode "--manifest", unreadable] ∧
      Invocation.parse titled [encode "install", encode "--manifest=" ++ unreadable] =
        .ok unreadableInvocation := by
  have hnone : ∀ argument ∈ ([] : List Bytes), PassedOver argument := by simp
  have hseparate := manifestPath_separate (.ofString "/bin") (encode "install") unreadable [] hnone
  have hattached := manifestPath_attached (.ofString "/bin") (encode "install") unreadable [] hnone
  have hshown : decodeLossy unreadable = "/\uFFFD" := by decide +kernel
  have hne : Path.ofString "/\uFFFD" ≠ ⟨unreadable⟩ := by decide
  rw [hshown] at hattached
  refine ⟨hseparate, hattached, ?_, parse_unreadable⟩
  intro hsame
  exact hne (hattached.symm.trans (hsame.trans hseparate))

end CommandLine
end KernelRegistry
