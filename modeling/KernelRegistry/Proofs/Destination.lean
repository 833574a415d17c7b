import KernelRegistry.Destination
import KernelRegistry.Manifest.Basic
import KernelRegistry.Proofs.Path.Components

/-!
# Where kernels go

The directory of a kernel is a child of the directory of all kernels, unless the kernel is called
by one or two dots, which pass for a name.

* `Text.lowercase_eq_dots` — a text becomes dots only if it is made of dots.
* `Path.resolved` — what a path says once its dots have been resolved.
* `IsChild` — a path names a child of a directory.
* `Resolver.fileName_of_isKernelName`, `Resolver.isName_fileName_iff` — what the directory of a
  kernel is called.
* `Resolver.isChild_kernelBelow_iff` — **when it is a child**.
-/

set_option autoImplicit false
namespace KernelRegistry

open Text (Bytes)

/-! ## Lower case -/

namespace Text

/-- The characters that others become are past the dot. -/
theorem lowerRuns_image : ∀ run ∈ lowerRuns, '.'.toNat < run.2.2.2 := by decide +kernel

theorem toNat_ofNat_ne {n k : Nat} (hn : k < n) (hk : 0 < k) : (Char.ofNat n).toNat ≠ k := by
  by_cases hvalid : n.isValidChar
  · have hchar : Char.ofNat n = Char.ofNatAux n hvalid := dif_pos hvalid
    rw [hchar]
    exact fun h : n = k => Nat.ne_of_gt hn h
  · have hchar : Char.ofNat n = '\x00' := dif_neg hvalid
    rw [hchar]
    exact fun h : 0 = k => Nat.ne_of_lt hk h

theorem lowerChar_eq_dot {c : Char} (h : lowerChar c = '.') : c = '.' := by
  rw [lowerChar] at h
  split at h
  · next first _ _ image hrun =>
    have himage := lowerRuns_image _ (List.mem_of_find?_eq_some hrun)
    have hlt : '.'.toNat < image + (c.toNat - first) := by
      simp only at himage
      omega
    exact absurd (congrArg Char.toNat h) (toNat_ofNat_ne hlt (by decide))
  · exact h

theorem toLower_eq_dot {c : Char} (hc : c.toNat < 0x80) (h : c.toLower = '.') : c = '.' := by
  have hall : ∀ n : Fin 0x80, (Char.ofNat n).toLower = '.' → Char.ofNat n = '.' := by decide
  have := hall ⟨c.toNat, hc⟩
  rw [Char.ofNat_toNat] at this
  exact this h

/-- **A text becomes dots only if it is made of dots.** -/
theorem lowercaseAfter_eq_self {before cs : List Char}
    (h : ∀ c ∈ lowercaseAfter before cs, c = '.') : lowercaseAfter before cs = cs := by
  induction cs generalizing before with
  | nil => rfl
  | cons c cs ih =>
    rw [lowercaseAfter] at h ⊢
    rw [ih fun d hd => h d (List.mem_append_right _ hd)]
    have himage := fun d hd => h d (List.mem_append_left _ hd)
    split
    · next hsigma =>
      rw [if_pos hsigma] at himage
      split at himage <;> exact absurd (himage _ List.mem_cons_self) (by decide)
    · next hsigma =>
      rw [if_neg hsigma] at himage
      split
      · next hdotted =>
        rw [if_pos hdotted] at himage
        exact absurd (himage _ List.mem_cons_self) (by decide)
      · next hdotted =>
        rw [if_neg hdotted] at himage
        split
        · next hascii =>
          rw [if_pos hascii] at himage
          have hdot := himage _ List.mem_cons_self
          rw [hdot, toLower_eq_dot hascii hdot]
          rfl
        · next hascii =>
          rw [if_neg hascii] at himage
          have hdot := himage _ List.mem_cons_self
          rw [hdot, lowerChar_eq_dot hdot]
          rfl

theorem lowercaseAfter_replicate (before : List Char) (n : Nat) :
    lowercaseAfter before (List.replicate n '.') = List.replicate n '.' := by
  induction n generalizing before with
  | zero => rfl
  | succ n ih =>
    rw [List.replicate_succ, lowercaseAfter, ih]
    rfl

theorem lowercase_eq_dots {s : String} (n : Nat) :
    lowercase s = String.ofList (List.replicate n '.') ↔
      s = String.ofList (List.replicate n '.') := by
  rw [lowercase, String.ofList_inj]
  constructor
  · intro h
    have hself := lowercaseAfter_eq_self fun c hc => by
      rw [h] at hc
      exact List.eq_of_mem_replicate hc
    rw [← h, hself, String.ofList_toList]
  · rintro rfl
    rw [String.toList_ofList]
    exact lowercaseAfter_replicate [] n

end Text

namespace Path

/-! ## Components -/

/-- One more component after those before it have been resolved. -/
def Component.resolve (before : List Component) : Component → List Component
  | .current => before
  | .parent =>
    match before.getLast? with
    | some (.name _) => before.dropLast
    | some .root => before
    | _ => before ++ [.parent]
  | c => before ++ [c]

/-- The components of a path once its dots have been resolved, as if no links were on the way.  This
is where a reader of the path would look for it. -/
def resolved (p : Path) : List Component := p.components.foldl Component.resolve []

end Path

/-- A path names a child of a directory: it has one component more, also once its dots have been
resolved. -/
structure IsChild (directory p : Path) (name : Bytes) : Prop where
  isName : Path.IsName name
  components : p.components = directory.components ++ [.name name]
  resolved : p.resolved = directory.resolved ++ [.name name]

theorem IsChild.of_components {directory p : Path} {name : Bytes} (hname : Path.IsName name)
    (h : p.components = directory.components ++ [.name name]) : IsChild directory p name := by
  refine ⟨hname, h, ?_⟩
  rw [Path.resolved, Path.resolved, h, List.foldl_append]
  rfl

namespace Resolver

/-- The directory of all kernels below a data directory. -/
def kernelsBelow (data : Path) : Path := data.joinText "kernels"

/-- The name that the directory of a kernel has.  It is in lower case, so kernels whose names differ
in case only have the same directory. -/
def fileName (kernelName : String) : Bytes := Text.encode (Text.lowercase kernelName)

theorem kernelBelow_eq (data : Path) (kernelName : String) :
    kernelBelow data kernelName = (kernelsBelow data).join ⟨fileName kernelName⟩ :=
  rfl

theorem kernelsBelow_ne_nil (data : Path) : (kernelsBelow data).bytes ≠ [] := by
  have hkernels : Path.IsName (Text.encode "kernels") := by decide
  obtain ⟨before, hbefore⟩ := Path.exists_bytes_join data hkernels
  intro hnil
  rw [kernelsBelow, Path.joinText, Path.ofString, hbefore] at hnil
  exact hkernels.nonempty (List.append_eq_nil_iff.1 hnil).2

/-! ## Names of kernels -/

/-- A byte of a registered name. -/
def isRegistryByte (b : UInt8) : Bool := isRegistryChar (Char.ofNat b.toNat)

theorem toNat_lt_of_isRegistryChar {c : Char} (h : isRegistryChar c = true) : c.toNat < 128 := by
  simp only [isRegistryChar, Bool.or_eq_true, decide_eq_true_eq] at h
  rcases h with (((h | h) | rfl) | rfl) | rfl
  · have hle : c.val ≤ 'z'.val := of_decide_eq_true (Bool.and_eq_true_iff.1 h).2
    exact Nat.lt_of_le_of_lt (UInt32.le_iff_toNat_le.1 hle) (by decide)
  · have hle : c.val ≤ '9'.val := of_decide_eq_true (Bool.and_eq_true_iff.1 h).2
    exact Nat.lt_of_le_of_lt (UInt32.le_iff_toNat_le.1 hle) (by decide)
  all_goals decide

/-- A character of a registered name is one byte. -/
theorem utf8EncodeChar_of_isRegistryChar {c : Char} (h : isRegistryChar c = true) :
    String.utf8EncodeChar c = [UInt8.ofNat c.toNat] ∧
      isRegistryByte (UInt8.ofNat c.toNat) = true ∧ UInt8.ofNat c.toNat ≠ Path.slash ∧
      (UInt8.ofNat c.toNat = Path.dot → c = '.') := by
  have hall : ∀ n : Fin 128, isRegistryChar (Char.ofNat n) = true →
      String.utf8EncodeChar (Char.ofNat n) = [UInt8.ofNat n] ∧
        isRegistryByte (UInt8.ofNat n) = true ∧ UInt8.ofNat n ≠ Path.slash ∧
        (UInt8.ofNat n = Path.dot → Char.ofNat n = '.') := by decide
  have := hall ⟨c.toNat, toNat_lt_of_isRegistryChar h⟩
  rw [Char.ofNat_toNat] at this
  exact this h

/-- A registered name has a byte for every character. -/
theorem encodeChars_of_isRegistryChar {cs : List Char} (h : ∀ c ∈ cs, isRegistryChar c = true) :
    Text.encodeChars cs = cs.map fun c => UInt8.ofNat c.toNat := by
  induction cs with
  | nil => rfl
  | cons c cs ih =>
    rw [Text.encodeChars, List.flatMap_cons,
      (utf8EncodeChar_of_isRegistryChar (h c List.mem_cons_self)).1]
    exact congrArg _ (ih fun d hd => h d (List.mem_cons_of_mem _ hd))

section KernelName

variable {kernelName : String} (h : isKernelName kernelName = true)
include h

theorem chars_of_isKernelName : (Text.lowercase kernelName).toList ≠ [] ∧
    ∀ c ∈ (Text.lowercase kernelName).toList, isRegistryChar c = true := by
  rw [isKernelName, hasForm] at h
  split at h
  · next c cs hcs =>
    rw [Bool.and_eq_true, List.all_eq_true] at h
    rw [hcs]
    refine ⟨List.cons_ne_nil c cs, fun d hd => ?_⟩
    rcases List.mem_cons.1 hd with rfl | hd
    · exact h.1
    · exact h.2 d hd
  · cases h

/-- The name of a kernel is made of bytes of registered names. -/
theorem fileName_of_isKernelName : fileName kernelName ≠ [] ∧
    ∀ b ∈ fileName kernelName, isRegistryByte b = true ∧ b ≠ Path.slash := by
  obtain ⟨hne, hchars⟩ := chars_of_isKernelName h
  rw [fileName, Text.encode, encodeChars_of_isRegistryChar hchars]
  refine ⟨by simpa using hne, fun b hb => ?_⟩
  obtain ⟨c, hc, rfl⟩ := List.mem_map.1 hb
  obtain ⟨-, hbyte, hslash, -⟩ := utf8EncodeChar_of_isRegistryChar (hchars c hc)
  exact ⟨hbyte, hslash⟩

/-- The directory of a kernel is called by dots only if the kernel is. -/
theorem fileName_eq_dots (n : Nat) :
    fileName kernelName = List.replicate n Path.dot ↔
      kernelName = String.ofList (List.replicate n '.') := by
  obtain ⟨-, hchars⟩ := chars_of_isKernelName h
  rw [← Text.lowercase_eq_dots, fileName, Text.encode, encodeChars_of_isRegistryChar hchars]
  constructor
  · intro hbytes
    have hdot : ∀ c ∈ (Text.lowercase kernelName).toList, c = '.' := fun c hc => by
      have hmem := List.mem_map_of_mem (f := fun c : Char => UInt8.ofNat c.toNat) hc
      rw [hbytes] at hmem
      exact (utf8EncodeChar_of_isRegistryChar (hchars c hc)).2.2.2 (List.eq_of_mem_replicate hmem)
    have hlength := congrArg List.length hbytes
    rw [List.length_map, List.length_replicate] at hlength
    rw [← String.ofList_toList (s := Text.lowercase kernelName),
      List.eq_replicate_of_mem hdot, hlength]
  · intro hdots
    rw [hdots, String.toList_ofList, List.map_replicate]
    rfl

theorem isName_fileName_iff :
    Path.IsName (fileName kernelName) ↔ kernelName ≠ "." ∧ kernelName ≠ ".." := by
  obtain ⟨hne, hbytes⟩ := fileName_of_isKernelName h
  have hdot : fileName kernelName = [Path.dot] ↔ kernelName = "." := fileName_eq_dots h 1
  have hdots : fileName kernelName = [Path.dot, Path.dot] ↔ kernelName = ".." :=
    fileName_eq_dots h 2
  rw [Ne, ← hdot, Ne, ← hdots]
  exact ⟨fun h => ⟨h.notDot, h.notDots⟩, fun h =>
    ⟨hne, fun hslash => (hbytes _ hslash).2 rfl, h.1, h.2⟩⟩

/-- **The directory of a kernel is a child of the directory of all kernels, unless the kernel is
called by one or two dots.**  One dot names that directory itself, and two dots name the data
directory. -/
theorem isChild_kernelBelow_iff (data : Path) :
    (∃ name, IsChild (kernelsBelow data) (kernelBelow data kernelName) name ∧
        ∀ b ∈ name, isRegistryByte b = true) ↔ kernelName ≠ "." ∧ kernelName ≠ ".." := by
  obtain ⟨hne, hbytes⟩ := fileName_of_isKernelName h
  have hslash : Path.slash ∉ fileName kernelName := fun hslash => (hbytes _ hslash).2 rfl
  have hrelative : Path.isAbsolute ⟨fileName kernelName⟩ = false :=
    Path.isAbsolute_of_not_mem hslash
  have hcomponents := Path.components_join (kernelsBelow_ne_nil data) hrelative
  rw [← kernelBelow_eq] at hcomponents
  rw [← isName_fileName_iff h]
  constructor
  · rintro ⟨name, hchild, -⟩
    have heq := hcomponents.symm.trans hchild.components
    rw [List.append_right_inj] at heq
    refine ⟨hne, hslash, fun hdot => ?_, fun hdots => ?_⟩
    · rw [hdot] at heq
      cases heq
    · rw [hdots] at heq
      cases heq
  · intro hname
    rw [hname.names_eq] at hcomponents
    refine ⟨fileName kernelName, .of_components hname (hcomponents.trans ?_),
      fun b hb => (hbytes b hb).1⟩
    rw [List.map_singleton, Path.Component.ofSegment, if_neg hname.notDots]

end KernelName

end Resolver
end KernelRegistry
