import KernelRegistry.FileTree.Disk

/-!
# What calls to the disk do

An operation on files is a row of lookups and calls.  A call that is refused ends it, and the tree
is left as the calls before have changed it.  So there are two things to know about an operation on
a disk that may refuse: what can be left when it stops, and that it does what it does on a sound
disk as long as it goes on.  The first is what most of the theory of file trees is about; the second
makes everything that is known about success on a sound disk known about success on any disk.

* `Action.after` — the tree that an action leaves; `after_bind` follows it through two steps.
* `ask_cases`, `write_cases` — what a call does.
* `Disk.Leaves` — what may be left of a content that is written.
* `Action.EqOrRefused` — an action does what another one does, unless the disk refuses something.
-/

set_option autoImplicit false
namespace KernelRegistry
namespace FileTree

open Text (Bytes)

/-! ## Steps in a row -/

/-- The tree that an action leaves. -/
def Action.after {α : Type} (action : Action α) (t : FileTree) : FileTree :=
  match action t with
  | .ok _ u => u
  | .error _ u => u

section Bind

variable {ε σ α β : Type} {action : EStateM ε σ α} {next : α → EStateM ε σ β} {s s' : σ} {a : α}
variable {b : β} {e : ε}

theorem bind_of_ok (h : action s = .ok a s') : (action >>= next) s = next a s' := by
  simp only [bind, EStateM.bind, h]

theorem bind_of_error (h : action s = .error e s') : (action >>= next) s = .error e s' := by
  simp only [bind, EStateM.bind, h]

theorem bind_eq_ok (h : (action >>= next) s = .ok b s') :
    ∃ a v, action s = .ok a v ∧ next a v = .ok b s' := by
  cases haction : action s with
  | ok a v => exact ⟨a, v, rfl, by rw [← h, bind_of_ok haction]⟩
  | error e v =>
    rw [bind_of_error haction] at h
    cases h

end Bind

section Outcome

variable {α β : Type} {action : Action α} {next : α → Action β} {t u : FileTree} {a : α} {b : β}
variable {e : FileError} {f : FileTree → Except FileError α}

theorem exists_ok_of_run' (h : action.run' t = some a) : ∃ u, action t = .ok a u := by
  delta EStateM.run' EStateM.run at h
  cases haction : action t with
  | ok b u =>
    rw [haction] at h
    exact ⟨u, by rw [Option.some.inj h]⟩
  | error e u =>
    rw [haction] at h
    cases h

theorem Action.after_of_ok (h : action t = .ok a u) : action.after t = u := by
  rw [Action.after, h]

theorem Action.after_of_error (h : action t = .error e u) : action.after t = u := by
  rw [Action.after, h]

/-- To know something after two steps, know it after the first one, and after the second one if the
first one succeeds. -/
theorem after_bind {P : FileTree → Prop} (hfirst : P (action.after t))
    (hnext : ∀ a u, action t = .ok a u → P ((next a).after u)) :
    P ((action >>= next).after t) := by
  cases haction : action t with
  | ok a u =>
    have := hnext a u haction
    rwa [Action.after, bind_of_ok haction]
  | error e u =>
    rw [Action.after_of_error haction] at hfirst
    rwa [Action.after_of_error (bind_of_error haction)]

theorem answer_of_ok (h : f t = .ok a) : answer f t = .ok a t := by
  rw [answer, h]

theorem answer_of_error (h : f t = .error e) : answer f t = .error e t := by
  rw [answer, h]

theorem answer_eq_ok (h : answer f t = .ok a u) : f t = .ok a ∧ u = t := by
  rw [answer] at h
  split at h
  · next hf =>
    cases h
    exact ⟨hf, rfl⟩
  · cases h

theorem after_answer : (answer f).after t = t := by
  rw [Action.after, answer]
  cases f t <;> rfl

theorem place_eq_ok {location : Location} {new : Option FileTree} :
    place location new t = .ok () (t.update new location) :=
  rfl

end Outcome

/-! ## Calls -/

/-- Some call is refused with an error.  Which call it was is left out: all that matters after that
is what the calls before it have done. -/
def Disk.Refuses [Disk] (e : FileError) : Prop :=
  ∃ call t refusal, Disk.refusal? call t = some refusal ∧ e = refusal.error

/-- A write of a content is refused once some of it was written.  The file was cut off when it was
opened, so it has no more than that. -/
def Disk.Cut [Disk] (content cut : Bytes) : Prop :=
  ∃ location t refusal,
    Disk.refusal? (.write location content) t = some refusal ∧ cut = content.take refusal.written

/-- The possible remains of a content that is written: all of it, or what was written before the
disk refused to go on. -/
def Disk.Leaves [Disk] (content left : Bytes) : Prop := left = content ∨ Disk.Cut content left

section Calls

variable [Disk] {call : Call} {location : Location} {mode : Nat} {content cut : Bytes}
variable {t u : FileTree}

/-- Whether something is missing is seen in the tree, so a disk never refuses for that. -/
theorem Disk.Refuses.ne_notFound {e : FileError} (h : Disk.Refuses e) : e ≠ .notFound := by
  obtain ⟨_, _, refusal, -, rfl⟩ := h
  exact refusal.isFault

theorem Disk.Cut.isPrefix (h : Disk.Cut content cut) : cut <+: content := by
  obtain ⟨location, t, refusal, -, rfl⟩ := h
  exact List.take_prefix refusal.written content

theorem Disk.Leaves.refl (content : Bytes) : Disk.Leaves content content := .inl rfl

/-- Only the end of a content may be missing. -/
theorem Disk.Leaves.isPrefix (h : Disk.Leaves content cut) : cut <+: content := by
  rcases h with rfl | hcut
  · exact List.prefix_refl cut
  · exact hcut.isPrefix

theorem ask_cases (call : Call) (t : FileTree) :
    (∃ e, Disk.Refuses e ∧ ask call t = .error e t) ∨ ask call t = .ok () t := by
  rw [ask]
  cases hrefusal : Disk.refusal? call t with
  | none => exact .inr rfl
  | some refusal => exact .inl ⟨refusal.error, ⟨call, t, refusal, hrefusal, rfl⟩, rfl⟩

theorem ask_eq_ok (h : ask call t = .ok () u) : u = t := by
  rcases ask_cases call t with ⟨e, -, herror⟩ | hok
  · rw [herror] at h
    cases h
  · rw [hok] at h
    cases h
    rfl

theorem after_ask : (ask call).after t = t := by
  rcases ask_cases call t with ⟨e, -, herror⟩ | hok
  · exact Action.after_of_error herror
  · exact Action.after_of_ok hok

/-- Writing puts the file where it was opened; if that fails, its end is missing. -/
theorem write_cases (location : Location) (mode : Nat) (content : Bytes) (t : FileTree) :
    write location mode content t = .ok () (t.update (some (.file mode content)) location) ∨
      ∃ cut e, Disk.Cut content cut ∧ Disk.Refuses e ∧ write location mode content t =
        .error e (t.update (some (.file mode cut)) location) := by
  rw [write]
  cases hrefusal : Disk.refusal? (.write location content) t with
  | none => exact .inl rfl
  | some refusal =>
    exact .inr ⟨_, refusal.error, ⟨location, t, refusal, hrefusal, rfl⟩,
      ⟨_, t, refusal, hrefusal, rfl⟩, rfl⟩

theorem write_eq_ok (h : write location mode content t = .ok () u) :
    u = t.update (some (.file mode content)) location := by
  rcases write_cases location mode content t with hok | ⟨cut, e, -, -, herror⟩
  · rw [hok] at h
    cases h
    rfl
  · rw [herror] at h
    cases h

/-- To know something after a file is written, know it whatever is left of the content. -/
theorem after_write {P : FileTree → Prop}
    (h : ∀ left, Disk.Leaves content left → P (t.update (some (.file mode left)) location)) :
    P ((write location mode content).after t) := by
  rcases write_cases location mode content t with hok | ⟨cut, e, hcut, -, herror⟩
  · rw [Action.after_of_ok hok]
    exact h content (.refl content)
  · rw [Action.after_of_error herror]
    exact h cut (.inr hcut)

end Calls

/-! ## The sound disk -/

theorem ask_sound (call : Call) (t : FileTree) : @ask Disk.sound call t = .ok () t := rfl

theorem Disk.not_refuses_sound {e : FileError} : ¬ @Disk.Refuses Disk.sound e := by
  rintro ⟨_, _, _, hrefusal, -⟩
  cases hrefusal

theorem Disk.not_cut_sound {content cut : Bytes} : ¬ @Disk.Cut Disk.sound content cut := by
  rintro ⟨_, _, _, hrefusal, -⟩
  cases hrefusal

@[simp]
theorem Disk.leaves_sound {content left : Bytes} :
    @Disk.Leaves Disk.sound content left ↔ left = content :=
  ⟨fun h => h.resolve_right Disk.not_cut_sound, .inl⟩

/-- An action does what another one does, or the disk refuses something.  The other one is the same
action on a sound disk, so an action that succeeds does what it does there. -/
def Action.EqOrRefused [Disk] {α : Type} (action other : Action α) (t : FileTree) : Prop :=
  action t = other t ∨ ∃ e u, Disk.Refuses e ∧ action t = .error e u

namespace Action.EqOrRefused

variable [Disk] {α β γ : Type} {action other : Action α} {next next' : α → Action β}
variable {t u : FileTree} {a : α}

theorem refl (action : Action α) (t : FileTree) : EqOrRefused action action t := .inl rfl

theorem of_ok (h : EqOrRefused action other t) (hok : action t = .ok a u) : other t = .ok a u := by
  rcases h with heq | ⟨e, v, -, herror⟩
  · exact heq.symm.trans hok
  · rw [herror] at hok
    cases hok

theorem bind (h : EqOrRefused action other t)
    (hnext : ∀ a u, action t = .ok a u → EqOrRefused (next a) (next' a) u) :
    EqOrRefused (action >>= next) (other >>= next') t := by
  rcases h with heq | ⟨e, u, he, herror⟩
  · cases haction : action t with
    | ok a u =>
      rw [EqOrRefused, bind_of_ok haction, bind_of_ok (heq.symm.trans haction)]
      exact hnext a u haction
    | error e u =>
      exact .inl (by rw [bind_of_error haction, bind_of_error (heq.symm.trans haction)])
  · exact .inr ⟨e, u, he, bind_of_error herror⟩

/-- If an action does what another one does, or the disk refuses something, then the same holds
after both results are looked at, provided that a refusal is passed on. -/
theorem recover {action' other' : Action β}
    (f : EStateM.Result FileError FileTree α → EStateM.Result FileError FileTree β)
    (h : EqOrRefused action other t) (haction : action' t = f (action t))
    (hother : other' t = f (other t))
    (hf : ∀ e u, Disk.Refuses e → f (.error e u) = .error e u) : EqOrRefused action' other' t := by
  rcases h with heq | ⟨e, u, he, herror⟩
  · exact .inl (by rw [haction, hother, heq])
  · exact .inr ⟨e, u, he, by rw [haction, herror, hf e u he]⟩

theorem foldlM {step step' : β → γ → Action β} {l : List γ} {init : β}
    (h : ∀ b c t, EqOrRefused (step b c) (step' b c) t) (t : FileTree) :
    EqOrRefused (l.foldlM step init) (l.foldlM step' init) t := by
  induction l generalizing init t with
  | nil => exact refl _ t
  | cons c rest ih =>
    rw [List.foldlM_cons, List.foldlM_cons]
    exact (h init c t).bind fun b u _ => ih u

theorem ask (call : Call) (t : FileTree) :
    EqOrRefused (FileTree.ask call) (@FileTree.ask Disk.sound call) t := by
  rcases ask_cases call t with ⟨e, he, herror⟩ | hok
  · exact .inr ⟨e, t, he, herror⟩
  · exact .inl hok

theorem write (location : Location) (mode : Nat) (content : Bytes) (t : FileTree) :
    EqOrRefused (FileTree.write location mode content)
      (@FileTree.write Disk.sound location mode content) t := by
  rcases write_cases location mode content t with hok | ⟨cut, e, -, he, herror⟩
  · exact .inl hok
  · exact .inr ⟨e, _, he, herror⟩

end Action.EqOrRefused

end FileTree
end KernelRegistry
