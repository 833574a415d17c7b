import KernelRegistry.Json.Failure

/-!
# Reading a part of a text

A reader takes some characters off the front of a text.  What it leaves is shorter, and this fact
travels with the result, so that a loop over readers needs no other measure.

* `Step` — a value and the rest of the text after it.
* `Reader` — a function from a text to a step or a failure.
* `skipBlank` — the text without the blanks at its front.
* `Failure.at`, `Failure.past` — a failure before or after the next byte.
-/

set_option autoImplicit false
namespace KernelRegistry
namespace Json

/-- A value, and what is left of the text after reading it. -/
structure Step (input : List Char) (α : Type) where
  value : α
  rest : List Char
  shorter : rest.length < input.length

/-- Reads a value off the front of a text. -/
abbrev Reader (α : Type) := (input : List Char) → Except Failure (Step input α)

namespace Step

variable {input rest : List Char} {α β : Type}

/-- The same place with another value. -/
def map (f : α → β) (step : Step input α) : Step input β :=
  ⟨f step.value, step.rest, step.shorter⟩

/-- A step after a step, with a value made of both. -/
def join {γ : Type} (f : α → β → γ) (first : Step input α) (second : Step first.rest β) :
    Step input γ :=
  ⟨f first.value second.value, second.rest, Nat.lt_trans second.shorter first.shorter⟩

/-- A step after the first character is a step from it. -/
def cons (c : Char) (step : Step rest α) : Step (c :: rest) α :=
  ⟨step.value, step.rest, Nat.lt_succ_of_lt step.shorter⟩

/-- A step in what is left of a text is a step in the text. -/
def within (h : rest.length ≤ input.length) (step : Step rest α) : Step input α :=
  ⟨step.value, step.rest, Nat.lt_of_lt_of_le step.shorter h⟩

@[simp]
theorem value_map (f : α → β) (step : Step input α) : (step.map f).value = f step.value := rfl

@[simp]
theorem rest_map (f : α → β) (step : Step input α) : (step.map f).rest = step.rest := rfl

@[simp]
theorem value_within (h : rest.length ≤ input.length) (step : Step rest α) :
    (step.within h).value = step.value := rfl

@[simp]
theorem rest_within (h : rest.length ≤ input.length) (step : Step rest α) :
    (step.within h).rest = step.rest := rfl

@[simp]
theorem value_cons (c : Char) (step : Step rest α) : (step.cons c).value = step.value := rfl

@[simp]
theorem rest_cons (c : Char) (step : Step rest α) : (step.cons c).rest = step.rest := rfl

end Step

/-! ## Blanks -/

/-- The blanks between the parts of a document. -/
def isSpace (c : Char) : Bool :=
  c = ' ' || c = '\n' || c = '\t' || c = '\r'

/-- The text from its first character that is no blank. -/
def skipBlank (input : List Char) : List Char :=
  input.dropWhile isSpace

theorem length_skipBlank_le (input : List Char) : (skipBlank input).length ≤ input.length :=
  (List.dropWhile_sublist _).length_le

theorem skipBlank_length_lt {input rest : List Char} {c : Char} (h : skipBlank input = c :: rest) :
    rest.length < input.length := by
  have := length_skipBlank_le input
  rw [h, List.length_cons] at this
  omega

theorem length_le_of_mark {input rest : List Char} {c : Char} (h : skipBlank input = c :: rest) :
    rest.length ≤ input.length :=
  Nat.le_of_lt (skipBlank_length_lt h)

/-- A step after the first character that is no blank. -/
def Step.afterMark {α : Type} {input rest : List Char} {c : Char}
    (h : skipBlank input = c :: rest) (step : Step rest α) : Step input α :=
  step.within (length_le_of_mark h)

theorem length_le_self (rest : List Char) : rest.length ≤ rest.length := Nat.le_refl _

theorem length_le_succ (rest : List Char) : rest.length ≤ rest.length + 1 := Nat.le_succ _

/-! ## Places of failures -/

/-- A failure just before the part that is left. -/
def Failure.at (reason : Reason) (rest : List Char) : Failure := ⟨reason, rest, 0⟩

/-- A failure just after the next byte, at the end of the text if there is none. -/
def Failure.past (reason : Reason) (rest : List Char) : Failure := ⟨reason, rest, 1⟩

end Json
end KernelRegistry
