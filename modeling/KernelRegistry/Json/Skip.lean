import KernelRegistry.Json.Reader

/-!
# Passing over a document

A member that nobody asked for is passed over.  It has to be a document, but it may be nested to
any depth, and of its strings and numbers only the extent matters.  Nothing is expected after a
comma in particular, so a comma before a closing bracket is found where the next value or key is
missing.

* `skipScalar` — passes over a word, a number or a string.
* `skipItem`, `skipKey` — what stands before the next value in a list and in an object.
* `skipValue`, `skipItems`, `skipMembers` — pass over a document and over what brackets hold.
-/

set_option autoImplicit false
namespace KernelRegistry
namespace Json

/-- Passes over a document that is neither list nor object; no blank stands before it. -/
def skipScalar (input : List Char) : Except Failure (Step input Unit) :=
  match input with
  | '"' :: rest => (skipString rest).map (·.cons '"')
  | c :: rest =>
    if c = '-' || c.isDigit then
      (readNumeral .invalidNumber (c :: rest)).map (·.map fun _ => ())
    else (readScalar (c :: rest)).map (·.map fun _ => ())
  | [] => .error (.at .endInValue [])

/-- Passes to the next item of a list; `first` if there was none before. -/
def skipItem (first : Bool) (input : List Char) : Except Failure (Next input) :=
  match h : skipBlank input with
  | [] => .error (.at .endInList [])
  | ']' :: _ => .ok (.closedBy h)
  | c :: rest =>
    if first then .ok (.fromMark h)
    else if c = ',' then .ok (.afterMark h)
    else .error (.past .expectedListEnd (c :: rest))

/-- Passes over a key and the colon after it. -/
def skipKey (input : List Char) : Except Failure (Step input Unit) :=
  match h : skipBlank input with
  | [] => .error (.at .endInObject [])
  | '"' :: rest => do
    let key ← skipString rest
    let colon ← readColon key.rest
    return (key.join (fun _ _ => ()) colon).afterMark h
  | other => .error (.past .keyNotString other)

/-- Passes to the next member of an object; `first` if there was none before. -/
def skipMember (first : Bool) (input : List Char) : Except Failure (Next input) :=
  match h : skipBlank input with
  | [] => .error (.at .endInObject [])
  | '}' :: _ => .ok (.closedBy h)
  | c :: rest =>
    if first then .ok (.fromMark h)
    else if c = ',' then .ok (.afterMark h)
    else .error (.past .expectedObjectEnd (c :: rest))

mutual

/-- Passes over a document. -/
def skipValue (input : List Char) : Except Failure (Step input Unit) :=
  match h : skipBlank input with
  | '[' :: rest => do
    let items ← skipItems true rest
    return items.afterMark h
  | '{' :: rest => do
    let members ← skipMembers true rest
    return members.afterMark h
  | scalar => (skipScalar scalar).map (·.within (h ▸ length_skipBlank_le input))
termination_by (input.length, 0)
decreasing_by
  all_goals
    have := skipBlank_length_lt h
    simp only [Prod.lex_def]
    omega

/-- Passes over the items of a list up to its closing bracket. -/
def skipItems (first : Bool) (input : List Char) : Except Failure (Step input Unit) :=
  match skipItem first input with
  | .error failure => .error failure
  | .ok (.close rest shorter) => .ok ⟨(), rest, shorter⟩
  | .ok (.more rest noLonger) => do
    let head ← skipValue rest
    let tail ← skipItems false head.rest
    return (head.join (fun _ _ => ()) tail).within noLonger
termination_by (input.length, 1)
decreasing_by
  · simp only [Prod.lex_def]
    omega
  · have := head.shorter
    simp only [Prod.lex_def]
    omega

/-- Passes over the members of an object up to its closing bracket. -/
def skipMembers (first : Bool) (input : List Char) : Except Failure (Step input Unit) :=
  match skipMember first input with
  | .error failure => .error failure
  | .ok (.close rest shorter) => .ok ⟨(), rest, shorter⟩
  | .ok (.more rest noLonger) => do
    let key ← skipKey rest
    let head ← skipValue key.rest
    let tail ← skipMembers false head.rest
    return (key.join (fun _ _ => ()) (head.join (fun _ _ => ()) tail)).within noLonger
termination_by (input.length, 1)
decreasing_by
  · have := key.shorter
    simp only [Prod.lex_def]
    omega
  · have := key.shorter
    have := head.shorter
    simp only [Prod.lex_def]
    omega

end

end Json
end KernelRegistry
