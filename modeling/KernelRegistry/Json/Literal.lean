import KernelRegistry.Json.Step

/-!
# Words and strings

* `readWord` — the letters of `null`, `true` and `false`.
* `readEscape` — what stands after a backslash; characters outside the basic plane are two escapes
  in a row, a leading and a trailing surrogate.
* `readString` — the characters of a string.
* `skipString` — the extent of a string whose characters are not wanted.  Here a surrogate may
  stand alone.
-/

set_option autoImplicit false
namespace KernelRegistry
namespace Json

/-- Reads the given letters.  The first one that differs is a failure, and it is reported where it
stands. -/
def readWord : (letters : List Char) → (input : List Char) →
    Except Failure {rest : List Char // rest.length ≤ input.length}
  | [], input => .ok ⟨input, length_le_self input⟩
  | _ :: _, [] => .error (.at .endInValue [])
  | letter :: letters, c :: input =>
    if c = letter then do
      let ⟨rest, h⟩ ← readWord letters input
      return ⟨rest, Nat.le_succ_of_le h⟩
    else .error (.past .expectedWord (c :: input))

/-! ## Escapes -/

/-- The value of a hexadecimal digit. -/
def hexDigit? (c : Char) : Option Nat :=
  if '0' ≤ c && c ≤ '9' then some (c.toNat - '0'.toNat)
  else if 'a' ≤ c && c ≤ 'f' then some (c.toNat - 'a'.toNat + 10)
  else if 'A' ≤ c && c ≤ 'F' then some (c.toNat - 'A'.toNat + 10)
  else none

/-- The value of four hexadecimal digits. -/
def hexFour? (a b c d : Char) : Option Nat := do
  return (((← hexDigit? a) * 16 + (← hexDigit? b)) * 16 + (← hexDigit? c)) * 16 + (← hexDigit? d)

/-- Why there is no number of four digits: too few bytes are left, or some are no digits. -/
def hexFailure (input : List Char) : Failure :=
  if 4 ≤ (utf8 input).length then ⟨.invalidEscape, input, 4⟩ else .at .endInString []

/-- Four hexadecimal digits. -/
def readHexFour (input : List Char) : Except Failure (Step input Nat) :=
  match input with
  | a :: b :: c :: d :: rest =>
    match hexFour? a b c d with
    | some n => .ok ⟨n, rest, by simp only [List.length_cons]; omega⟩
    | none => .error (hexFailure (a :: b :: c :: d :: rest))
  | short => .error (hexFailure short)

/-- The numbers that have to be followed by a second one to make a character. -/
def isLeading (n : Nat) : Bool := 0xD800 ≤ n && n ≤ 0xDBFF

/-- The numbers that can be such a second one. -/
def isTrailing (n : Nat) : Bool := 0xDC00 ≤ n && n ≤ 0xDFFF

/-- The character of a pair of surrogates. -/
def ofSurrogates (leading trailing : Nat) : Char :=
  Char.ofNat (0x10000 + (leading - 0xD800) * 0x400 + (trailing - 0xDC00))

/-- The number of a second escape, which a leading surrogate asks for. -/
def readSecondEscape (input : List Char) : Except Failure (Step input Nat) :=
  match input with
  | [] => .error (.at .endInString [])
  | '\\' :: [] => .error (.at .endInString [])
  | '\\' :: 'u' :: rest =>
    (readHexFour rest).map (·.within (by simp only [List.length_cons]; omega))
  | '\\' :: other => .error (.past .endOfSurrogatePair other)
  | other => .error (.past .endOfSurrogatePair other)

/-- The character of an escape by number. -/
def readNumbered (input : List Char) : Except Failure (Step input Char) := do
  let first ← readHexFour input
  if isTrailing first.value then .error (.at .loneSurrogate first.rest)
  else if isLeading first.value then do
    let second ← readSecondEscape first.rest
    if isTrailing second.value then
      return (second.map (ofSurrogates first.value)).within (Nat.le_of_lt first.shorter)
    else .error (.at .loneSurrogate second.rest)
  else return first.map Char.ofNat

/-- The character of an escape that is one letter. -/
def letterEscape? (c : Char) : Option Char :=
  match c with
  | '"' | '\\' | '/' => some c
  | 'b' => some (Char.ofNat 0x08)
  | 'f' => some (Char.ofNat 0x0C)
  | 'n' => some '\n'
  | 'r' => some '\r'
  | 't' => some '\t'
  | _ => none

/-- The character that an escape stands for, the backslash being read. -/
def readEscape (input : List Char) : Except Failure (Step input Char) :=
  match input with
  | [] => .error (.at .endInString [])
  | 'u' :: rest => (readNumbered rest).map (·.cons 'u')
  | c :: rest =>
    match letterEscape? c with
    | some image => .ok ⟨image, rest, by simp⟩
    | none => .error (.past .invalidEscape (c :: rest))

/-- The end of an escape whose character is not wanted. -/
def skipEscape (input : List Char) : Except Failure (Step input Unit) :=
  match input with
  | [] => .error (.at .endInString [])
  | 'u' :: rest => (readHexFour rest).map fun step => (step.map fun _ => ()).cons 'u'
  | c :: rest =>
    match letterEscape? c with
    | some _ => .ok ⟨(), rest, by simp⟩
    | none => .error (.past .invalidEscape (c :: rest))

/-! ## Strings -/

/-- The characters that may not stand in a string as they are. -/
def isControl (c : Char) : Bool := c.toNat < 0x20

/-- The characters of a string, the opening quote being read. -/
def readString (input : List Char) : Except Failure (Step input (List Char)) :=
  match input with
  | [] => .error (.at .endInString [])
  | '"' :: rest => .ok ⟨[], rest, by simp⟩
  | '\\' :: rest => do
    let c ← readEscape rest
    let cs ← readString c.rest
    return ⟨c.value :: cs.value, cs.rest, by
      have := c.shorter; have := cs.shorter; simp only [List.length_cons]; omega⟩
  | c :: rest =>
    if isControl c then .error (.at .controlCharacter rest)
    else do
      let cs ← readString rest
      return ⟨c :: cs.value, cs.rest, Nat.lt_succ_of_lt cs.shorter⟩
termination_by input.length
decreasing_by
  · have := c.shorter
    simp only [List.length_cons]
    omega
  · simp

/-- The end of a string whose characters are not wanted, the opening quote being read. -/
def skipString (input : List Char) : Except Failure (Step input Unit) :=
  match input with
  | [] => .error (.at .endInString [])
  | '"' :: rest => .ok ⟨(), rest, by simp⟩
  | '\\' :: rest => do
    let escape ← skipEscape rest
    let more ← skipString escape.rest
    return ⟨(), more.rest, by
      have := escape.shorter; have := more.shorter; simp only [List.length_cons]; omega⟩
  | c :: rest =>
    if isControl c then .error (.at .controlCharacter (c :: rest))
    else do
      let more ← skipString rest
      return ⟨(), more.rest, Nat.lt_succ_of_lt more.shorter⟩
termination_by input.length
decreasing_by
  · have := escape.shorter
    simp only [List.length_cons]
    omega
  · simp

end Json
end KernelRegistry
