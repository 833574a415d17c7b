/-!
# UTF-8

Paths, file contents and what a child process prints are bytes; messages and documents are text.
This file passes between the two.

* `encode` — the bytes of a text.
* `pieces` — bytes cut into characters and ill-formed stretches, each of those as long as it could
  still have become a character.
* `decode?` — the text of well-formed bytes.
* `decodeLossy` — the text of any bytes, with U+FFFD for each ill-formed stretch.
-/

set_option autoImplicit false
namespace KernelRegistry
namespace Text

/-- A string of bytes. -/
abbrev Bytes := List UInt8

/-- The bytes of a text. -/
def encodeChars (cs : List Char) : Bytes :=
  cs.flatMap String.utf8EncodeChar

/-- The bytes of a string. -/
def encode (s : String) : Bytes :=
  encodeChars s.toList

/-- The ranges in which the bytes after a first byte have to lie, one range for each; `none` if no
character starts with this byte.  The second byte is restricted so that overlong forms, surrogates
and numbers past the last code point are excluded. -/
def followers (first : UInt8) : Option (List (UInt8 × UInt8)) :=
  let any : UInt8 × UInt8 := (0x80, 0xBF)
  if first < 0x80 then some []
  else if first < 0xC2 then none
  else if first < 0xE0 then some [any]
  else if first = 0xE0 then some [(0xA0, 0xBF), any]
  else if first = 0xED then some [(0x80, 0x9F), any]
  else if first < 0xF0 then some [any, any]
  else if first = 0xF0 then some [(0x90, 0xBF), any, any]
  else if first < 0xF4 then some [any, any, any]
  else if first = 0xF4 then some [(0x80, 0x8F), any, any]
  else none

/-- The bytes that follow as the ranges ask, up to the first that does not, and the rest. -/
def takeFollowers : List (UInt8 × UInt8) → Bytes → Bytes × Bytes
  | range :: ranges, b :: bs =>
    if range.1 ≤ b ∧ b ≤ range.2 then
      let (taken, rest) := takeFollowers ranges bs
      (b :: taken, rest)
    else ([], b :: bs)
  | _, bs => ([], bs)

theorem takeFollowers_append (ranges : List (UInt8 × UInt8)) (bs : Bytes) :
    (takeFollowers ranges bs).1 ++ (takeFollowers ranges bs).2 = bs := by
  fun_induction takeFollowers ranges bs <;> simp_all

theorem takeFollowers_length_le (ranges : List (UInt8 × UInt8)) (bs : Bytes) :
    (takeFollowers ranges bs).2.length ≤ bs.length := by
  have h := congrArg List.length (takeFollowers_append ranges bs)
  rw [List.length_append] at h
  omega

/-- The character with this first byte and these following bytes: the first byte gives its low
bits, as many as their number leaves, and each following byte six more. -/
def combine (first : UInt8) (followed : Bytes) : Char :=
  let head :=
    match followed.length with
    | 0 => first.toNat
    | 1 => first.toNat % 0x20
    | 2 => first.toNat % 0x10
    | _ => first.toNat % 0x08
  Char.ofNat (followed.foldl (fun n b => n * 0x40 + b.toNat % 0x40) head)

/-- Bytes cut into characters (`some`) and ill-formed stretches (`none`). -/
def pieces (bytes : Bytes) : List (Option Char) :=
  match bytes with
  | [] => []
  | first :: more =>
    match followers first with
    | none => none :: pieces more
    | some ranges =>
      let cut := takeFollowers ranges more
      (if cut.1.length = ranges.length then some (combine first cut.1) else none) :: pieces cut.2
termination_by bytes.length
decreasing_by
  · simp
  · have := takeFollowers_length_le ranges more
    simp only [List.length_cons]
    omega

/-- The text of well-formed bytes. -/
def decode? (bytes : Bytes) : Option String :=
  ((pieces bytes).mapM id).map String.ofList

/-- The character that is shown in place of bytes that are no text. -/
def replacement : Char := Char.ofNat 0xFFFD

/-- The text of any bytes. -/
def decodeLossy (bytes : Bytes) : String :=
  String.ofList ((pieces bytes).map (·.getD replacement))

end Text
end KernelRegistry
