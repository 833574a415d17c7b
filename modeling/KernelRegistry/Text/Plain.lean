/-!
# Text without control sequences

What is shown to the user as help or as a usage error is plain text: control characters and the
sequences that an escape character starts are left out.

* `Sequence` — what kind of control sequence one is inside of.
* `plain` — the text without them.
-/

set_option autoImplicit false
namespace KernelRegistry
namespace Text

/-- Where one is with respect to control sequences. -/
inductive Sequence where
  /-- Outside. -/
  | none
  /-- After the escape character; `long` if more characters of the sequence were read. -/
  | escape (long : Bool)
  /-- In a sequence that a letter ends. -/
  | parameters
  /-- In a sequence that holds a text; `titled` if a bell ends it too. -/
  | held (titled : Bool)
  deriving DecidableEq, Repr

/-- The blanks that a terminal shows, and that stay. -/
def isKeptBlank (c : Char) : Bool :=
  c = '\t' || c = '\n' || c = '\r' || c = Char.ofNat 0x0C

/-- Whether the number of a character is in a range. -/
def within (first last : Nat) (c : Char) : Bool := first ≤ c.toNat && c.toNat ≤ last

/-- Where one is after a character of a control sequence, and whether it is kept. -/
def Sequence.next (s : Sequence) (c : Char) : Sequence × Bool :=
  if c = Char.ofNat 0x1B then (.escape false, false)
  else if c = Char.ofNat 0x18 || c = Char.ofNat 0x1A then (.none, false)
  else if 0x80 ≤ c.toNat then (.none, true)
  else
    match s with
    | .none => (.none, isKeptBlank c || within 0x20 0x7E c)
    | .held titled => (if titled && c = Char.ofNat 0x07 then .none else s, false)
    | _ =>
      if isKeptBlank c then (.none, true)
      else if c.toNat < 0x20 || c.toNat = 0x7F then (s, false)
      else
        match s with
        | .escape long =>
          if within 0x20 0x2F c then (.escape true, false)
          else if long then (.none, false)
          else if c = '[' then (.parameters, false)
          else if c = ']' then (.held true, false)
          else if c = 'P' || c = 'X' || c = '^' || c = '_' then (.held false, false)
          else (.none, false)
        | _ => (if within 0x40 0x7E c then .none else s, false)

/-- The characters that are kept. -/
def plainChars (s : Sequence) : List Char → List Char
  | [] => []
  | c :: cs =>
    let (s, kept) := s.next c
    if kept then c :: plainChars s cs else plainChars s cs

/-- A text without control characters and control sequences. -/
def plain (s : String) : String := String.ofList (plainChars .none s.toList)

end Text
end KernelRegistry
