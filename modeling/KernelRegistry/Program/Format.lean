import KernelRegistry.Program.Outcome

/-!
# Printing programs

Inside programs a byte is a character below 256.

* `latin`, `bytesOf` — from bytes and back.
* `unescape` — the text of escapes with a backslash.
* `Directive` — what a format says about an argument.
* `printFormat` — a format with its arguments.
* `echoText` — arguments with blanks between them.
-/

set_option autoImplicit false
namespace KernelRegistry
namespace Program

open Text (Bytes)

/-- Bytes as characters. -/
def latin (bytes : Bytes) : List Char := bytes.map fun b => Char.ofNat b.toNat

/-- Characters as bytes. -/
def bytesOf (cs : List Char) : Bytes := cs.map fun c => UInt8.ofNat c.toNat

/-- The digits that an escape by number has. -/
def isOctal (c : Char) : Bool := '0' ≤ c && c ≤ '7'

/-- The number of octal digits. -/
def octalValue (digits : List Char) : Nat :=
  digits.foldl (fun n c => n * 8 + (c.toNat - '0'.toNat)) 0

/-- The character of an escape that is one letter. -/
def escapeLetter? (c : Char) : Option Char :=
  match c with
  | 'a' => some (Char.ofNat 7)
  | 'b' => some (Char.ofNat 8)
  | 'f' => some (Char.ofNat 12)
  | 'n' => some '\n'
  | 'r' => some '\r'
  | 't' => some '\t'
  | 'v' => some (Char.ofNat 11)
  | '\\' => some '\\'
  | '"' => some '"'
  | _ => none

/-- Which escapes a program knows. -/
structure EscapeRules where
  /-- How many digits may follow a leading zero. -/
  afterZero : Nat
  /-- Some tools know an escape with hexadecimal digits. -/
  hexadecimal : Bool := false

/-- The value of a hexadecimal digit. -/
def hexValue? (c : Char) : Option Nat :=
  if c.isDigit then some (c.toNat - '0'.toNat)
  else if 'a' ≤ c && c ≤ 'f' then some (c.toNat - 'a'.toNat + 10)
  else if 'A' ≤ c && c ≤ 'F' then some (c.toNat - 'A'.toNat + 10)
  else none

/-- The number of hexadecimal digits. -/
def hexValue (digits : List Char) : Nat :=
  digits.foldl (fun n c => n * 16 + (hexValue? c).getD 0) 0

/-- One escape, the backslash being read: what it stands for, and the rest. -/
def readEscape (rules : EscapeRules) (cs : List Char) : List Char × List Char :=
  match cs with
  | [] => (['\\'], [])
  | c :: rest =>
    let hexDigits := (rest.take 2).takeWhile fun d => (hexValue? d).isSome
    if isOctal c then
      let limit := if c = '0' then rules.afterZero else 2
      let more := (rest.take limit).takeWhile isOctal
      ([Char.ofNat (octalValue (c :: more) % 256)], rest.drop more.length)
    else if c = 'x' && rules.hexadecimal && !hexDigits.isEmpty then
      ([Char.ofNat (hexValue hexDigits)], rest.drop hexDigits.length)
    else
      match escapeLetter? c with
      | some image => ([image], rest)
      | none => (['\\', c], rest)

theorem readEscape_length_le (rules : EscapeRules) (cs : List Char) :
    (readEscape rules cs).2.length ≤ cs.length := by
  unfold readEscape
  split
  · simp
  · dsimp only
    split
    · simp only [List.length_drop, List.length_cons]; omega
    · split
      · simp only [List.length_drop, List.length_cons]; omega
      · split <;> simp

/-- A text with its escapes replaced, and whether it went on to its end: one escape ends it. -/
def unescape (rules : EscapeRules) (cs : List Char) : List Char × Bool :=
  match cs with
  | [] => ([], true)
  | '\\' :: 'c' :: _ => ([], false)
  | '\\' :: rest =>
    let step := readEscape rules rest
    let more := unescape rules step.2
    (step.1 ++ more.1, more.2)
  | c :: rest =>
    let more := unescape rules rest
    (c :: more.1, more.2)
termination_by cs.length
decreasing_by
  · have := readEscape_length_le rules rest
    simp only [List.length_cons]
    omega
  · simp

/-! ## Directives -/

/-- A directive of a format. -/
structure Directive where
  /-- The text is put at the left of its column. -/
  left : Bool := false
  /-- Numbers are filled up with zeros. -/
  zeros : Bool := false
  width : Nat := 0
  kind : Char

/-- The number of decimal digits. -/
def decimalValue (digits : List Char) : Nat :=
  digits.foldl (fun n c => n * 10 + (c.toNat - '0'.toNat)) 0

/-- The directive at the front of a format, the percent sign being read. -/
def readDirective (cs : List Char) : Option (Directive × List Char) :=
  let flags := cs.takeWhile fun c => c = '-' || c = '0'
  let afterFlags := cs.drop flags.length
  let digits := afterFlags.takeWhile Char.isDigit
  match afterFlags.drop digits.length with
  | [] => none
  | kind :: rest =>
    some ({ left := flags.contains '-', zeros := flags.contains '0', width := decimalValue digits
            kind }, rest)

/-- The directives that read their argument as a number. -/
def Directive.isNumeric (d : Directive) : Bool := d.kind = 'd' || d.kind = 'i' || d.kind = 'u'

/-- The text of a directive for an argument, before its column is filled. -/
def Directive.text (d : Directive) (rules : EscapeRules) (argument : List Char) : List Char :=
  if d.kind = 'b' then (unescape { rules with afterZero := 3 } argument).1
  else if d.kind = 'c' then argument.take 1
  else if d.isNumeric && argument.isEmpty then ['0']
  else argument

/-- A text that fills its column. -/
def Directive.fill (d : Directive) (text : List Char) : List Char :=
  let padding := List.replicate (d.width - text.length)
  if d.left then text ++ padding ' '
  else if d.zeros && d.isNumeric then padding '0' ++ text
  else padding ' ' ++ text

/-- One pass over a format: what is printed, and the arguments that are left.  Every step reads a
character at least. -/
def printPass (rules : EscapeRules) : (steps : Nat) → (format : List Char) →
    (arguments : List (List Char)) → List Char × List (List Char)
  | 0, _, arguments => ([], arguments)
  | steps + 1, format, arguments =>
    match format with
    | [] => ([], arguments)
    | '%' :: '%' :: rest =>
      let more := printPass rules steps rest arguments
      ('%' :: more.1, more.2)
    | '%' :: rest =>
      match readDirective rest with
      | none => ('%' :: rest, arguments)
      | some (directive, rest) =>
        let more := printPass rules steps rest arguments.tail
        (directive.fill (directive.text rules (arguments.headD [])) ++ more.1, more.2)
    | '\\' :: 'c' :: _ => ([], [])
    | '\\' :: rest =>
      let step := readEscape rules rest
      let more := printPass rules steps step.2 arguments
      (step.1 ++ more.1, more.2)
    | c :: rest =>
      let more := printPass rules steps rest arguments
      (c :: more.1, more.2)

/-- Uses a format until no arguments are left. -/
def printPasses (rules : EscapeRules) (format : List Char) : (passes : Nat) →
    (left : List (List Char)) → List Char
  | 0, _ => []
  | passes + 1, left =>
    if left.isEmpty then []
    else
      let pass := printPass rules format.length format left
      pass.1 ++ printPasses rules format passes pass.2

/-- A format with its arguments; it is used again while arguments are left, if it takes any. -/
def printFormat (hexadecimal : Bool) (format : List Char) (arguments : List (List Char)) :
    List Char :=
  let rules : EscapeRules := { afterZero := 2, hexadecimal }
  let pass := printPass rules format.length format arguments
  if pass.2.length < arguments.length then
    pass.1 ++ printPasses rules format arguments.length pass.2
  else pass.1

/-- Arguments with blanks between them. -/
def spaced (arguments : List (List Char)) : List Char := [' '].intercalate arguments

/-- The arguments with blanks between them, as `echo` prints them.  Escapes are replaced if there
are rules for them. -/
def echoText (escapes : Option EscapeRules) (lineEnd : Bool) (arguments : List (List Char)) :
    List Char :=
  let text := spaced arguments
  let ending := if lineEnd then ['\n'] else []
  match escapes.map fun rules => unescape rules text with
  | some (text, true) => text ++ ending
  | some (text, false) => text
  | none => text ++ ending

end Program
end KernelRegistry
