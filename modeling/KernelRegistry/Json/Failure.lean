import KernelRegistry.Decimal.Shortest
import KernelRegistry.Json.Basic
import KernelRegistry.Text.Quoted

/-!
# Why a text is not the document that was asked for

* `Json.Reason` — the cause.
* `Json.Failure` — a cause and a place, the place given by what was not yet read.
* `Json.Position` — a line and a column, the column counted in bytes.
* `Json.Failure.message` — the wording, with the position in the text.
-/

set_option autoImplicit false
namespace KernelRegistry
namespace Json

/-- The thing that stood where something else was expected, as messages call it. -/
inductive Found where
  | null
  | bool (value : Bool)
  | number (value : Number)
  | string (value : String)
  | sequence
  | map
  /-- The name of an alternative without a value for it. -/
  | unitVariant
  deriving DecidableEq

/-- The causes.  The first group says that the text is no document, the second that the document
has another form than the one asked for. -/
inductive Reason where
  | endInValue
  | endInList
  | endInObject
  | endInString
  | expectedColon
  | expectedListEnd
  | expectedObjectEnd
  | expectedWord
  | expectedValue
  | invalidEscape
  | invalidNumber
  | numberOutOfRange
  | loneSurrogate
  | endOfSurrogatePair
  | keyNotString
  | controlCharacter
  | trailingComma
  | trailingCharacters
  | tooDeep
  | wrongType (found : Found) (expected : String)
  | wrongValue (found : Found) (expected : String)
  | wrongLength (length : Nat) (expected : String)
  | unknownVariant (name : String) (known : List String)
  | missingField (name : String)
  | duplicateField (name : String)
  deriving DecidableEq

/-- A cause and its place: `ahead` bytes into the part of the text that was not read. -/
structure Failure where
  reason : Reason
  unread : List Char
  ahead : Nat := 0
  deriving DecidableEq

/-- A place in a text. -/
structure Position where
  line : Nat
  column : Nat
  deriving DecidableEq, Repr

/-! ## Places -/

/-- The position after the given bytes: one more than the line ends among them, and the number of
bytes after the last line end. -/
def Position.after (bytes : List UInt8) : Position :=
  bytes.foldl (fun p b => if b = 10 then ⟨p.line + 1, 0⟩ else ⟨p.line, p.column + 1⟩) ⟨1, 0⟩

/-- The bytes of some characters. -/
def utf8 (cs : List Char) : List UInt8 := cs.flatMap String.utf8EncodeChar

/-- The position of a failure in the text that was read; never past its end. -/
def Failure.position (f : Failure) (text : List Char) : Position :=
  let bytes := utf8 text
  Position.after (bytes.take (bytes.length - (utf8 f.unread).length + f.ahead))

/-! ## Wording -/

/-- The name of what was found. -/
def Found.describe : Found → String
  | .null => "null"
  | .bool b => "boolean `" ++ (if b then "true" else "false") ++ "`"
  | .number (.int n) => "integer `" ++ toString n ++ "`"
  | .number (.real x) => "floating point `" ++ x.format ++ "`"
  | .string s => "string " ++ Text.quoted s
  | .sequence => "sequence"
  | .map => "map"
  | .unitVariant => "unit variant"

/-- Names between backquotes, with commas between them. -/
def backquoted (names : List String) : String :=
  ", ".intercalate (names.map fun name => "`" ++ name ++ "`")

/-- The wording of a cause. -/
def Reason.message : Reason → String
  | .endInValue => "EOF while parsing a value"
  | .endInList => "EOF while parsing a list"
  | .endInObject => "EOF while parsing an object"
  | .endInString => "EOF while parsing a string"
  | .expectedColon => "expected `:`"
  | .expectedListEnd => "expected `,` or `]`"
  | .expectedObjectEnd => "expected `,` or `\x7d`"
  | .expectedWord => "expected ident"
  | .expectedValue => "expected value"
  | .invalidEscape => "invalid escape"
  | .invalidNumber => "invalid number"
  | .numberOutOfRange => "number out of range"
  | .loneSurrogate => "lone leading surrogate in hex escape"
  | .endOfSurrogatePair => "unexpected end of hex escape"
  | .keyNotString => "key must be a string"
  | .controlCharacter => "control character (\\u0000-\\u001F) found while parsing a string"
  | .trailingComma => "trailing comma"
  | .trailingCharacters => "trailing characters"
  | .tooDeep => "recursion limit exceeded"
  | .wrongType found expected => "invalid type: " ++ found.describe ++ ", expected " ++ expected
  | .wrongValue found expected => "invalid value: " ++ found.describe ++ ", expected " ++ expected
  | .wrongLength n expected => "invalid length " ++ toString n ++ ", expected " ++ expected
  | .unknownVariant name known =>
    "unknown variant `" ++ name ++ "`, expected " ++
      (if known.length = 1 then "" else "one of ") ++ backquoted known
  | .missingField name => "missing field `" ++ name ++ "`"
  | .duplicateField name => "duplicate field `" ++ name ++ "`"

/-- The wording of a failure in a text. -/
def Failure.message (f : Failure) (text : List Char) : String :=
  let p := f.position text
  f.reason.message ++ " at line " ++ toString p.line ++ " column " ++ toString p.column

end Json
end KernelRegistry
