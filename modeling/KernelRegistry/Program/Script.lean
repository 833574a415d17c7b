import KernelRegistry.Program.Format

/-!
# Scripts

A script is a list of simple commands, each after the other, or only if the one before succeeded or
failed.

* `Piece` — a part of a word: text, or a parameter to be replaced.
* `Token` — words and signs.
* `tokens` — the tokens of a text.
* `Command` — words and redirections.
* `Command.parse` — the commands of a text.
-/

set_option autoImplicit false
namespace KernelRegistry
namespace Program

/-- A part of a word. -/
inductive Piece where
  | text (cs : List Char)
  | parameter (name : List Char) (quoted : Bool)
  deriving DecidableEq, Repr

/-- A word or a sign. -/
inductive Token where
  | word (pieces : List Piece)
  | sign (c : Char)
  /-- The start of a redirection of an output. -/
  | redirect (descriptor : Nat)
  | lineEnd
  deriving DecidableEq, Repr

/-! ## Tokens -/

/-- Where one is in a text. -/
inductive Mode where
  | plain
  | single
  | double
  /-- After a backslash. -/
  | escaped (quoted : Bool)
  /-- In the name of a parameter. -/
  | name (quoted braced : Bool) (read : List Char)
  | comment
  deriving DecidableEq, Repr

/-- The tokens so far, the last one first, and the word that is being read, if one is. -/
structure Lexing where
  mode : Mode := .plain
  word : Option (List Piece) := none
  tokens : List Token := []

namespace Lexing

/-- Adds a piece to the word. -/
def add (l : Lexing) (piece : Piece) : Lexing :=
  { l with word := some (l.word.getD [] ++ [piece]) }

/-- Begins a word, if there is none. -/
def start (l : Lexing) : Lexing := { l with word := some (l.word.getD []) }

/-- Ends the word, if there is one. -/
def close (l : Lexing) : Lexing :=
  match l.word with
  | some pieces => { l with word := none, tokens := .word pieces :: l.tokens }
  | none => l

/-- Ends the word and adds a token. -/
def emit (l : Lexing) (token : Token) : Lexing :=
  let l := l.close
  { l with tokens := token :: l.tokens }

/-- The text of the word so far, if it has no parameter. -/
def wordText? (l : Lexing) : Option (List Char) :=
  (l.word.getD []).foldl (fun text piece =>
    match text, piece with
    | some cs, .text more => some (cs ++ more)
    | _, _ => none) (some [])

/-- Reads a character outside quotes. -/
def readPlain (l : Lexing) (c : Char) : Lexing :=
  if c = '\'' then { l.start with mode := .single }
  else if c = '"' then { l.start with mode := .double }
  else if c = '\\' then { l with mode := .escaped false }
  else if c = '$' then { l.start with mode := .name false false [] }
  else if c = '#' && l.word.isNone then { l with mode := .comment }
  else if c = ' ' || c = '\t' then l.close
  else if c = '\n' then l.emit .lineEnd
  else if c = '>' then
    match l.word, l.wordText? with
    | some _, some [d] =>
      if d.isDigit then { l with word := none }.emit (.redirect (d.toNat - '0'.toNat))
      else l.emit (.redirect 1)
    | _, _ => l.emit (.redirect 1)
  else if c = ';' || c = '&' || c = '|' || c = '<' || c = '(' || c = ')' then l.emit (.sign c)
  else l.add (.text [c])

/-- Reads a character between double quotes. -/
def readDouble (l : Lexing) (c : Char) : Lexing :=
  if c = '"' then { l with mode := .plain }
  else if c = '\\' then { l with mode := .escaped true }
  else if c = '$' then { l with mode := .name true false [] }
  else l.add (.text [c])

/-- Reads a character in the mode after a parameter. -/
def readBase (l : Lexing) (quoted : Bool) (c : Char) : Lexing :=
  if quoted then readDouble { l with mode := .double } c
  else readPlain { l with mode := .plain } c

/-- Ends a parameter; without a name the sign stands for itself. -/
def closeName (l : Lexing) (quoted : Bool) (name : List Char) : Lexing :=
  let mode := if quoted then Mode.double else .plain
  if name.isEmpty then { l.add (.text ['$']) with mode }
  else { l.add (.parameter name quoted) with mode }

/-- Reads a character. -/
def read (l : Lexing) (c : Char) : Lexing :=
  match l.mode with
  | .plain => l.readPlain c
  | .double => l.readDouble c
  | .single => if c = '\'' then { l with mode := .plain } else l.add (.text [c])
  | .comment => if c = '\n' then { l with mode := .plain }.emit .lineEnd else l
  | .escaped false =>
    let l := { l with mode := .plain }
    if c = '\n' then l else l.add (.text [c])
  | .escaped true =>
    let l := { l with mode := .double }
    if c = '\n' then l
    else if c = '$' || c = '"' || c = '\\' || c = Char.ofNat 0x60 then l.add (.text [c])
    else l.add (.text ['\\', c])
  | .name quoted true name =>
    if c = '\x7d' then l.closeName quoted name
    else { l with mode := .name quoted true (name ++ [c]) }
  | .name quoted false name =>
    if c = '\x7b' && name.isEmpty then { l with mode := .name quoted true [] }
    else if c.isAlpha || c = '_' || (c.isDigit && !name.isEmpty) then
      { l with mode := .name quoted false (name ++ [c]) }
    else if name.isEmpty && (c.isDigit || c = '#' || c = '$' || c = '?' || c = '@' || c = '*') then
      l.closeName quoted [c]
    else (l.closeName quoted name).readBase quoted c

/-- All tokens. -/
def finish (l : Lexing) : List Token :=
  let l := match l.mode with
    | .name quoted _ name => l.closeName quoted name
    | _ => l
  l.close.tokens.reverse

end Lexing

/-- The tokens of a text. -/
def tokens (cs : List Char) : List Token := (cs.foldl Lexing.read {}).finish

/-! ## Commands -/

/-- When a command is run. -/
inductive Condition where
  | always
  | afterSuccess
  | afterFailure
  deriving DecidableEq, Repr

/-- Where an output goes: a descriptor, or a file. -/
structure Redirection where
  descriptor : Nat
  toDescriptor : Bool
  target : List Piece
  deriving DecidableEq, Repr

/-- A simple command on a line. -/
structure Command where
  condition : Condition := .always
  /-- The next command depends on how this one ends. -/
  tested : Bool := false
  line : Nat := 1
  words : List (List Piece) := []
  redirections : List Redirection := []
  deriving DecidableEq, Repr

/-- The commands so far, the last one first. -/
structure Parsing where
  commands : List Command := []
  current : Command := {}
  /-- A redirection whose target comes next. -/
  pending : Option (Nat × Bool) := none
  line : Nat := 1
  /-- The sign that was read last. -/
  sign : Option Char := none

namespace Parsing

/-- Ends a command. -/
def close (p : Parsing) : Parsing :=
  let commands := if p.current.words.isEmpty then p.commands else p.current :: p.commands
  { p with commands, current := { line := p.line }, pending := none }

/-- Lets the next command depend on how the last one ends. -/
def link (p : Parsing) (condition : Condition) : Parsing :=
  { p with
    commands := p.commands.modifyHead fun c => { c with tested := true }
    current := { p.current with condition }
    sign := none }

/-- Reads a token. -/
def read (p : Parsing) (token : Token) : Parsing :=
  match token with
  | .lineEnd =>
    let p := { p with line := p.line + 1, sign := none }
    p.close
  | .redirect descriptor => { p with pending := some (descriptor, false), sign := none }
  | .word pieces =>
    match p.pending with
    | some (descriptor, toDescriptor) =>
      let redirection := Redirection.mk descriptor toDescriptor pieces
      { p with
        current := { p.current with redirections := p.current.redirections ++ [redirection] }
        pending := none, sign := none }
    | none =>
      { p with current := { p.current with words := p.current.words ++ [pieces] }, sign := none }
  | .sign c =>
    match p.pending, c with
    | some (descriptor, _), '&' => { p with pending := some (descriptor, true) }
    | _, '<' => { p with pending := some (0, false) }
    | _, _ =>
      if p.sign = some c && c = '&' then p.link .afterSuccess
      else if p.sign = some c && c = '|' then p.link .afterFailure
      else { p.close with sign := some c }

end Parsing

/-- The commands of a text. -/
def Command.parse (cs : List Char) : List Command :=
  ((tokens cs).foldl Parsing.read {}).close.commands.reverse

end Program
end KernelRegistry
