import KernelRegistry.CommandLine.Options

/-!
# The help text

Options stand in one column and what they do in another one.  If the first column is wide, but
still leaves room, the second goes to lines of its own.

* `Key.help` — what an option does.
* `Layout` — the width of the first column, and whether lines are broken after it.
* `helpText` — the whole text.
* `versionText` — the program and its version.
-/

set_option autoImplicit false
namespace KernelRegistry
namespace CommandLine

/-- The name of the program. -/
def programName : String := "install-kernel"

/-- The program and its version. -/
def versionText : String := programName ++ " 0.1.0\n"

/-- The explanation of an option, if it is one of the installer. -/
def Key.help? : Key → Option String
  | switch .user => some "Install to the per-user kernel registry"
  | switch .sysPrefix =>
    some "Install to Python's sys.prefix. Useful in conda/virtual environments"
  | switch .legacy => some "Install to $HOME/.ipython. Not recommended but available if needed"
  | switch .replace => some "Replace any existing kernel spec with this name"
  | switch .debug => some "Enable debug output"
  | held .location =>
    some ("Specify a prefix to install to, e.g. an env. The kernelspec will be installed in " ++
      "PREFIX/share/jupyter/kernels/")
  | held .python => some "Python executable used to resolve sys.prefix"
  | held .manifest =>
    some "Installer manifest (defaults to installer.json beside this executable)"
  | assignment => some "Set a kernel parameter by name"
  | parameter p => p.help?
  | help => some "Print help"
  | version => some "Print version"

/-- The letter of an option, or blanks in its place. -/
def Key.letterColumn : Key → String
  | help => "-h, "
  | version => "-V, "
  | _ => "    "

/-- The first column of an option. -/
def Key.column (key : Key) : String := key.letterColumn ++ key.shown

/-- How the columns are laid out. -/
structure Layout where
  /-- The width of the widest first column. -/
  width : Nat
  /-- The second column starts on a line of its own, because the first one is too wide. -/
  broken : Bool

/-- The width of the screen. -/
def screenWidth : Nat := 100

/-- The layout for some options.  The lines are broken if the first column takes more than two
fifths of the screen, but not more than all, and some text does not fit beside it. -/
def Layout.of (keys : List Key) : Layout :=
  let width := (keys.map (·.column.length)).foldl max 2
  let taken := width + 8
  let narrow := keys.any fun key => screenWidth - taken < ((key.help?).getD "").length
  ⟨width, taken ≤ screenWidth && 2 * screenWidth < 5 * taken && narrow⟩

/-- Blanks. -/
def blanks (n : Nat) : String := String.ofList (List.replicate n ' ')

/-- A text in which the mark for a new line is replaced, and every line but the first is set in. -/
def indented (indent : Nat) (s : String) : String :=
  String.ofList (go s.toList)
where
  go : List Char → List Char
    | '\x7b' :: 'n' :: '\x7d' :: cs => '\n' :: List.replicate indent ' ' ++ go cs
    | '\n' :: cs => '\n' :: List.replicate indent ' ' ++ go cs
    | c :: cs => c :: go cs
    | [] => []

/-- The lines of an option. -/
def Layout.entry (layout : Layout) (key : Key) : String :=
  let text := (key.help?).getD ""
  if layout.broken then
    "  " ++ key.column ++ "\n" ++ blanks 10 ++ indented 10 text
  else
    "  " ++ key.column ++ blanks (layout.width + 2 - key.column.length) ++
      indented (layout.width + 4) text

/-- The whole help text, for a program that was called by some name. -/
def helpText (m : Manifest) (calledAs : String) : String :=
  let all := keys m
  let layout := Layout.of all
  m.about ++ "\n\nUsage: " ++ calledAs ++ " [OPTIONS]\n\nOptions:\n" ++
    "\n".intercalate (all.map layout.entry) ++ "\n"

end CommandLine
end KernelRegistry
