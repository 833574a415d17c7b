import KernelRegistry.Proofs.CommandLine.Settings
import KernelRegistry.Proofs.FileTree.ReadBack
import KernelRegistry.Proofs.Install.Containment
import KernelRegistry.Proofs.Settings
import KernelRegistry.Proofs.Template.Rendering

/-!
# The environment of an installed kernel

What the command line and the defaults put into the table comes out of the installed kernel file as
it is.  Nothing is asked of the paths: the file is read back through the path that it was written
to, wherever that leads.

* `Request.of_eq_ok` — a request has the table of the settings it was made from.
* `Request.TemplateRead` — the template that an installation reads.
* `Request.Course.written` — the kernel file of an installation that succeeded is read back.
* `Template.EnvironmentOf` — the `env` of a kernel file, by what the table and the template have.
* `Request.install_environment` — **only declared values reach the installed environment**, and all
  of them do.
* `Request.install_environment_changes` — a number of the template that comes out as another one.
-/

set_option autoImplicit false
namespace KernelRegistry

open FileTree (FreeStart)

/-! ## What an installation writes -/

namespace Request

open FileTree

section Written

variable {listing : Listing} {resolver : Resolver} {m : Machine} {r : Request} {t u : FileTree}
variable {p : Path} {report : Report} {manifest : Manifest} {invocation : CommandLine.Invocation}

theorem of_eq_ok (h : Request.of m manifest invocation = .ok r) :
    r.manifest = manifest ∧ invocation.settings.environment manifest = .ok r.environment := by
  obtain ⟨environment, henvironment, h⟩ := of_bind_eq_ok h
  obtain ⟨_, -, hr⟩ := of_bind_eq_ok h
  cases hr
  cases hsettings : invocation.settings.environment manifest with
  | error defect => rw [hsettings] at henvironment; cases henvironment
  | ok env =>
    rw [hsettings] at henvironment
    exact ⟨rfl, congrArg Except.ok (Except.ok.inj henvironment)⟩

/-- The template that an installation to a path reads: what its file has after the path was cleared
and the bundle was copied. -/
def TemplateRead [Disk] (listing : Listing) (m : Machine) (r : Request) (t : FileTree) (p : Path)
    (template : String) : Prop :=
  ∃ replaced c count u, Clearing m.working r p t replaced c ∧
    copyTree listing m.working r.manifest.bundle p c = .ok count u ∧
    u.textAt m.working r.manifest.template = .ok template

theorem Clearing.freeStart [Disk] {c : FileTree} {replaced : Bool}
    (h : Clearing m.working r p t replaced c) {q : Path}
    (hq : FreeStart t m.working q) : FreeStart c m.working q := by
  cases h with
  | nothing => exact hq
  | removed hexists hreplace hremove =>
    have hshrunk := removeAll_shrunk m.working p t
    rw [Action.after_of_ok hremove] at hshrunk
    exact hshrunk.freeStart hq

/-- The path to install to has bytes. -/
theorem isEmpty_destination (h : r.destination resolver m = .ok p) : p.isEmpty = false := by
  obtain ⟨data, -, rfl⟩ := destination_eq h
  rw [Resolver.kernelBelow_eq]
  exact Path.isEmpty_join (Resolver.kernelsBelow_ne_nil data) _

/-- **The kernel file of an installation that succeeded is read back**: it is the template that was
read, rendered for the destination. -/
theorem Course.written [Disk] (h : Course listing resolver m r t (.ok report) u)
    (hground : ∀ q, FreeStart t m.working q) :
    ∃ template rendered, TemplateRead listing m r t report.destination template ∧
      Template.render template report.destination r.environment = .ok rendered ∧
      u.textAt m.working (report.destination.joinText kernelFileName) = .ok rendered := by
  cases h with
  | @done p replaced c v w count template rendered hresolve hclear hcopy hread hrender hwrite =>
    have hp := hclear.freeStart (hground p)
    have hbundle := hclear.freeStart (hground r.manifest.bundle)
    have hfile := copyTree_freeStart hbundle hp (isEmpty_destination hresolve) hcopy
      (.ofString kernelFileName)
    exact ⟨template, rendered, ⟨replaced, c, count, v, hclear, hcopy, (readText_eq_ok hread).2⟩,
      hrender, writeFile_textAt hfile hwrite⟩

end Written

end Request

/-! ## The environment in a kernel file -/

namespace Template

open Json

/-- The `env` of a kernel file that is read: what the table has under a name is there as a string;
of everything else, what the template has there, with floating-point numbers read anew; no name is
there twice. -/
structure EnvironmentOf (env : Environment) (inner own : List (String × Json)) : Prop where
  sorted : Entries.Sorted own
  lookup : ∀ name, Entries.lookup name own =
    ((env.get? name).map Json.string).or ((Entries.lookup name inner).map Json.reread)

section Environment

variable {env : Environment} {members merged inner own : List (String × Json)} {name value : String}
variable {v : Json}

theorem reread_object (members : List (String × Json)) :
    (Json.object members).reread = .object (members.map fun m => (m.1, m.2.reread)) := by
  rw [reread, mapNumbers, mapNumbersMembers_eq]
  rfl

theorem sorted_map (h : Entries.Sorted members) :
    Entries.Sorted (members.map fun m => (m.1, m.2.reread)) :=
  List.pairwise_map.2 h

/-- The `env` of the merged document, when it was printed and is read. -/
theorem Merged.environmentOf (h : Merged env members merged) :
    ∃ inner own, (Entries.lookup "env" members).getD (.object []) = .object inner ∧
      Entries.lookup "env" (merged.map fun m => (m.1, m.2.reread)) = some (.object own) ∧
      EnvironmentOf env inner own := by
  obtain ⟨inner, inner', hinner, hown, hlookup⟩ := h.environment
  have hcanonical := canonicalMembers_iff.1 h.canonical.2 _ (Entries.mem_of_lookup hown)
  refine ⟨inner, _, hinner, ?_, sorted_map hcanonical.1, fun name => ?_⟩
  · rw [Entries.lookup_map, hown, Option.map_some, reread_object]
  · rw [Entries.lookup_map, hlookup]
    cases env.get? name <;> rfl

/-- Everything in the `env` of a filled template was read, so it can be read again. -/
theorem readable_environment {template : String} {directory : Path}
    (hfilled : filledDocument template directory = .ok (.object members))
    (hinner : (Entries.lookup "env" members).getD (.object []) = .object inner)
    (hv : Entries.lookup name inner = some v) : EveryNumber Number.Readable v := by
  have hempty : Fits Number.Readable (depthLimit - 1) (.object []) := .object fun m hm => nomatch hm
  have hinside : Fits Number.Readable (depthLimit - 1) (.object inner) := by
    cases (filledDocument_eq_ok hfilled).2 with
    | object h => exact environment_of_members hempty h hinner
  cases hinside with
  | object h => exact ⟨_, h _ (Entries.mem_of_lookup hv)⟩

end Environment

end Template

/-! ## Installing -/

namespace Request

open FileTree

section Environment

variable [Disk] {listing : Listing} {resolver : Resolver} {m : Machine} {r : Request} {site' : Site}
variable {report : Report} {manifest : Manifest} {invocation : CommandLine.Invocation}
variable {log : List LogLine}

/-- **Only declared values reach the environment of an installed kernel, and all of them do.**  The
table of an installation that succeeds is that of the settings, and everything in it is declared,
whichever way it was set.  In the `env` of the installed file, as it is read, the variables of the
table are strings with their values; everything else is what the filled template has there, where
only floating-point numbers may have changed. -/
theorem install_environment (hroot : m.tree.node? [] = some .directory)
    (hworking : ∀ n, m.tree.node? m.working = some n → n = .directory)
    (hrequest : Request.of m manifest invocation = .ok r)
    (hok : r.install listing resolver m ⟨m.tree, log⟩ = .ok report site') :
    invocation.settings.environment manifest = .ok r.environment ∧
      (∀ name value, r.environment.get? name = some value →
        Settings.Declared manifest name value) ∧
      ∃ template members inner text installed own,
        TemplateRead listing m r m.tree report.destination template ∧
        Template.filledDocument template report.destination = .ok (.object members) ∧
        (Entries.lookup "env" members).getD (.object []) = .object inner ∧
        site'.tree.textAt m.working (report.destination.joinText kernelFileName) = .ok text ∧
        Json.parse text = .ok (.object installed) ∧
        Entries.lookup "env" installed = some (.object own) ∧
        Template.EnvironmentOf r.environment inner own ∧
        ∀ name v, Entries.lookup name inner = some v →
          Json.EveryNumber Json.Number.IsInteger v → v.reread = v := by
  obtain ⟨-, henvironment⟩ := of_eq_ok hrequest
  obtain ⟨template, text, hread, hrender, htext⟩ :=
    (course_of_ok hok).written (FreeStart.of_working hroot hworking)
  obtain ⟨members, merged, hfilled, hmerged, -, hparse⟩ := Template.render_reread hrender
  obtain ⟨inner, own, hinner, hown, hholds⟩ := hmerged.environmentOf
  rw [Template.reread_object] at hparse
  refine ⟨henvironment, Settings.environment_declares henvironment, template, members, inner, text,
    _, own, hread, hfilled, hinner, htext, hparse, hown, hholds, fun name v hv hint => ?_⟩
  obtain ⟨depth, hfits⟩ := Template.readable_environment hfilled hinner hv
  exact Json.reread_of_integers hfits hint

end Environment

end Request

/-! ## A level, a number and a template with a number of its own -/

namespace Sample

open FileTree Request

/-- A number, one of whose values has a name. -/
def limit : Parameter where
  name := "limit"
  variableName := "DEMO_LIMIT"
  kind := .number
  aliases := ⟨[("few", "10")], List.pairwise_singleton _ _⟩

/-- A manifest with a level, which has a default, and a number. -/
def measured : Manifest where
  kernelName := "demo"
  parameters := [CommandLine.Sample.level, limit]

/-- The invocation of a command line that gives the number by its name. -/
def measuredInvocation : CommandLine.Invocation where
  arguments := {
    user := false
    sysPrefix := false
    location := some (.ofString "env")
    legacy := false
    replace := false
    python := none
    manifest := none
    assignments := []
    debug := false
  }
  settings := [⟨3, "limit", "few"⟩]

/-- The table that is made of it. -/
def measuredTable : Environment :=
  ⟨[("DEMO_LEVEL", "low"), ("DEMO_LIMIT", "10")], List.pairwise_pair.2 (by decide)⟩

/-- The request that is made of it. -/
def measuring : Request :=
  { request "demo" "env" false with manifest := measured, environment := measuredTable }

/-- A template with a number of more digits than a floating-point number has. -/
def measuredTemplate : String := "\x7b\"env\": \x7b\"X\": 9.7252306699313059\x7d\x7d"

/-- What the template is rendered to; its number is not the one of the template. -/
def measuredRendered : String :=
  "\x7b\n    \"env\": \x7b\n        \"DEMO_LEVEL\": \"low\",\n" ++
    "        \"DEMO_LIMIT\": \"10\",\n        \"X\": 9.725230669931305\n    \x7d\n\x7d"

/-- The tree before the installation. -/
def unmeasured : FileTree := tree measuredTemplate []

/-- The number of the template, rounded to the nearest one that there is. -/
def measuredNumber : Json.Number := .real ⟨false, 5474818152649343, -49⟩

/-- The members of the template. -/
def measuredMembers : List (String × Json) := [("env", .object [("X", .number measuredNumber)])]

theorem check_measured : measured.check = .ok () := by decide +kernel

theorem parse_measuredInvocation : CommandLine.Invocation.parse measured
    (["install", "--prefix", "env", "--limit", "few"].map Text.encode) =
      .ok measuredInvocation := by
  decide +kernel

theorem of_measured : Request.of (machine unmeasured) measured measuredInvocation =
    .ok measuring := by
  have hbundle : unmeasured.isDirectoryAt [] measured.bundle = true := by decide +kernel
  have htemplate : unmeasured.isFileAt [] measured.template = true := by decide +kernel
  have hcheck : measuring.check (machine unmeasured) = .ok () := by
    simp [check, machine, measuring, hbundle, htemplate]
  have htable : measuredInvocation.settings.environment measured = .ok measuredTable := by
    decide +kernel
  rw [of, htable]
  show (measuring.check (machine unmeasured) >>= fun _ => Except.ok measuring) = _
  rw [hcheck]
  rfl

/-- The number under `X` in the `env` of a document that has nothing else. -/
def onlyNumber? (read : Except Json.Failure Json) : Option Json.Number :=
  match read with
  | .ok (.object [("env", .object [("X", .number n)])]) => some n
  | _ => none

theorem filledDocument_measuredTemplate (p : Path) :
    Template.filledDocument measuredTemplate p = .ok (.object measuredMembers) := by
  have hfill : Template.fill measuredTemplate p = measuredTemplate := by
    have hskip : Template.replaceToken Template.token (Template.pathFragment p).toList
        (measuredTemplate.toList ++ []) = measuredTemplate.toList ++ _ :=
      Template.replaceToken_skip (by decide) []
    rw [Template.replaceToken, List.append_nil] at hskip
    rw [Template.fill, hskip, String.ofList_toList]
  have hnumber : onlyNumber? (Json.parse measuredTemplate) = some measuredNumber := by
    decide +kernel
  rw [onlyNumber?.eq_def] at hnumber
  split at hnumber
  · next n hread =>
    cases hnumber
    rw [Template.filledDocument, hfill, hread]
    rfl
  · cases hnumber

theorem render_measuredTemplate :
    Template.render measuredTemplate (target "env") measuredTable = .ok measuredRendered :=
  of_toOption_eq_some (by decide +kernel)

/-- The tree after the installation. -/
def measuredTree : FileTree := tree measuredTemplate [("demo", directory (copied measuredRendered))]

theorem course_measuring :
    Course listing (measuring.resolver (machine unmeasured)) (machine unmeasured) measuring
      unmeasured (.ok ⟨"demo", target "env", measuredTable, false⟩) measuredTree := by
  have hcopy : copyTree listing [] measuring.manifest.bundle (target "env") unmeasured =
      .ok 2 (tree measuredTemplate [("demo", directory (copied measuredTemplate))]) := by
    decide +kernel
  have hread : readText [] measuring.manifest.template
      (tree measuredTemplate [("demo", directory (copied measuredTemplate))]) =
      .ok measuredTemplate
        (tree measuredTemplate [("demo", directory (copied measuredTemplate))]) := by
    decide +kernel
  exact .done (by decide +kernel) (.nothing (by decide +kernel)) hcopy hread
    render_measuredTemplate (by decide +kernel)

theorem textAt_measuredTree :
    measuredTree.textAt [] ((target "env").joinText kernelFileName) = .ok measuredRendered := by
  decide +kernel

end Sample

namespace Request

open FileTree Sample

/-- The level is the default, and the number is what its name stands for. -/
theorem install_environment_measured : ∃ report site' text installed own,
    measuring.install listing (measuring.resolver (machine unmeasured)) (machine unmeasured)
        ⟨unmeasured, []⟩ = .ok report site' ∧
      site'.tree.textAt [] (report.destination.joinText kernelFileName) = .ok text ∧
      Json.parse text = .ok (.object installed) ∧
      Entries.lookup "env" installed = some (.object own) ∧
      Entries.lookup "DEMO_LEVEL" own = some (.string "low") ∧
      Entries.lookup "DEMO_LIMIT" own = some (.string "10") := by
  obtain ⟨site', hok, -⟩ := Course.install_eq_ok (s := ⟨unmeasured, []⟩) course_measuring
  obtain ⟨-, -, template, members, inner, text, installed, own, -, -, -, htext, hparse, hown,
    hholds, -⟩ := install_environment (m := machine unmeasured) rfl
      (fun n hn => (Option.some.inj hn).symm) of_measured hok
  refine ⟨_, site', text, installed, own, hok, htext, hparse, hown, ?_, ?_⟩
  · rw [hholds.lookup]
    rfl
  · rw [hholds.lookup]
    rfl

/-- **A number of the template may change**: it is printed, and what is printed is read as another
number. -/
theorem install_environment_changes : measured.check = .ok () ∧
    CommandLine.Invocation.parse measured
      (["install", "--prefix", "env", "--limit", "few"].map Text.encode) = .ok measuredInvocation ∧
    Request.of (machine unmeasured) measured measuredInvocation = .ok measuring ∧
    ∃ report site' text installed own v,
      measuring.install listing (measuring.resolver (machine unmeasured)) (machine unmeasured)
          ⟨unmeasured, []⟩ = .ok report site' ∧
        Template.filledDocument measuredTemplate report.destination =
          .ok (.object [("env", .object [("X", .number measuredNumber)])]) ∧
        site'.tree.textAt [] (report.destination.joinText kernelFileName) = .ok text ∧
        Json.parse text = .ok (.object installed) ∧
        Entries.lookup "env" installed = some (.object own) ∧
        ("X", v) ∈ own ∧ measuring.environment.get? "X" = none ∧
        ("X", v) ∉ [("X", Json.number measuredNumber)] := by
  obtain ⟨site', hok, htree⟩ := Course.install_eq_ok (s := ⟨unmeasured, []⟩) course_measuring
  obtain ⟨members, merged, hfilled, hmerged, -, hparse⟩ :=
    Template.render_reread render_measuredTemplate
  obtain ⟨inner, own, hinner, hown, hholds⟩ := hmerged.environmentOf
  rw [filledDocument_measuredTemplate] at hfilled
  cases hfilled
  cases hinner
  rw [Template.reread_object] at hparse
  have hlookup : Entries.lookup "X" own = some (.number measuredNumber.reread) := hholds.lookup "X"
  have hchanged : measuredNumber.reread ≠ measuredNumber := by decide +kernel
  refine ⟨check_measured, parse_measuredInvocation, of_measured, _, site', measuredRendered, _,
    own, _, hok, filledDocument_measuredTemplate _, ?_, hparse, hown,
    Entries.mem_of_lookup hlookup, rfl, ?_⟩
  · rw [htree]
    exact textAt_measuredTree
  · simpa using hchanged

end Request

end KernelRegistry
