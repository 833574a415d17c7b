import KernelRegistry.Run
import KernelRegistry.Proofs.Except
import KernelRegistry.Proofs.Install.Failure
import KernelRegistry.Proofs.Text.Utf8

/-!
# How a run ends

Before anything is installed, a run looks for the manifest, loads it, reads the command line,
works out the values, and checks that there is a kernelspec.  None of that changes a file, and each
of it can end the run.  So can every step of the installation.  What a run shows follows from the
step that ended it, and so does whether files may have been changed.

* `Step` — the steps that can fail.
* `Ending`, with `Ending.exitCode` and `Ending.stdout` — how a run can end, and what it shows then.
* `Ends` — what has to happen for a run to end in a way, in terms of its steps alone.
* `Ends.unique`, `exists_ends` — exactly one of them happens.
* `Ends.run` — what is shown is that of the way that happens.
* `run_ends` — **how a run ends**.
-/

set_option autoImplicit false
namespace KernelRegistry

open CommandLine (UsageError Invocation)
open Text (Bytes)

/-! ## Ways to end -/

/-- The stages at which files may have been changed by a failed installation. -/
def Stage.mayChange : Stage → Bool
  | resolving | refusing => false
  | removing | copying | reading | rendering | writing => true

/-- The steps of a run that can fail, in their order.  Reading the command line comes in between,
but when that fails the run ends in a way of its own. -/
inductive Step where
  /-- To find the path of the manifest. -/
  | locating
  | loading
  /-- To work out the values of the parameters. -/
  | valuing
  /-- To check that there is a kernelspec. -/
  | checking
  | installing (stage : Stage)
  deriving DecidableEq, Repr

/-- The steps at which files may have been changed by a failed run. -/
def Step.mayChange : Step → Bool
  | locating | loading | valuing | checking => false
  | installing stage => stage.mayChange

/-- How a run can end. -/
inductive Ending where
  /-- With a text that was asked for. -/
  | answered (text : String)
  /-- With an error of the command line. -/
  | misused (e : UsageError)
  | failed (step : Step) (e : InstallError)
  | installed (kernelName : String) (destination : Path)

namespace Ending

/-- The exit code of a run that ends so. -/
def exitCode : Ending → Nat
  | answered _ | installed .. => 0
  | failed .. => 1
  | misused _ => 2

/-- A run prints to its standard output only if it ends well. -/
def stdout : Ending → String
  | answered text => text
  | installed kernelName destination =>
    "Installed " ++ kernelName ++ " kernel into \"" ++ destination.display ++ "\"\n"
  | failed .. | misused _ => ""

/-- Whether a run that ends so may have changed files.  A run that fails before anything is removed
or copied has not. -/
def mayChange : Ending → Bool
  | answered _ | misused _ => false
  | failed step _ => step.mayChange
  | installed .. => true

end Ending

/-! ## What has to happen -/

section Happens

variable [FileTree.Disk]

/-- The manifest is found and loaded. -/
def Loads (program : ProgramDirectory) (m : Machine) (argv : List Bytes) (manifest : Manifest) :
    Prop :=
  ∃ path, locateManifest program argv = .ok path ∧ Manifest.load m path = .ok manifest

/-- The command line is read as well. -/
def Invokes (program : ProgramDirectory) (m : Machine) (argv : List Bytes) (manifest : Manifest)
    (invocation : Invocation) : Prop :=
  Loads program m argv manifest ∧ Invocation.parse manifest argv = .ok invocation

/-- The values are worked out as well, which makes a request. -/
def Requests (program : ProgramDirectory) (m : Machine) (argv : List Bytes) (r : Request) : Prop :=
  ∃ manifest invocation environment, Invokes program m argv manifest invocation ∧
    invocation.settings.environment manifest = .ok environment ∧
    r = .ofArguments manifest environment invocation.arguments

/-- The end of an installation and the files that it leaves.  The log is left out, because it
decides nothing. -/
def Request.outcome (listing : FileTree.Listing) (m : Machine) (r : Request) :
    Except InstallError Report × FileTree :=
  ending (r.install listing (r.resolver m) m { tree := m.tree })

/-- A run ends in a way if all steps before the last one succeed and the last one does what the way
says.  This speaks of the steps alone, not of how the run puts them together, so that a run which
shows anything else would be wrong. -/
inductive Ends (listing : FileTree.Listing) (program : ProgramDirectory) (m : Machine)
    (argv : List Bytes) : Ending → FileTree → Prop
  | unlocated {e : InstallError} (hlocate : locateManifest program argv = .error e) :
      Ends listing program m argv (.failed .locating e) m.tree
  | unloaded {path : Path} {e : InstallError} (hlocate : locateManifest program argv = .ok path)
      (hload : Manifest.load m path = .error e) :
      Ends listing program m argv (.failed .loading e) m.tree
  | answered {manifest : Manifest} {e : UsageError} (hload : Loads program m argv manifest)
      (hparse : Invocation.parse manifest argv = .error e) (hrequest : e.isRequest = true) :
      Ends listing program m argv (.answered e.message) m.tree
  | misused {manifest : Manifest} {e : UsageError} (hload : Loads program m argv manifest)
      (hparse : Invocation.parse manifest argv = .error e) (hrequest : e.isRequest = false) :
      Ends listing program m argv (.misused e) m.tree
  | unvalued {manifest : Manifest} {invocation : Invocation} {defect : Defect}
      (hinvokes : Invokes program m argv manifest invocation)
      (hvalues : invocation.settings.environment manifest = .error defect) :
      Ends listing program m argv (.failed .valuing defect.error) m.tree
  | unchecked {r : Request} {e : InstallError} (hrequests : Requests program m argv r)
      (hcheck : r.check m = .error e) :
      Ends listing program m argv (.failed .checking e) m.tree
  | uninstalled {r : Request} {e : InstallError} {stage : Stage} {u : FileTree}
      (hrequests : Requests program m argv r) (hcheck : r.check m = .ok ())
      (hinstall : r.outcome listing m = (.error e, u)) (hstage : e.stage? = some stage) :
      Ends listing program m argv (.failed (.installing stage) e) u
  | installed {r : Request} {report : Report} {p : Path} {u : FileTree}
      (hrequests : Requests program m argv r) (hcheck : r.check m = .ok ())
      (hdestination : r.destination (r.resolver m) m = .ok p)
      (hinstall : r.outcome listing m = (.ok report, u)) (hreport : report.destination = p) :
      Ends listing program m argv (.installed r.manifest.kernelName p) u

end Happens

namespace Request

open FileTree (bind_of_ok bind_of_error)
open Installing

section Execute

variable [FileTree.Disk] {listing : FileTree.Listing} {m : Machine} {r : Request} {t u : FileTree}
variable {site : Site} {manifest : Manifest} {invocation : Invocation} {environment : Environment}

/-! ## Carrying out a request -/

omit [FileTree.Disk] in
theorem of_unvalued {defect : Defect}
    (hvalues : invocation.settings.environment manifest = .error defect) :
    Request.of m manifest invocation = .error defect.error := by
  rw [Request.of, hvalues]
  rfl

omit [FileTree.Disk] in
/-- Once the values are worked out, the check decides. -/
theorem of_valued (hvalues : invocation.settings.environment manifest = .ok environment) :
    Request.of m manifest invocation =
      ((ofArguments manifest environment invocation.arguments).check m).map fun _ =>
        ofArguments manifest environment invocation.arguments := by
  rw [Request.of, hvalues]
  cases hcheck : (ofArguments manifest environment invocation.arguments).check m with
  | error e =>
    show (check m _ >>= fun _ => Except.ok _) = _
    rw [hcheck]
    rfl
  | ok =>
    show (check m _ >>= fun _ => Except.ok _) = _
    rw [hcheck]
    rfl

/-- The log does not matter. -/
theorem ending_log (listing : FileTree.Listing) (resolver : Resolver) (m : Machine) (r : Request)
    (t : FileTree) (log log' : List LogLine) :
    ending (r.install listing resolver m ⟨t, log⟩) =
      ending (r.install listing resolver m ⟨t, log'⟩) := by
  obtain ⟨houtcome, htree⟩ := (install_course listing resolver m r ⟨t, log⟩).unique
    (install_course listing resolver m r ⟨t, log'⟩)
  exact Prod.ext houtcome htree

/-- The site with the line that is logged before an installation. -/
def announced (r : Request) (site : Site) : Site :=
  { site with
    log := site.log ++ [⟨.info, "Installing the " ++ r.manifest.shownName ++ " kernel..."⟩] }

omit [FileTree.Disk] in
theorem note_announced (r : Request) (site : Site) :
    note .info ("Installing the " ++ r.manifest.shownName ++ " kernel...") site =
      .ok () (r.announced site) :=
  rfl

/-- Carrying out a request is installing it, and saying so. -/
theorem ending_execute (listing : FileTree.Listing) (m : Machine) (r : Request) (site : Site) :
    ending (r.execute listing m site) =
      ending (r.install listing (r.resolver m) m (r.announced site)) := by
  rw [execute, bind_of_ok (r.note_announced site)]
  cases hinstall : r.install listing (r.resolver m) m (r.announced site) with
  | error e site' => rw [bind_of_error hinstall]
  | ok report site' =>
    rw [bind_of_ok hinstall]
    cases report.replaced with
    | true => rfl
    | false => rfl

/-- A report names the kernel and the destination. -/
theorem Course.report_eq {resolver : Resolver} {report : Report}
    (h : Course listing resolver m r t (.ok report) u) :
    report.kernelName = r.manifest.kernelName ∧
      r.destination resolver m = .ok report.destination := by
  cases h with
  | done hresolve => exact ⟨rfl, hresolve⟩

theorem course_outcome (listing : FileTree.Listing) (m : Machine) (r : Request) :
    Course listing (r.resolver m) m r m.tree (r.outcome listing m).1 (r.outcome listing m).2 :=
  install_course listing (r.resolver m) m r { tree := m.tree }

/-- The outcome of an installation decides what carrying out the request shows. -/
theorem run_eq (listing : FileTree.Listing) (m : Machine) (r : Request) :
    (r.run listing m).2 = (r.outcome listing m).2 ∧
      match (r.outcome listing m).1 with
      | .ok report => (r.run listing m).1.exitCode = 0 ∧ (r.run listing m).1.stdout = report.line
      | .error _ => (r.run listing m).1.exitCode = 1 ∧ (r.run listing m).1.stdout = "" := by
  have houtcome : ending (r.execute listing m { tree := m.tree }) = r.outcome listing m :=
    (ending_execute listing m r _).trans (ending_log ..)
  rw [run, ← houtcome]
  cases r.execute listing m { tree := m.tree } with
  | ok report site => exact ⟨rfl, rfl, rfl⟩
  | error e site => exact ⟨rfl, rfl, rfl⟩

/-- **If an installation has changed a file, there is a place to install to**, and nothing is there
or it may give way. -/
theorem Course.changed {resolver : Resolver} {outcome : Except InstallError Report}
    (h : Course listing resolver m r t outcome u) (hchanged : u ≠ t) :
    (∀ e stage, outcome = .error e → e.stage? = some stage → stage.mayChange = true) ∧
      ∃ p, r.destination resolver m = .ok p ∧
        (t.existsAt m.working p = true → r.replace = true) := by
  have hfree : ∀ {p replaced c}, Clearing m.working r p t replaced c →
      t.existsAt m.working p = true → r.replace = true := fun hclear hexists =>
    (hclear.removeAll_eq hexists).1
  refine ⟨?_, ?_⟩
  · rintro e stage rfl hstage
    cases stage with
    | resolving => exact absurd (h.early.1 (.inl hstage)) hchanged
    | refusing => exact absurd (h.early.1 (.inr hstage)) hchanged
    | removing | copying | reading | rendering | writing => rfl
  · cases h with
    | unresolved | refused => exact absurd rfl hchanged
    | notRemoved hresolve _ hreplace => exact ⟨_, hresolve, fun _ => hreplace⟩
    | notCopied hresolve hclear | notRead hresolve hclear | notRendered hresolve hclear
    | notWritten hresolve hclear | done hresolve hclear => exact ⟨_, hresolve, hfree hclear⟩

end Execute

end Request

/-! ## Runs -/

section Run

variable [FileTree.Disk] {listing : FileTree.Listing} {program : ProgramDirectory} {m : Machine}
variable {argv : List Bytes} {way way' : Ending} {u u' : FileTree}

omit [FileTree.Disk] in
/-- A program that knows its directory finds the path of its manifest. -/
theorem locateManifest_known (beside : Path) (argv : List Bytes) :
    locateManifest beside argv = .ok (manifestPath beside argv) := by
  rw [locateManifest, manifestPath]
  cases CommandLine.givenManifest? argv.tail <;> rfl

/-- Every run ends in some way. -/
theorem exists_ends (listing : FileTree.Listing) (program : ProgramDirectory) (m : Machine)
    (argv : List Bytes) : ∃ way u, Ends listing program m argv way u := by
  cases hlocate : locateManifest program argv with
  | error e => exact ⟨_, _, .unlocated hlocate⟩
  | ok path =>
  cases hload : Manifest.load m path with
  | error e => exact ⟨_, _, .unloaded hlocate hload⟩
  | ok manifest =>
  have hloads : Loads program m argv manifest := ⟨path, hlocate, hload⟩
  cases hparse : Invocation.parse manifest argv with
  | error e =>
    cases hrequest : e.isRequest with
    | true => exact ⟨_, _, .answered hloads hparse hrequest⟩
    | false => exact ⟨_, _, .misused hloads hparse hrequest⟩
  | ok invocation =>
  cases hvalues : invocation.settings.environment manifest with
  | error defect => exact ⟨_, _, .unvalued ⟨hloads, hparse⟩ hvalues⟩
  | ok environment =>
  have hrequests :
    Requests program m argv (.ofArguments manifest environment invocation.arguments) :=
    ⟨manifest, invocation, environment, ⟨hloads, hparse⟩, hvalues, rfl⟩
  generalize Request.ofArguments manifest environment invocation.arguments = r at hrequests
  cases hcheck : r.check m with
  | error e => exact ⟨_, _, .unchecked hrequests hcheck⟩
  | ok =>
  have hcourse := r.course_outcome listing m
  cases hinstall : r.outcome listing m with
  | mk outcome u =>
  rw [hinstall] at hcourse
  cases outcome with
  | error e =>
    obtain ⟨stage, hstage⟩ := hcourse.stage
    exact ⟨_, _, .uninstalled hrequests hcheck hinstall hstage⟩
  | ok report =>
    exact ⟨_, _, .installed hrequests hcheck hcourse.report_eq.2 hinstall rfl⟩

/-- **Only one way happens.** -/
theorem Ends.unique (h : Ends listing program m argv way u)
    (h' : Ends listing program m argv way' u') : way' = way ∧ u' = u := by
  -- two ways would differ in the result of one and the same step
  cases h <;> cases h' <;> grind [Loads, Invokes, Requests]

/-- A run whose request is not to be carried out ends with its error. -/
theorem run_of_refused {manifest : Manifest} {invocation : Invocation} {e : InstallError}
    (h : Invokes program m argv manifest invocation)
    (hof : Request.of m manifest invocation = .error e) :
    run listing program m argv = (.failed (.ofError e) [], m.tree) := by
  obtain ⟨⟨path, hlocate, hload⟩, hparse⟩ := h
  simp only [run, hlocate, hload, hparse, hof]

/-- A run whose request passes the check carries it out. -/
theorem run_of_requests {r : Request} (h : Requests program m argv r)
    (hcheck : r.check m = .ok ()) : run listing program m argv = r.run listing m := by
  obtain ⟨manifest, invocation, environment, ⟨⟨path, hlocate, hload⟩, hparse⟩, hvalues, rfl⟩ := h
  have hof := Request.of_valued (m := m) hvalues
  rw [hcheck] at hof
  simp only [run, hlocate, hload, hparse, hof, Except.map]

/-- A run whose command line is not read ends with its error. -/
theorem run_of_usage {manifest : Manifest} {e : UsageError} (h : Loads program m argv manifest)
    (hparse : Invocation.parse manifest argv = .error e) :
    run listing program m argv = (.ofUsage e, m.tree) := by
  obtain ⟨path, hlocate, hload⟩ := h
  simp only [run, hlocate, hload, hparse]

/-- **What a run shows is that of the way that happens.** -/
theorem Ends.run (h : Ends listing program m argv way u) :
    (run listing program m argv).1.exitCode = way.exitCode ∧
      (run listing program m argv).1.stdout = way.stdout ∧ (run listing program m argv).2 = u := by
  cases h with
  | unlocated hlocate =>
    simp only [KernelRegistry.run, hlocate]
    exact ⟨rfl, rfl, trivial⟩
  | unloaded hlocate hload =>
    simp only [KernelRegistry.run, hlocate, hload]
    exact ⟨rfl, rfl, trivial⟩
  | answered hload hparse hrequest | misused hload hparse hrequest =>
    rw [run_of_usage hload hparse, Outcome.ofUsage, UsageError.exitCode, hrequest]
    exact ⟨rfl, rfl, rfl⟩
  | unvalued hinvokes hvalues =>
    rw [run_of_refused hinvokes (Request.of_unvalued hvalues)]
    exact ⟨rfl, rfl, rfl⟩
  | unchecked hrequests hcheck =>
    obtain ⟨manifest, invocation, environment, hinvokes, hvalues, rfl⟩ := hrequests
    rw [run_of_refused hinvokes (by rw [Request.of_valued hvalues, hcheck]; exact rfl)]
    exact ⟨rfl, rfl, rfl⟩
  | @uninstalled r e stage u hrequests hcheck hinstall hstage =>
    have hrun := r.run_eq listing m
    rw [hinstall] at hrun
    rw [run_of_requests hrequests hcheck]
    exact ⟨hrun.2.1, hrun.2.2, hrun.1⟩
  | @installed r report p u hrequests hcheck hdestination hinstall hreport =>
    have hrun := r.run_eq listing m
    have hname := (r.course_outcome listing m)
    rw [hinstall] at hrun hname
    rw [run_of_requests hrequests hcheck]
    refine ⟨hrun.2.1, hrun.2.2.trans ?_, hrun.1⟩
    rw [Report.line, hname.report_eq.1, hreport]
    rfl

/-- **A run that has changed files has come to an installation**, and there was a place to install
to that was free or might be freed. -/
theorem Ends.changed (h : Ends listing program m argv way u) (hchanged : u ≠ m.tree) :
    way.mayChange = true ∧ ∃ r p, Requests program m argv r ∧ r.check m = .ok () ∧
      r.destination (r.resolver m) m = .ok p ∧
      (m.tree.existsAt m.working p = true → r.replace = true) := by
  cases h with
  | unlocated | unloaded | answered | misused | unvalued | unchecked => exact absurd rfl hchanged
  | @uninstalled r e stage u hrequests hcheck hinstall hstage =>
    have hcourse := r.course_outcome listing m
    rw [hinstall] at hcourse
    obtain ⟨hlate, p, hdestination, hfree⟩ := hcourse.changed hchanged
    exact ⟨hlate e stage rfl hstage, r, p, hrequests, hcheck, hdestination, hfree⟩
  | @installed r report p u hrequests hcheck hdestination hinstall hreport =>
    have hcourse := r.course_outcome listing m
    rw [hinstall] at hcourse
    obtain ⟨-, p', hdestination', hfree⟩ := hcourse.changed hchanged
    exact ⟨rfl, r, p', hrequests, hcheck, hdestination', hfree⟩

/-- **How a run ends**, whatever the disk does and whatever the program knows of its place.  Exactly
one way happens, which is found from the steps of the run.  It decides the exit code and what is
printed: the text that was asked for, or the one line that names the kernel and the destination
where it was installed, or nothing.  Only the removal, the copy and the steps that make the kernel
file change files; if a run has changed any, then there was a place to install to that was free or
might be freed. -/
theorem run_ends (listing : FileTree.Listing) (program : ProgramDirectory) (m : Machine)
    (argv : List Bytes) :
    (∃ way u, Ends listing program m argv way u) ∧
      ∀ way u, Ends listing program m argv way u →
        (∀ way' u', Ends listing program m argv way' u' → way' = way ∧ u' = u) ∧
          (run listing program m argv).1.exitCode = way.exitCode ∧
          (run listing program m argv).1.stdout = way.stdout ∧
          (run listing program m argv).2 = u ∧
          (u ≠ m.tree → way.mayChange = true ∧ ∃ r p, Requests program m argv r ∧
            r.check m = .ok () ∧ r.destination (r.resolver m) m = .ok p ∧
            (m.tree.existsAt m.working p = true → r.replace = true)) := by
  refine ⟨exists_ends listing program m argv, fun way u h => ?_⟩
  obtain ⟨hcode, hstdout, htree⟩ := h.run
  exact ⟨fun way' u' h' => h.unique h', hcode, hstdout, htree, h.changed⟩

end Run

/-! ## A run that installs -/

namespace Sample

open FileTree Request

/-- A manifest with nothing but a name in it. -/
def named : Manifest where
  kernelName := "demo"
  directory := .ofString "/"

/-- Its text. -/
def namedText : String := "\x7b\"kernel_name\": \"demo\"\x7d"

/-- A tree with a file for the manifest, a bundle, and an environment. -/
def bundled (kernels : List (String × FileTree)) : FileTree :=
  directory [
    ("installer.json", file namedText),
    ("kernel", directory [("kernel.json", file "{}")]),
    ("env", directory [("share", directory [("jupyter", directory [
      ("kernels", directory kernels)])])])]

/-- A command line that names the environment. -/
def plainArguments : List Bytes := ["install", "--prefix", "env"].map Text.encode

def plainInvocation : Invocation where
  arguments := {
    user := false, sysPrefix := false, location := some (.ofString "env"), legacy := false,
    replace := false, python := none, manifest := none, assignments := [], debug := false }
  settings := []

/-- The request that it makes. -/
def asking : Request := .ofArguments named .empty plainInvocation.arguments

/-- The machine that is asked. -/
def bare : Machine := machine (bundled [])

/-- The tree afterwards. -/
def equipped : FileTree := bundled [("demo", directory [("kernel.json", file rendered)])]

theorem load_named : Manifest.load bare (.ofString "/installer.json") = .ok named :=
  of_toOption_eq_some (by decide +kernel)

theorem requests_asking : Requests (.known (.ofString "/")) bare plainArguments asking := by
  have hlocate : locateManifest (.known (.ofString "/")) plainArguments =
      .ok (.ofString "/installer.json") := of_toOption_eq_some (by decide +kernel)
  have hparse : Invocation.parse named plainArguments = .ok plainInvocation :=
    of_toOption_eq_some (by decide +kernel)
  have hvalues : plainInvocation.settings.environment named = .ok .empty := by decide +kernel
  exact ⟨named, plainInvocation, .empty, ⟨⟨_, hlocate, load_named⟩, hparse⟩, hvalues, rfl⟩

theorem course_asking :
    Course listing (asking.resolver bare) bare asking bare.tree
      (.ok ⟨"demo", target "env", .empty, false⟩) equipped := by
  have hcopy : copyTree listing [] asking.manifest.bundle (target "env") bare.tree =
      .ok 1 (bundled [("demo", directory [("kernel.json", file "{}")])]) := by decide +kernel
  have hread : readText [] asking.manifest.template
      (bundled [("demo", directory [("kernel.json", file "{}")])]) =
      .ok "{}" (bundled [("demo", directory [("kernel.json", file "{}")])]) := by decide +kernel
  exact .done (by decide +kernel) (.nothing (by decide +kernel)) hcopy hread (render_empty _)
    (by decide +kernel)

end Sample

open Sample in
/-- **A run that installs** prints the one line and ends with exit code 0. -/
theorem run_ends_installed :
    (run listing (.known (.ofString "/")) bare plainArguments).1.exitCode = 0 ∧
      (run listing (.known (.ofString "/")) bare plainArguments).1.stdout =
        "Installed demo kernel into \"/env/share/jupyter/kernels/demo\"\n" ∧
      (run listing (.known (.ofString "/")) bare plainArguments).2.node?
          (kernels ++ location ["demo", "kernel.json"]) =
        some (.file FileTree.newFileMode (Text.encode rendered)) := by
  obtain ⟨houtcome, htree⟩ := (asking.course_outcome listing bare).unique course_asking
  have hcheck : asking.check bare = .ok () := by decide +kernel
  have hdestination : asking.destination (asking.resolver bare) bare = .ok (target "env") := by
    decide +kernel
  have hinstall : asking.outcome listing bare =
      (.ok ⟨"demo", target "env", .empty, false⟩, equipped) := Prod.ext houtcome htree
  have hends : Ends listing (.known (.ofString "/")) bare plainArguments
      (.installed "demo" (target "env")) equipped :=
    .installed requests_asking hcheck hdestination hinstall rfl
  obtain ⟨-, hcode, hstdout, hfiles, -⟩ :=
    (run_ends listing (.known (.ofString "/")) bare plainArguments).2 _ _ hends
  refine ⟨hcode, hstdout.trans (by decide +kernel), ?_⟩
  rw [hfiles]
  decide +kernel

end KernelRegistry
