import KernelRegistry.Install
import KernelRegistry.Proofs.FileTree.Sound

/-!
# The course of an installation

An installation ends in one of eight ways.  This file says which, and what each of them did before
it ended; everything else about installations is derived from it.

* `Request.Clearing` — what becomes of something that is at the destination.
* `Request.Course` — how an installation can go.
* `Request.course_of_ok`, `Request.course_of_error` — every installation goes like that.
* `Request.Course.left` — what holds after each of its steps holds of what an installation leaves.
* `Request.Course.unique` — it goes in one way only; `Course.install_eq_ok` and
  `Course.install_eq_error` read its ending off the course.
* `Request.Course.sound` — an installation that succeeds goes as it would on a sound disk.
-/

set_option autoImplicit false
namespace KernelRegistry
namespace Request

open FileTree (bind_of_ok bind_of_error bind_eq_ok)
open Installing

/-- Nothing existed at the destination, or it was removed.  What exists is asked of the path, which
does not lead to what is there as long as directories are missing on its way. -/
inductive Clearing [FileTree.Disk] (working : Location) (r : Request) (p : Path) (t : FileTree) :
    Bool → FileTree → Prop
  | nothing (hexists : t.existsAt working p = false) : Clearing working r p t false t
  | removed {replaced : Bool} {c : FileTree} (hexists : t.existsAt working p = true)
      (hreplace : r.replace = true) (hremove : FileTree.removeAll working p t = .ok replaced c) :
      Clearing working r p t replaced c

/-- How an installation can go from a file tree: what it ends with, and the tree that it leaves.
Whatever is said of installations is proved by cases on this, and the code is opened for
`install_course` only. -/
inductive Course [FileTree.Disk] (listing : FileTree.Listing) (resolver : Resolver) (m : Machine)
    (r : Request) (t : FileTree) : Except InstallError Report → FileTree → Prop
  /-- There is no place to install to. -/
  | unresolved {e : InstallError} (hresolve : r.destination resolver m = .error e) :
      Course listing resolver m r t (.error e) t
  /-- Something exists at the destination and may not give way. -/
  | refused {p : Path} (hresolve : r.destination resolver m = .ok p)
      (hexists : t.existsAt m.working p = true) (hreplace : r.replace = false) :
      Course listing resolver m r t (.error (.alreadyInstalled p)) t
  /-- The old kernel cannot be removed, or not all of it. -/
  | notRemoved {p : Path} {e : FileError} {u : FileTree}
      (hresolve : r.destination resolver m = .ok p)
      (hexists : t.existsAt m.working p = true) (hreplace : r.replace = true)
      (hremove : FileTree.removeAll m.working p t = .error e u) :
      Course listing resolver m r t (.error (.fileSystem "remove" p (.file e))) u
  /-- The kernelspec cannot be copied. -/
  | notCopied {p : Path} {replaced : Bool} {c u : FileTree} {e : FileError}
      (hresolve : r.destination resolver m = .ok p)
      (hclear : Clearing m.working r p t replaced c)
      (hcopy : FileTree.copyTree listing m.working r.manifest.bundle p c = .error e u) :
      Course listing resolver m r t
        (.error (.fileSystem "copy kernelspec" r.manifest.bundle (.file e))) u
  /-- The template cannot be read. -/
  | notRead {p : Path} {replaced : Bool} {c u : FileTree} {e : FileError} {count : Nat}
      (hresolve : r.destination resolver m = .ok p)
      (hclear : Clearing m.working r p t replaced c)
      (hcopy : FileTree.copyTree listing m.working r.manifest.bundle p c = .ok count u)
      (hread : FileTree.readText m.working r.manifest.template u = .error e u) :
      Course listing resolver m r t
        (.error (.fileSystem "read" r.manifest.template (.file e))) u
  /-- The kernel file cannot be made from the template. -/
  | notRendered {p : Path} {replaced : Bool} {c u : FileTree} {count : Nat} {template : String}
      {fault : Template.Fault} (hresolve : r.destination resolver m = .ok p)
      (hclear : Clearing m.working r p t replaced c)
      (hcopy : FileTree.copyTree listing m.working r.manifest.bundle p c = .ok count u)
      (hread : FileTree.readText m.working r.manifest.template u = .ok template u)
      (hrender : Template.render template p r.environment = .error fault) :
      Course listing resolver m r t (.error (fault.error r.manifest.template)) u
  /-- The kernel file cannot be written. -/
  | notWritten {p : Path} {replaced : Bool} {c u v : FileTree} {e : FileError} {count : Nat}
      {template rendered : String} (hresolve : r.destination resolver m = .ok p)
      (hclear : Clearing m.working r p t replaced c)
      (hcopy : FileTree.copyTree listing m.working r.manifest.bundle p c = .ok count u)
      (hread : FileTree.readText m.working r.manifest.template u = .ok template u)
      (hrender : Template.render template p r.environment = .ok rendered)
      (hwrite : FileTree.writeFile m.working (p.joinText kernelFileName)
        (Text.encode rendered) u = .error e v) :
      Course listing resolver m r t
        (.error (.fileSystem "write" (p.joinText kernelFileName) (.file e))) v
  | done {p : Path} {replaced : Bool} {c u v : FileTree} {count : Nat}
      {template rendered : String} (hresolve : r.destination resolver m = .ok p)
      (hclear : Clearing m.working r p t replaced c)
      (hcopy : FileTree.copyTree listing m.working r.manifest.bundle p c = .ok count u)
      (hread : FileTree.readText m.working r.manifest.template u = .ok template u)
      (hrender : Template.render template p r.environment = .ok rendered)
      (hwrite : FileTree.writeFile m.working (p.joinText kernelFileName)
        (Text.encode rendered) u = .ok () v) :
      Course listing resolver m r t
        (.ok ⟨r.manifest.kernelName, p, r.environment, replaced⟩) v

/-! ## Steps -/

section Steps

variable {α : Type} {operation : String} {p : Path} {action : FileTree.Action α} {site site' : Site}
variable {u : FileTree} {a : α} {e : FileError}

theorem note_eq (level : Level) (message : String) (site : Site) :
    note level message site = .ok () { site with log := site.log ++ [⟨level, message⟩] } :=
  rfl

theorem get_eq (site : Site) : (get : Installing Site) site = .ok site site :=
  rfl

theorem change_of_ok (h : action site.tree = .ok a u) :
    change operation p action site = .ok a { site with tree := u } := by
  rw [change, h]

theorem change_of_error (h : action site.tree = .error e u) :
    change operation p action site = .error (.fileSystem operation p (.file e))
      { site with tree := u } := by
  rw [change, h]

/-- Logging leaves the tree alone. -/
theorem notes_eq (messages : List String) (site : Site) :
    ∃ log, (forIn messages PUnit.unit fun message _ => do
        note .warning message
        pure (ForInStep.yield PUnit.unit) : Installing PUnit) site =
      .ok ⟨⟩ { site with log } := by
  induction messages generalizing site with
  | nil => exact ⟨site.log, rfl⟩
  | cons message rest ih =>
    obtain ⟨log, hlog⟩ := ih { site with log := site.log ++ [⟨.warning, message⟩] }
    refine ⟨log, ?_⟩
    rw [List.forIn_cons]
    exact (bind_of_ok rfl).trans hlog

variable [FileTree.Disk]

/-- Clearing a destination at which nothing exists does nothing. -/
theorem clear_of_not_exists {r : Request} {working : Location}
    (h : site.tree.existsAt working p = false) : r.clear working p site = .ok false site := by
  rw [clear, bind_of_ok (get_eq site), h]
  rfl

theorem clear_of_not_replace {r : Request} {working : Location}
    (h : site.tree.existsAt working p = true) (hreplace : r.replace = false) :
    r.clear working p site = .error (.alreadyInstalled p) site := by
  rw [clear, bind_of_ok (get_eq site), h, hreplace]
  rfl

theorem clear_of_replace {r : Request} {working : Location}
    (h : site.tree.existsAt working p = true) (hreplace : r.replace = true) :
    ∃ log, r.clear working p site =
      change "remove" p (FileTree.removeAll working p) { site with log } := by
  refine ⟨site.log ++ [⟨.info, "Removing existing kernelspec at " ++ p.display⟩], ?_⟩
  rw [clear, bind_of_ok (get_eq site), h, hreplace]
  rfl

/-- Clearing a destination fails and leaves what the removal leaves, or goes on. -/
theorem clear_cases (r : Request) (working : Location) (p : Path) (site : Site) :
    (∃ e site', r.clear working p site = .error e site' ∧
      ((site.tree.existsAt working p = true ∧ r.replace = false ∧ e = .alreadyInstalled p ∧
          site'.tree = site.tree) ∨
        ∃ cause, site.tree.existsAt working p = true ∧ r.replace = true ∧
          e = .fileSystem "remove" p (.file cause) ∧
          FileTree.removeAll working p site.tree = .error cause site'.tree)) ∨
      ∃ replaced site', r.clear working p site = .ok replaced site' ∧
        Clearing working r p site.tree replaced site'.tree := by
  cases hexists : site.tree.existsAt working p with
  | false => exact .inr ⟨false, site, clear_of_not_exists hexists, .nothing hexists⟩
  | true =>
    cases hreplace : r.replace with
    | false => exact .inl ⟨_, site, clear_of_not_replace hexists hreplace,
      .inl ⟨rfl, rfl, rfl, rfl⟩⟩
    | true =>
      obtain ⟨log, hclear⟩ := clear_of_replace hexists hreplace
      cases hremove : FileTree.removeAll working p site.tree with
      | ok replaced c =>
        exact .inr ⟨replaced, ⟨c, log⟩, hclear.trans (change_of_ok hremove),
          .removed hexists hreplace hremove⟩
      | error e c =>
        exact .inl ⟨_, ⟨c, log⟩, hclear.trans (change_of_error hremove),
          .inr ⟨e, rfl, rfl, rfl, rfl⟩⟩

/-- Making the kernel file fails when the template is read, when it is filled in or when the file
is written, or it succeeds. -/
theorem writeKernelFile_cases (r : Request) (working : Location) (p : Path) (site : Site) :
    (∃ e, FileTree.readText working r.manifest.template site.tree = .error e site.tree ∧
      r.writeKernelFile working p site =
        .error (.fileSystem "read" r.manifest.template (.file e)) site) ∨
    (∃ template fault,
      FileTree.readText working r.manifest.template site.tree = .ok template site.tree ∧
      Template.render template p r.environment = .error fault ∧
      r.writeKernelFile working p site = .error (fault.error r.manifest.template) site) ∨
    ∃ template rendered log,
      FileTree.readText working r.manifest.template site.tree = .ok template site.tree ∧
      Template.render template p r.environment = .ok rendered ∧
      r.writeKernelFile working p site =
        change "write" (p.joinText kernelFileName)
          (FileTree.writeFile working (p.joinText kernelFileName) (Text.encode rendered))
          { site with log } := by
  cases hread : FileTree.readText working r.manifest.template site.tree with
  | error e u =>
    obtain rfl := FileTree.readText_error hread
    exact .inl ⟨e, rfl, by rw [writeKernelFile, bind_of_error (change_of_error hread)]⟩
  | ok template u =>
    obtain ⟨rfl, -⟩ := FileTree.readText_eq_ok hread
    have htext : change "read" r.manifest.template _ site = .ok template _ := change_of_ok hread
    cases hrender : Template.render template p r.environment with
    | error fault =>
      have hresult : (result ((Except.error fault : Except Template.Fault String).mapError
          (·.error r.manifest.template)) : Installing String) site =
          .error (fault.error r.manifest.template) site := rfl
      refine .inr (.inl ⟨template, fault, rfl, hrender, ?_⟩)
      rw [writeKernelFile, bind_of_ok htext, hrender, bind_of_error hresult]
    | ok rendered =>
      have hresult : (result ((Except.ok rendered : Except Template.Fault String).mapError
          (·.error r.manifest.template)) : Installing String) site = .ok rendered site := rfl
      obtain ⟨log, hlog⟩ := notes_eq (KernelSpec.problemMessages rendered) site
      refine .inr (.inr ⟨template, rendered, log, rfl, hrender, ?_⟩)
      rw [writeKernelFile, bind_of_ok htext, hrender, bind_of_ok hresult, bind_of_ok hlog]

end Steps

section Course

variable [FileTree.Disk] {listing : FileTree.Listing} {resolver : Resolver} {m : Machine}
variable {r : Request}

/-- The end of an installation and the tree that it leaves, without its log. -/
def ending : EStateM.Result InstallError Site Report → Except InstallError Report × FileTree
  | .ok report site => (.ok report, site.tree)
  | .error e site => (.error e, site.tree)

/-- **Every installation goes as one of the courses says.** -/
theorem install_course (listing : FileTree.Listing) (resolver : Resolver) (m : Machine)
    (r : Request) (site : Site) :
    Course listing resolver m r site.tree (ending (r.install listing resolver m site)).1
      (ending (r.install listing resolver m site)).2 := by
  cases hresolve : r.destination resolver m with
  | error e =>
    have hresult : (result (.error e) : Installing Path) site = .error e site := rfl
    rw [install, hresolve, bind_of_error hresult]
    exact .unresolved hresolve
  | ok p =>
    have hresult : (result (.ok p) : Installing Path) site = .ok p site := rfl
    rw [install, hresolve, bind_of_ok hresult, bind_of_ok (note_eq ..)]
    rcases clear_cases r m.working p
        ⟨site.tree, site.log ++ [⟨.info, "Installing kernelspec '" ++ r.manifest.kernelName ++
          "' into " ++ p.display⟩]⟩ with
      ⟨e, site₁, hclear, hcause⟩ | ⟨replaced, site₁, hclear, hclearing⟩
    · rw [bind_of_error hclear]
      rcases hcause with ⟨hexists, hreplace, rfl, htree⟩ | ⟨e, hexists, hreplace, rfl, hremove⟩
      · show Course listing resolver m r site.tree _ site₁.tree
        rw [htree]
        exact .refused hresolve hexists hreplace
      · exact .notRemoved hresolve hexists hreplace hremove
    rw [bind_of_ok hclear]
    cases hcopy : FileTree.copyTree listing m.working r.manifest.bundle p site₁.tree with
    | error e u =>
      rw [bind_of_error (change_of_error hcopy)]
      exact .notCopied hresolve hclearing hcopy
    | ok count u =>
      rw [bind_of_ok (change_of_ok hcopy)]
      rcases writeKernelFile_cases r m.working p { site₁ with tree := u } with
        ⟨e, hread, hwrite⟩ | ⟨template, fault, hread, hrender, hwrite⟩ |
        ⟨template, rendered, log, hread, hrender, hwrite⟩
      · rw [bind_of_error hwrite]
        exact .notRead hresolve hclearing hcopy hread
      · rw [bind_of_error hwrite]
        exact .notRendered hresolve hclearing hcopy hread hrender
      · cases hfile : FileTree.writeFile m.working (p.joinText kernelFileName)
            (Text.encode rendered) u with
        | error e v =>
          rw [bind_of_error (hwrite.trans (change_of_error hfile))]
          exact .notWritten hresolve hclearing hcopy hread hrender hfile
        | ok _ v =>
          rw [bind_of_ok (hwrite.trans (change_of_ok hfile))]
          exact .done hresolve hclearing hcopy hread hrender hfile

theorem course_of_ok {site site' : Site} {report : Report}
    (h : r.install listing resolver m site = .ok report site') :
    Course listing resolver m r site.tree (.ok report) site'.tree := by
  have := install_course listing resolver m r site
  rwa [h] at this

theorem course_of_error {site site' : Site} {e : InstallError}
    (h : r.install listing resolver m site = .error e site') :
    Course listing resolver m r site.tree (.error e) site'.tree := by
  have := install_course listing resolver m r site
  rwa [h] at this

/-- **What holds of the tree before, and after each of the steps that may fail, holds of the tree
that is left.** -/
theorem Course.left {P : FileTree → Prop} {p : Path} {t u : FileTree}
    {outcome : Except InstallError Report} (h : Course listing resolver m r t outcome u)
    (hdestination : r.destination resolver m = .ok p) (ht : P t)
    (hremoved : ∀ e v, t.existsAt m.working p = true →
      FileTree.removeAll m.working p t = .error e v → P v)
    (hcopied : ∀ replaced c, Clearing m.working r p t replaced c →
      P ((FileTree.copyTree listing m.working r.manifest.bundle p).after c))
    (hwritten : ∀ replaced c count v content, Clearing m.working r p t replaced c →
      FileTree.copyTree listing m.working r.manifest.bundle p c = .ok count v →
      P ((FileTree.writeFile m.working (p.joinText kernelFileName) content).after v)) : P u := by
  cases h with
  | unresolved | refused => exact ht
  | notRemoved hresolve hexists _ hremove =>
    obtain rfl := Except.ok.inj (hdestination.symm.trans hresolve)
    exact hremoved _ _ hexists hremove
  | notCopied hresolve hclear hcopy =>
    obtain rfl := Except.ok.inj (hdestination.symm.trans hresolve)
    have := hcopied _ _ hclear
    rwa [FileTree.Action.after_of_error hcopy] at this
  | notRead hresolve hclear hcopy | notRendered hresolve hclear hcopy =>
    obtain rfl := Except.ok.inj (hdestination.symm.trans hresolve)
    have := hcopied _ _ hclear
    rwa [FileTree.Action.after_of_ok hcopy] at this
  | @notWritten _ _ _ _ _ _ _ _ rendered hresolve hclear hcopy _ _ hwrite =>
    obtain rfl := Except.ok.inj (hdestination.symm.trans hresolve)
    have := hwritten _ _ _ _ (Text.encode rendered) hclear hcopy
    rwa [FileTree.Action.after_of_error hwrite] at this
  | @done _ _ _ _ _ _ _ rendered hresolve hclear hcopy _ _ hwrite =>
    obtain rfl := Except.ok.inj (hdestination.symm.trans hresolve)
    have := hwritten _ _ _ _ (Text.encode rendered) hclear hcopy
    rwa [FileTree.Action.after_of_ok hwrite] at this

theorem Clearing.removeAll_eq {working : Location} {p : Path} {t c : FileTree} {replaced : Bool}
    (h : Clearing working r p t replaced c) (hexists : t.existsAt working p = true) :
    r.replace = true ∧ FileTree.removeAll working p t = .ok replaced c := by
  cases h with
  | nothing hnot => rw [hnot] at hexists; cases hexists
  | removed _ hreplace hremove => exact ⟨hreplace, hremove⟩

/-- The destination is cleared in one way. -/
theorem Clearing.unique {working : Location} {p : Path} {t c c' : FileTree} {a a' : Bool}
    (h : Clearing working r p t a c) (h' : Clearing working r p t a' c') : a = a' ∧ c = c' := by
  cases h <;> cases h' <;> grind

/-- There is one course for each installation. -/
theorem Course.unique {t u u' : FileTree} {outcome outcome' : Except InstallError Report}
    (h : Course listing resolver m r t outcome u) (h' : Course listing resolver m r t outcome' u') :
    outcome = outcome' ∧ u = u' := by
  -- two courses that part would differ in the result of one and the same step
  cases h <;> cases h' <;> grind [Clearing.unique, → Clearing.removeAll_eq]

/-- An installation ends as its course says. -/
theorem Course.install_eq_ok {s : Site} {report : Report} {u : FileTree}
    (h : Course listing resolver m r s.tree (.ok report) u) :
    ∃ site', r.install listing resolver m s = .ok report site' ∧ site'.tree = u := by
  cases hinstall : r.install listing resolver m s with
  | ok report' site' =>
    obtain ⟨houtcome, htree⟩ := h.unique (course_of_ok hinstall)
    cases houtcome
    exact ⟨site', rfl, htree.symm⟩
  | error e site' => cases (h.unique (course_of_error hinstall)).1

theorem Course.install_eq_error {s : Site} {e : InstallError} {u : FileTree}
    (h : Course listing resolver m r s.tree (.error e) u) :
    ∃ site', r.install listing resolver m s = .error e site' ∧ site'.tree = u := by
  cases hinstall : r.install listing resolver m s with
  | ok report site' => cases (h.unique (course_of_ok hinstall)).1
  | error e' site' =>
    obtain ⟨houtcome, htree⟩ := h.unique (course_of_error hinstall)
    cases houtcome
    exact ⟨site', rfl, htree.symm⟩

/-! ### Success on any disk -/

theorem Clearing.sound {working : Location} {p : Path} {t c : FileTree} {replaced : Bool}
    (h : Clearing working r p t replaced c) :
    @Clearing FileTree.Disk.sound working r p t replaced c := by
  cases h with
  | nothing hexists => exact @Clearing.nothing FileTree.Disk.sound _ _ _ _ hexists
  | removed hexists hreplace hremove =>
    have hremove := (FileTree.Action.EqOrRefused.removeAll ..).of_ok hremove
    exact @Clearing.removed FileTree.Disk.sound _ _ _ _ _ _ hexists hreplace hremove

/-- **An installation that succeeds on any disk goes as it would on a sound disk**, so what is known
about success there is known about success anywhere. -/
theorem Course.sound {t u : FileTree} {report : Report}
    (h : Course listing resolver m r t (.ok report) u) :
    @Course FileTree.Disk.sound listing resolver m r t (.ok report) u := by
  cases h with
  | done hresolve hclear hcopy hread hrender hwrite =>
    exact @Course.done FileTree.Disk.sound _ _ _ _ _ _ _ _ _ _ _ _ _ hresolve hclear.sound
      ((FileTree.Action.EqOrRefused.copyTree ..).of_ok hcopy)
      ((FileTree.Action.EqOrRefused.readText ..).of_ok hread) hrender
      ((FileTree.Action.EqOrRefused.writeFile ..).of_ok hwrite)

end Course

end Request
end KernelRegistry
