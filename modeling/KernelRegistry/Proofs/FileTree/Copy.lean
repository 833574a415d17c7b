import KernelRegistry.FileTree.Copy
import KernelRegistry.Proofs.FileTree.Within

/-!
# What copying a directory does

A copy reads from the tree that it writes to, so what it reads may be what it has written.  Whatever
may be in the source and whatever is allowed at the destination are therefore kept track of
together, through the whole recursion.

* `Listing.Exact` — a listing that gives every entry of a directory, in any order.
* `listNames_perm` — what is listed are the names of the directory.
* `FileTree.Feeds` — what is read from the sources is allowed where it is copied to.
* `FileTree.copyEntries` — what copying a directory does once the target is there.
* `Inside.copyNested` — copying to the destination only does there what is allowed, also where it
  fails.
-/

set_option autoImplicit false
namespace KernelRegistry
namespace FileTree

open Text (Bytes)

/-- Every entry of a directory is listed, in any order.  Nothing more is known of the order in which
a system lists a directory. -/
def Listing.Exact (listing : Listing) : Prop := ∀ entries, (listing entries).Perm entries

/-! ## Steps over a list -/

section Fold

variable {α β : Type} {f : β → α → Action β} {l : List α} {t u : FileTree} {init b : β}

/-- A property that every step keeps holds after all of them, also where one fails. -/
theorem after_foldlM {P : FileTree → Prop} (ht : P t)
    (hstep : ∀ a ∈ l, ∀ c t, P t → P ((f c a).after t)) : P ((l.foldlM f init).after t) := by
  induction l generalizing t init with
  | nil => exact ht
  | cons a rest ih =>
    have hfirst := hstep a List.mem_cons_self init t ht
    rw [List.foldlM_cons]
    refine after_bind hfirst fun c u hok => ?_
    rw [Action.after_of_ok hok] at hfirst
    exact ih hfirst fun a' ha' => hstep a' (List.mem_cons_of_mem _ ha')

/-- If all steps succeed, what each of them achieves is achieved, provided that going on keeps
it. -/
theorem foldlM_ok {R : FileTree → FileTree → Prop} {Q : α → FileTree → Prop} {start : FileTree}
    (htrans : ∀ {t u v}, R t u → R u v → R t v) (ht : R start t)
    (hstep : ∀ a ∈ l, ∀ c t d u, R start t → f c a t = .ok d u → R t u ∧ Q a u)
    (hkeep : ∀ a t u, R t u → Q a t → Q a u) (hok : l.foldlM f init t = .ok b u) :
    R start u ∧ ∀ a ∈ l, Q a u := by
  -- what was achieved before is kept along
  suffices h : ∀ done : List α, (∀ a ∈ done, Q a t) →
      R start u ∧ (∀ a ∈ done, Q a u) ∧ ∀ a ∈ l, Q a u by
    obtain ⟨hu, -, hl⟩ := h [] (by simp)
    exact ⟨hu, hl⟩
  induction l generalizing t init with
  | nil =>
    cases hok
    exact fun done hdone => ⟨ht, hdone, by simp⟩
  | cons a rest ih =>
    intro done hdone
    rw [List.foldlM_cons] at hok
    obtain ⟨c, v, hfirst, hrest⟩ := bind_eq_ok hok
    obtain ⟨hv, hachieved⟩ := hstep a List.mem_cons_self init t c v ht hfirst
    have hdone' : ∀ a' ∈ a :: done, Q a' v := by
      intro a' ha'
      rcases List.mem_cons.1 ha' with rfl | ha'
      · exact hachieved
      · exact hkeep a' t v hv (hdone a' ha')
    obtain ⟨hu, hkept, hrest'⟩ := ih (htrans ht hv)
      (fun a' ha' => hstep a' (List.mem_cons_of_mem _ ha')) hrest (a :: done) hdone'
    refine ⟨hu, fun a' ha' => hkept a' (List.mem_cons_of_mem _ ha'), fun a' ha' => ?_⟩
    rcases List.mem_cons.1 ha' with rfl | ha'
    · exact hkept a' List.mem_cons_self
    · exact hrest' a' ha'

end Fold

/-! ## Reading a directory -/

theorem mem_map_fst_iff {name : Bytes} {entries : List (Bytes × FileTree)} :
    name ∈ entries.map Prod.fst ↔ ∃ child, child? name entries = some child := by
  induction entries with
  | nil => simp [child?]
  | cons e es ih =>
    rw [List.map_cons, List.mem_cons, ih, child?]
    by_cases he : e.1 = name
    · simp [he]
    · have : ¬ name = e.1 := fun h => he h.symm
      simp [he, this]

theorem mem_names_iff {name : Bytes} {entries : List (Bytes × FileTree)} :
    name ∈ (directory entries).names ↔ ∃ child, child? name entries = some child := by
  rw [(names_perm entries).mem_iff, mem_map_fst_iff]

theorem getLastD_append_singleton (x : Location) (name : Bytes) :
    (x ++ [name]).getLastD [] = name := by
  simp

/-- **The names that are listed are those of the directory.** -/
theorem listNames_perm {listing : Listing} (h : listing.Exact) (location : Location)
    (entries : List (Bytes × FileTree)) :
    (listNames listing location entries).Perm ((directory entries).names.map fun name =>
      (name, ((child? name entries).map FileTree.isDirectory).getD false)) := by
  refine ((h _).map _).trans (.of_eq ?_)
  rw [List.map_map]
  exact List.map_congr_left fun name _ =>
    Prod.ext (getLastD_append_singleton location name) rfl

section Read

variable {t u : FileTree} {working location : Location} {source : Path} {listing : Listing}
variable {listed : List (Bytes × Bool)} {name : Bytes} {isDirectory : Bool}

theorem readDirectory_eq_ok [Disk] (h : readDirectory listing working source t = .ok listed u) :
    u = t ∧ ∃ location entries,
      find t working true source = .ok (location, .directory entries) ∧
      listed = listNames listing location entries := by
  obtain ⟨⟨location, node⟩, v, hfind, hnames⟩ := bind_eq_ok h
  obtain ⟨hfind, rfl⟩ := answer_eq_ok hfind
  cases node with
  | file | link => cases hnames
  | directory entries =>
    obtain ⟨_, w, hask, hreturn⟩ := bind_eq_ok hnames
    obtain rfl := ask_eq_ok hask
    cases hreturn
    exact ⟨rfl, location, entries, hfind, rfl⟩

theorem after_readDirectory [Disk] : (readDirectory listing working source).after t = t := by
  refine after_bind (P := (· = t)) after_answer fun found u hfind => ?_
  obtain ⟨-, rfl⟩ := answer_eq_ok hfind
  obtain ⟨location, node⟩ := found
  cases node with
  | file | link => rfl
  | directory entries =>
    refine after_bind (P := (· = u)) after_ask fun _ v hask => ?_
    exact ask_eq_ok hask

/-- A name is listed if there is something with it. -/
theorem mem_listNames_iff (hlisting : listing.Exact) {entries : List (Bytes × FileTree)}
    (hget : t.get? location = some (.directory entries)) :
    (name, isDirectory) ∈ listNames listing location entries ↔
      ∃ child, t.get? (location ++ [name]) = some child ∧ child.isDirectory = isDirectory := by
  have hchild : t.get? (location ++ [name]) = child? name entries := by
    rw [get?_append, hget, Option.bind_some, get?_directory_cons]
    cases child? name entries <;> simp
  rw [hchild, (listNames_perm hlisting location entries).mem_iff, List.mem_map]
  constructor
  · rintro ⟨name', hname', heq⟩
    obtain ⟨child, hchild'⟩ := mem_names_iff.1 hname'
    obtain ⟨rfl, hdirectory⟩ := Prod.mk.inj heq
    rw [hchild'] at hdirectory
    exact ⟨child, hchild', hdirectory⟩
  · rintro ⟨child, hchild', rfl⟩
    exact ⟨name, mem_names_iff.2 ⟨child, hchild'⟩, by rw [hchild']; rfl⟩

end Read

/-! ## Copying inside the destination -/

/-- The sources of a copy give only what is allowed where it is copied to.  A source is known by its
path and by the place below the destination that it is copied to. -/
structure Feeds [Disk] (b : FileTree) (working destination : Location)
    (allowed : Location → Node → Prop) (directory file : Path → Location → Prop) : Prop where
  made : ∀ source below, directory source below →
    ∀ part, part <+: below → allowed part .directory
  inner : ∀ source below t location entries, directory source below →
    Inside b destination allowed t →
    find t working true source = .ok (location, .directory entries) →
    ∀ name child, Path.IsName name → t.get? (location ++ [name]) = some child →
      if child.isDirectory then directory (source.join ⟨name⟩) (below ++ [name])
      else file (source.join ⟨name⟩) (below ++ [name])
  content : ∀ source below t here mode content left, file source below →
    Inside b destination allowed t →
    find t working true source = .ok (here, .file mode content) →
    Disk.Leaves (if here = destination ++ below then [] else content) left →
    allowed below (.file mode left)

/-- The part of a copy that comes once the target is there.  The recursion is on this part, because
the target of an inner directory may exist. -/
def copyEntries [Disk] (listing : Listing) (working : Location) (depth : Nat)
    (source target : Path) :
    Action Nat := do
  let entries ← readDirectory listing working source
  entries.foldlM
    (fun count (name, isDirectory) => do
      let inner := Path.mk name
      if isDirectory then
        let copied ← copyNested listing working depth (source.join inner) (target.join inner)
        return count + copied
      else
        let _ ← copyFile working (source.join inner) (target.join inner)
        return count + 1)
    0

theorem copyNested_succ [Disk] (listing : Listing) (working : Location) (depth : Nat)
    (source target : Path) :
    copyNested listing working (depth + 1) source target =
      makeDirectories working target >>= fun _ =>
        copyEntries listing working depth source target := by
  rw [copyNested]
  rfl

theorem copyTree_eq [Disk] (listing : Listing) (working : Location) (source target : Path) :
    copyTree listing working source target =
      makeDirectories working target >>= fun _ =>
        copyEntries listing working (pathLimit - 1) source target :=
  copyNested_succ listing working (pathLimit - 1) source target

section Nested

variable {b t u : FileTree} {working above : Location} {p source target : Path} {name : Bytes}
variable {allowed : Location → Node → Prop} {directory file : Path → Location → Prop}
variable {listing : Listing} {below : Location} {depth : Nat}

theorem isName_of_mem_concat {last : Bytes} (hbelow : ∀ n ∈ below, Path.IsName n)
    (hlast : Path.IsName last) : ∀ n ∈ below ++ [last], Path.IsName n := by
  intro n hn
  rcases List.mem_append.1 hn with hn | hn
  · exact hbelow n hn
  · exact List.mem_singleton.1 hn ▸ hlast

variable [Disk]

/-- Everything that is listed in a directory has a name, and it is another directory or something to
copy. -/
theorem Feeds.listed (hb : Ready b working p above name)
    (hfeeds : Feeds b working (above ++ [name]) allowed directory file) (hlisting : listing.Exact)
    (h : Inside b (above ++ [name]) allowed t) (hsource : directory source below)
    (hfreeStart : FreeStart t working source) {location : Location}
    {entries : List (Bytes × FileTree)}
    (hfind : find t working true source = .ok (location, .directory entries)) {last : Bytes}
    {isDirectory : Bool} (hentry : (last, isDirectory) ∈ listNames listing location entries) :
    Path.IsName last ∧
      if isDirectory then directory (source.join ⟨last⟩) (below ++ [last])
      else file (source.join ⟨last⟩) (below ++ [last]) := by
  obtain ⟨child, hchild, rfl⟩ :=
    (mem_listNames_iff hlisting (of_find hfreeStart hfind).get).1 hentry
  have hlast : Path.IsName last := (h.proper hb).names location last
    (by rw [node?_eq_some hchild]; simp)
  exact ⟨hlast, hfeeds.inner _ _ _ _ _ hsource h hfind last child hlast hchild⟩

/-- A property that copying each entry keeps is kept by copying a directory, also where it fails. -/
theorem after_copyEntries {P : FileTree → Prop} (ht : P t)
    (hstep : ∀ listed, readDirectory listing working source t = .ok listed t →
      ∀ last isDirectory, (last, isDirectory) ∈ listed → ∀ w, P w →
        P ((if isDirectory then copyNested listing working depth (source.join ⟨last⟩)
            (target.join ⟨last⟩)
          else copyFile working (source.join ⟨last⟩) (target.join ⟨last⟩)).after w)) :
    P ((copyEntries listing working depth source target).after t) := by
  refine after_bind (by rwa [after_readDirectory]) fun listed v hread => ?_
  obtain ⟨rfl, -⟩ := readDirectory_eq_ok hread
  refine after_foldlM ht fun entry hentry count w hw => ?_
  obtain ⟨last, isDirectory⟩ := entry
  have hcopied := hstep listed hread last isDirectory hentry w hw
  -- what is counted changes nothing
  cases isDirectory with
  | true => exact after_bind hcopied fun _ x hok => by rwa [← Action.after_of_ok hok]
  | false => exact after_bind hcopied fun _ x hok => by rwa [← Action.after_of_ok hok]

/-- Copying what is in a directory advances if copying the directories in it does. -/
theorem Inside.copyEntries (hb : Ready b working p above name) (hplain : Plain allowed)
    (hfeeds : Feeds b working (above ++ [name]) allowed directory file) (hlisting : listing.Exact)
    (hinner : ∀ {source target : Path} {below : Location} {t : FileTree},
      Inside b (above ++ [name]) allowed t → (∀ n ∈ below, Path.IsName n) →
      Path.Follows p (name :: below) target → directory source below →
      (∀ u, Inside b (above ++ [name]) allowed u → FreeStart u working source) →
      Advance b (above ++ [name]) allowed t
        ((FileTree.copyNested listing working depth source target).after t))
    (h : Inside b (above ++ [name]) allowed t) (hbelow : ∀ n ∈ below, Path.IsName n)
    (htarget : Path.Follows p (name :: below) target) (hsource : directory source below)
    (hfreeStart : ∀ u, Inside b (above ++ [name]) allowed u → FreeStart u working source) :
    Advance b (above ++ [name]) allowed t
      ((FileTree.copyEntries listing working depth source target).after t) := by
  refine after_copyEntries h.advance fun listed hread last isDirectory hentry w hw => ?_
  obtain ⟨-, location, entries, hfind, rfl⟩ := readDirectory_eq_ok hread
  obtain ⟨hlast, hentry⟩ := hfeeds.listed hb hlisting h hsource (hfreeStart _ h) hfind hentry
  have hbelow' := isName_of_mem_concat hbelow hlast
  have hfreeStart' : ∀ u, Inside b (above ++ [name]) allowed u →
      FreeStart u working (source.join ⟨last⟩) := fun u hu =>
    (hfreeStart u hu).follows ((Path.Follows.refl source).join hlast)
  cases isDirectory with
  | true => exact hw.trans (hinner hw.inside hbelow' (htarget.join hlast) hentry hfreeStart')
  | false =>
    refine hw.trans (hw.inside.copyFile hb hplain hbelow' (htarget.join hlast)
      (hfeeds.made _ _ hsource) fun x hx => ⟨hfreeStart' x hx, fun here mode content left => ?_⟩)
    exact hfeeds.content _ _ x here mode content left hentry hx

/-- **Copying to the destination only does there what is allowed**, also where it fails. -/
theorem Inside.copyNested (hb : Ready b working p above name) (hplain : Plain allowed)
    (hfeeds : Feeds b working (above ++ [name]) allowed directory file) (hlisting : listing.Exact)
    (depth : Nat) (h : Inside b (above ++ [name]) allowed t) (hbelow : ∀ n ∈ below, Path.IsName n)
    (htarget : Path.Follows p (name :: below) target) (hsource : directory source below)
    (hfreeStart : ∀ u, Inside b (above ++ [name]) allowed u → FreeStart u working source) :
    Advance b (above ++ [name]) allowed t
      ((FileTree.copyNested listing working depth source target).after t) := by
  induction depth generalizing source target below t with
  | zero => exact h.advance
  | succ depth ih =>
    have hmade := h.makeDirectories hb hplain hbelow htarget (hfeeds.made _ _ hsource)
    rw [copyNested_succ]
    refine after_bind hmade fun _ u hok => ?_
    rw [Action.after_of_ok hok] at hmade
    exact hmade.trans (hmade.inside.copyEntries hb hplain hfeeds hlisting ih hbelow htarget hsource
      hfreeStart)

end Nested

end FileTree
end KernelRegistry
