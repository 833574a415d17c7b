import KernelRegistry.Proofs.FileTree.Ancestors
import KernelRegistry.Proofs.FileTree.Copy

/-!
# Copying to a destination without links

Where no link is at or below the destination, copying makes none, and so it never gets out of there.
Nothing is asked of the way to the destination but that everything on it is there: it may come
through the destination itself.

* `FileTree.LinkFree` — a path leads to a destination that is a directory, without links below it.
* `FileTree.Sealed` — nothing differs but at and below the destination, where no directory has
  vanished and no link is.
* `Sealed.way_of_follows` — a path below the destination leads to where its names say.
* `Sealed.copyNested`, `Sealed.writeFile` — **copying and writing leave the destination sealed**,
  also where they fail.
-/

set_option autoImplicit false
namespace KernelRegistry
namespace FileTree

open Text (Bytes)

/-- A way to a directory comes through directories and links only. -/
theorem stops_of_goal_directory {view : Location → Node} {links : Nat} {here x : Location}
    {names : List Bytes} (hgoal : (way view links here names).goal = some x)
    (hx : view x = .directory) {y : Location} (hy : y ∈ (way view links here names).stops)
    (mode : Nat) (content : Bytes) : view y ≠ .file mode content := by
  induction links, here, names using way_induction view with
  | nil =>
    rw [way_nil] at hy
    cases hy
  | up links here rest ih =>
    rw [way_dots] at hgoal hy
    exact ih hgoal hy
  | directory links here name rest hname hview ih =>
    rw [way_directory hname hview] at hgoal hy
    rcases List.mem_cons.1 hy with rfl | hy
    · rw [hview]
      simp
    · exact ih hgoal hy
  | file links here name rest mode' content' hname hview =>
    -- a file at the end would be what the way leads to
    rw [way_file hname hview] at hgoal
    dsimp only at hgoal
    split at hgoal
    · rw [← Option.some.inj hgoal, hview] at hx
      cases hx
    · cases hgoal
  | limit here name rest target hname hview =>
    rw [way_link_zero hname hview] at hgoal
    cases hgoal
  | link links here name rest target hname hview ih =>
    rw [way_link_succ hname hview] at hgoal hy
    rcases List.mem_cons.1 hy with rfl | hy
    · rw [hview]
      simp
    · exact ih hgoal hy

/-- A path leads to a directory in which the destination is a directory.  Everything on the way is
there, and no link is at or below the destination. -/
structure LinkFree (b : FileTree) (working : Location) (p : Path) (above : Location)
    (name : Bytes) : Prop where
  proper : b.Proper
  isName : Path.IsName name
  goal : (b.wayTo working p).goal = some above
  destination : b.node? (above ++ [name]) = some .directory
  present : ∀ x ∈ (b.wayTo working p).stops, b.node? x ≠ none
  start : b.node? (start working p) = some .directory
  noLink : ∀ below target, b.node? (above ++ [name] ++ below) ≠ some (.link target)

/-- The tree differs from `b` only at and below the destination.  No link is there, and no directory
has vanished.  This is less than `Inside` says of the destination; in return the way there may come
through the destination itself. -/
structure Sealed (b : FileTree) (destination : Location) (t : FileTree) : Prop where
  elsewhere : ∀ x, ¬ destination <+: x → t.node? x = b.node? x
  noLink : ∀ below target, t.node? (destination ++ below) ≠ some (.link target)
  kept : ∀ x, b.node? x = some .directory → t.node? x = some .directory
  proper : t.Proper

section Sealed

variable {b t u : FileTree} {working above x location : Location} {p q source target : Path}
variable {name last : Bytes} {below : List Bytes} {mode : Nat} {content : Bytes}

theorem LinkFree.directory (hb : LinkFree b working p above name) :
    b.node? above = some .directory :=
  node?_of_node?_append (List.cons_ne_nil name []) (by rw [hb.destination]; simp)

/-- Where the way comes through the destination, there are directories. -/
theorem LinkFree.node?_stop (hb : LinkFree b working p above name)
    (hx : x ∈ (b.wayTo working p).stops) (hunder : above ++ [name] <+: x) :
    b.node? x = some .directory := by
  obtain ⟨n, hn⟩ := Option.ne_none_iff_exists'.1 (hb.present x hx)
  cases n with
  | directory => exact hn
  | link target =>
    obtain ⟨below, rfl⟩ := hunder
    exact absurd hn (hb.noLink below target)
  | file mode content =>
    exact absurd (nodeAt_of_node? hn)
      (stops_of_goal_directory hb.goal (nodeAt_of_node? hb.directory) hx mode content)

namespace Sealed

theorem refl (hb : LinkFree b working p above name) : Sealed b (above ++ [name]) b :=
  ⟨fun _ _ => rfl, hb.noLink, fun _ h => h, hb.proper⟩

theorem nodeAt_stop (hb : LinkFree b working p above name) (h : Sealed b (above ++ [name]) t)
    (hx : x ∈ (b.wayTo working p).stops) : t.nodeAt x = b.nodeAt x := by
  by_cases hunder : above ++ [name] <+: x
  · have hdirectory := hb.node?_stop hx hunder
    rw [nodeAt_of_node? hdirectory, nodeAt_of_node? (h.kept x hdirectory)]
  · rw [nodeAt, nodeAt, h.elsewhere x hunder]

/-- A way that comes to no other places than the one to the destination has not changed. -/
theorem wayTo_of_subset (hb : LinkFree b working p above name) (h : Sealed b (above ++ [name]) t)
    (hq : (b.wayTo working q).stops ⊆ (b.wayTo working p).stops) :
    t.wayTo working q = b.wayTo working q :=
  wayTo_congr fun _ hx => h.nodeAt_stop hb (hq hx)

theorem wayTo (hb : LinkFree b working p above name) (h : Sealed b (above ++ [name]) t) :
    t.wayTo working p = b.wayTo working p :=
  h.wayTo_of_subset hb (List.Subset.refl _)

theorem freeStart (h : Sealed b x t) (hstart : b.node? (start working q) = some .directory) :
    FreeStart t working q := by
  refine ⟨h.proper.root, fun n hn => ?_⟩
  rw [h.kept _ hstart] at hn
  exact (Option.some.inj hn).symm

theorem freeStart_of_follows (hb : LinkFree b working p above name)
    (h : Sealed b (above ++ [name]) t) (hq : Path.Follows p below q) : FreeStart t working q :=
  h.freeStart (start_of_follows hq ▸ hb.start)

/-- **A path below the destination leads to where its names say**, and comes to nothing else there
than what is above it. -/
theorem way_of_follows (hb : LinkFree b working p above name) (h : Sealed b (above ++ [name]) t)
    (hbelow : ∀ n ∈ below, Path.IsName n) (hq : Path.Follows p (name :: below) q) :
    (∀ z, (t.wayTo working q).goal = some z → z = above ++ [name] ++ below) ∧
      ∀ y ∈ (t.wayTo working q).stops,
        t.node? y ≠ none ∨ ∃ part, part <+: below ∧ y = above ++ [name] ++ part := by
  have hway := h.wayTo hb
  obtain ⟨left, hleft⟩ := wayTo_of_follows hq (hway ▸ hb.goal)
    (nodeAt_of_node? (h.kept above hb.directory))
  rw [way_directory hb.isName.notDots (nodeAt_of_node? (h.kept _ hb.destination))] at hleft
  have hnoLink : ∀ part target, part <+: below →
      t.nodeAt (above ++ [name] ++ part) ≠ .link target := fun part target _ => by
    cases hnode : t.node? (above ++ [name] ++ part) with
    | none => rw [nodeAt_of_none hnode]; simp
    | some n =>
      rw [nodeAt_of_node? hnode]
      rintro rfl
      exact h.noLink part target hnode
  obtain ⟨hend, hstops⟩ := way_of_no_link left (fun n hn => (hbelow n hn).notDots) hnoLink
  rw [hleft]
  refine ⟨hend, fun y hy => ?_⟩
  rcases List.mem_append.1 hy with hy | hy
  · rw [hway] at hy
    by_cases hunder : above ++ [name] <+: y
    · exact .inl (by rw [h.kept y (hb.node?_stop hy hunder)]; simp)
    · exact .inl (h.elsewhere y hunder ▸ hb.present y hy)
  rcases List.mem_cons.1 hy with rfl | hy
  · exact .inr ⟨[], List.nil_prefix, (List.append_nil _).symm⟩
  · exact .inr (hstops y hy)

/-! ## Steps -/

section Steps

variable (hb : LinkFree b working p above name)
include hb

/-- The directories on the way to something below the destination are made there. -/
theorem made (h : Sealed b (above ++ [name]) t) (hbelow : ∀ n ∈ below, Path.IsName n)
    (hq : Path.Follows p (name :: below) q) (hmade : Made (t.wayTo working q).stops t u) :
    Sealed b (above ++ [name]) u := by
  refine ⟨fun x hx => ?_, fun part target hlink => ?_, fun x hx => hmade.same x _ (h.kept x hx),
    hmade.proper h.proper⟩
  · cases ht : t.node? x with
    | some n => rw [hmade.same x n ht, ← ht, h.elsewhere x hx]
    | none =>
      rw [← h.elsewhere x hx, ht]
      by_cases hu : u.node? x = none
      · exact hu
      · rcases (h.way_of_follows hb hbelow hq).2 x (hmade.new x ht hu).1 with
          hthere | ⟨part, -, rfl⟩
        · exact absurd ht hthere
        · exact absurd (List.prefix_append _ _) hx
  · cases ht : t.node? (above ++ [name] ++ part) with
    | some n =>
      rw [hmade.same _ n ht] at hlink
      exact h.noLink part target (ht.trans hlink)
    | none =>
      rw [(hmade.new _ ht (by rw [hlink]; simp)).2.1] at hlink
      cases hlink

/-- A file that is written below the destination is written there. -/
theorem wrote (h : Sealed b (above ++ [name]) t) (hbelow : ∀ n ∈ below, Path.IsName n)
    (hq : Path.Follows p (name :: below) q)
    (hwrote : Wrote t u working q location mode content) : Sealed b (above ++ [name]) u := by
  obtain rfl := (h.way_of_follows hb hbelow hq).1 location hwrote.goal
  have hroot : ([] : Location) ≠ above ++ [name] ++ below := by simp
  refine ⟨fun x hx => ?_, fun part target hlink => ?_, fun x hx => ?_, ⟨?_, fun x last hlast => ?_⟩⟩
  · rw [hwrote.node, if_neg, h.elsewhere x hx]
    rintro rfl
    exact hx (List.prefix_append _ _)
  · rw [hwrote.node] at hlink
    split at hlink
    · cases hlink
    · exact h.noLink part target hlink
  · rw [hwrote.node, if_neg, h.kept x hx]
    rintro rfl
    exact hwrote.writable.leaf (h.kept _ hx)
  · rw [hwrote.node, if_neg hroot, h.proper.root]
  · by_cases hthere : t.node? (x ++ [last]) = none
    · rw [hwrote.node] at hlast
      split at hlast
      · next heq =>
        obtain ⟨x', last', hlocation, -, hname⟩ := hwrote.writable.entry
        have hlast' := (List.append_inj' (heq.trans hlocation) rfl).2
        exact (List.cons.inj hlast').1 ▸ hname (heq ▸ hthere)
      · exact absurd hthere hlast
    · exact h.proper.names x last hthere

variable [Disk]

/-- **Making directories below the destination leaves it sealed**, also where it fails. -/
theorem makeDirectories (h : Sealed b (above ++ [name]) t) (hbelow : ∀ n ∈ below, Path.IsName n)
    (hq : Path.Follows p (name :: below) q) :
    Sealed b (above ++ [name]) ((FileTree.makeDirectories working q).after t) :=
  h.made hb hbelow hq (makeDirectories_made (h.freeStart_of_follows hb hq))

theorem makeParents (h : Sealed b (above ++ [name]) t) (hbelow : ∀ n ∈ below, Path.IsName n)
    (hq : Path.Follows p (name :: below) q) :
    Sealed b (above ++ [name]) ((FileTree.makeParents working q).after t) :=
  h.made hb hbelow hq (makeParents_made (h.freeStart_of_follows hb hq))

/-- **Copying a file to a place below the destination leaves it sealed**, also where it fails. -/
theorem copyFile (h : Sealed b (above ++ [name]) t) (hbelow : ∀ n ∈ below, Path.IsName n)
    (hq : Path.Follows p (name :: below) q)
    (hsource : b.node? (FileTree.start working source) = some .directory) :
    Sealed b (above ++ [name]) ((FileTree.copyFile working source q).after t) := by
  have hparents := h.makeParents hb hbelow hq
  refine after_bind hparents fun _ u hok => ?_
  rw [Action.after_of_ok hok] at hparents
  rcases copyOver_cases (hparents.freeStart hsource) (hparents.freeStart_of_follows hb hq) with
    ⟨e, he⟩ | ⟨here, mode, content, there, -, ⟨n, v, hwrote, hok'⟩ | ⟨e, v, cut, -, hwrote, he⟩⟩
  · rw [Action.after_of_error he]
    exact hparents
  · rw [Action.after_of_ok hok']
    exact hparents.wrote hb hbelow hq hwrote
  · rw [Action.after_of_error he]
    exact hparents.wrote hb hbelow hq hwrote

/-- **Writing a file below the destination leaves it sealed**, also where it fails. -/
theorem writeFile (h : Sealed b (above ++ [name]) t) (hbelow : ∀ n ∈ below, Path.IsName n)
    (hq : Path.Follows p (name :: below) q) (content : Bytes) :
    Sealed b (above ++ [name]) ((FileTree.writeFile working q content).after t) := by
  have hparents := h.makeParents hb hbelow hq
  refine after_bind hparents fun _ u hok => ?_
  rw [Action.after_of_ok hok] at hparents
  rcases overwrite_cases (hparents.freeStart_of_follows hb hq) content with
    ⟨e, he⟩ | ⟨location, mode, -, ⟨v, hwrote, hok'⟩ | ⟨e, v, cut, -, hwrote, he⟩⟩
  · rw [Action.after_of_error he]
    exact hparents
  · rw [Action.after_of_ok hok']
    exact hparents.wrote hb hbelow hq hwrote
  · rw [Action.after_of_error he]
    exact hparents.wrote hb hbelow hq hwrote

/-! ## Copying directories -/

variable {listing : Listing} {depth : Nat}

/-- Copying what is in a directory leaves the destination sealed if copying the directories in it
does. -/
theorem copyEntries (hlisting : listing.Exact)
    (hinner : ∀ {source target : Path} {below : Location} {t : FileTree},
      Sealed b (above ++ [name]) t → (∀ n ∈ below, Path.IsName n) →
      Path.Follows p (name :: below) target →
      b.node? (FileTree.start working source) = some .directory →
      Sealed b (above ++ [name])
        ((FileTree.copyNested listing working depth source target).after t))
    (h : Sealed b (above ++ [name]) t) (hbelow : ∀ n ∈ below, Path.IsName n)
    (htarget : Path.Follows p (name :: below) target)
    (hsource : b.node? (FileTree.start working source) = some .directory) :
    Sealed b (above ++ [name])
      ((FileTree.copyEntries listing working depth source target).after t) := by
  refine after_copyEntries h fun listed hread last isDirectory hentry w hw => ?_
  obtain ⟨-, location, entries, hfind, rfl⟩ := readDirectory_eq_ok hread
  obtain ⟨child, hchild, -⟩ :=
    (mem_listNames_iff hlisting (of_find (h.freeStart hsource) hfind).get).1 hentry
  have hlast : Path.IsName last :=
    h.proper.names location last (by rw [node?_eq_some hchild]; simp)
  have hbelow' := isName_of_mem_concat hbelow hlast
  have hsource' : b.node? (FileTree.start working (source.join ⟨last⟩)) = some .directory := by
    rwa [start_of_follows ((Path.Follows.refl source).join hlast)]
  cases isDirectory with
  | true => exact hinner hw hbelow' (htarget.join hlast) hsource'
  | false => exact hw.copyFile hb hbelow' (htarget.join hlast) hsource'

/-- **Copying a directory to the destination leaves it sealed**, also where it fails. -/
theorem copyNested (hlisting : listing.Exact) (depth : Nat) (h : Sealed b (above ++ [name]) t)
    (hbelow : ∀ n ∈ below, Path.IsName n) (htarget : Path.Follows p (name :: below) target)
    (hsource : b.node? (FileTree.start working source) = some .directory) :
    Sealed b (above ++ [name])
      ((FileTree.copyNested listing working depth source target).after t) := by
  induction depth generalizing source target below t with
  | zero => exact h
  | succ depth ih =>
    have hmade := h.makeDirectories hb hbelow htarget
    rw [copyNested_succ]
    refine after_bind hmade fun _ u hok => ?_
    rw [Action.after_of_ok hok] at hmade
    exact hmade.copyEntries hb hlisting ih hbelow htarget hsource

end Steps

end Sealed

end Sealed

end FileTree
end KernelRegistry
