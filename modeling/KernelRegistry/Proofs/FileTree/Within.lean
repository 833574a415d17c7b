import KernelRegistry.Proofs.FileTree.Actions

/-!
# Working within a directory

An installation only touches what is at or below its destination.  This rests on two facts about
the tree that it works on: the way to the destination does not come through the destination, and
there are no links at or below it.

* `FileTree.ClearDestination` — the way to the destination does not come through it;
  `FileTree.Ready` — everything on this way is there.
* `FileTree.Inside` — nothing differs from a given tree but what is at or below the destination,
  where only what is allowed is found.
* `Inside.way_of_follows` — a path below the destination leads to where its names say.
* `FileTree.Advance` — `Inside` holds, and nothing has vanished; `Inside.makeDirectories`,
  `Inside.copyFile` and `Inside.writeFile` say that the operations advance.
-/

set_option autoImplicit false
namespace KernelRegistry
namespace FileTree

open Text (Bytes)

/-! ## The destination -/

/-- The place is not below the destination; it may be the destination itself. -/
def NotBelow (destination x : Location) : Prop := destination <+: x → x = destination

/-- A place that a path may come to although something happens at the destination: it is not below
the destination, and if it is the destination, that is a directory or missing. -/
def Clear (t : FileTree) (destination x : Location) : Prop :=
  destination <+: x → x = destination ∧ t.nodeAt destination = .directory

section Clear

variable {t u : FileTree} {destination x : Location}

theorem Clear.nodeAt (h : Clear t destination x)
    (helsewhere : ∀ y, ¬ destination <+: y → u.node? y = t.node? y)
    (hdestination : t.nodeAt destination = .directory → u.nodeAt destination = .directory) :
    u.nodeAt x = t.nodeAt x := by
  by_cases hx : destination <+: x
  · obtain ⟨rfl, hdirectory⟩ := h hx
    rw [hdestination hdirectory, hdirectory]
  · rw [FileTree.nodeAt, FileTree.nodeAt, helsewhere x hx]

theorem Clear.of_directory (h : Clear t destination x)
    (hdestination : t.nodeAt destination = .directory → u.nodeAt destination = .directory) :
    Clear u destination x :=
  fun hx => ⟨(h hx).1, hdestination (h hx).2⟩

/-- A way that is clear of the destination is the same in a tree that differs only there. -/
theorem wayTo_of_clear {working : Location} {p : Path}
    (h : ∀ x ∈ (t.wayTo working p).stops, Clear t destination x)
    (helsewhere : ∀ y, ¬ destination <+: y → u.node? y = t.node? y)
    (hdestination : t.nodeAt destination = .directory → u.nodeAt destination = .directory) :
    u.wayTo working p = t.wayTo working p :=
  wayTo_congr fun x hx => (h x hx).nodeAt helsewhere hdestination

end Clear

/-- A destination is a name in the directory that a path leads to, and the path is clear of the
destination.  So the path leads to the same directory whatever is done at the destination. -/
structure ClearDestination (t : FileTree) (working : Location) (p : Path) (above : Location)
    (name : Bytes) :
    Prop where
  proper : t.Proper
  isName : Path.IsName name
  goal : (t.wayTo working p).goal = some above
  clear : ∀ x ∈ (t.wayTo working p).stops, Clear t (above ++ [name]) x
  origin : ∀ n, t.node? (start working p) = some n → n = .directory
  notBelow : NotBelow (above ++ [name]) (start working p)

/-- Everything on the way to the destination is there, so that nothing has to be made outside of it
any more. -/
structure Ready (b : FileTree) (working : Location) (p : Path) (above : Location) (name : Bytes) :
    Prop extends ClearDestination b working p above name where
  directory : b.node? above = some .directory
  present : ∀ x ∈ (b.wayTo working p).stops, b.node? x ≠ none

/-- Links are not allowed at or below the destination, and at the destination itself only a
directory is.  Then no path can be led astray by what is put there. -/
structure Plain (allowed : Location → Node → Prop) : Prop where
  noLink : ∀ below target, ¬ allowed below (.link target)
  root : ∀ n, allowed [] n → n = .directory

/-- The tree differs from `b` only at and below the destination, and has there only what is allowed.
This is the invariant of everything that is done at a destination; `allowed` says what may be put
there. -/
structure Inside (b : FileTree) (destination : Location) (allowed : Location → Node → Prop)
    (t : FileTree) : Prop where
  elsewhere : ∀ x, ¬ destination <+: x → t.node? x = b.node? x
  node : ∀ below n, t.node? (destination ++ below) = some n → allowed below n
  names : ∀ below name, t.node? (destination ++ below ++ [name]) ≠ none → Path.IsName name

theorem not_concat_below (above : Location) (name : Bytes) : ¬ above ++ [name] <+: above := by
  intro h
  have := h.length_le
  rw [List.length_append, List.length_singleton] at this
  omega

theorem prefix_cases {above x : Location} {name last : Bytes}
    (h : above ++ [name] <+: x ++ [last]) :
    (x = above ∧ last = name) ∨ ∃ below, x = above ++ [name] ++ below := by
  obtain ⟨rest, hrest⟩ := h
  rcases List.eq_nil_or_concat rest with rfl | ⟨below, last', rfl⟩
  · rw [List.append_nil] at hrest
    obtain ⟨rfl, hlast⟩ := List.append_inj' hrest rfl
    exact .inl ⟨rfl, (List.cons.inj hlast).1.symm⟩
  · rw [List.concat_eq_append, ← List.append_assoc] at hrest
    exact .inr ⟨below, ((List.append_inj' hrest rfl).1).symm⟩

namespace Inside

variable {b t u : FileTree} {working above : Location} {p q source : Path} {name : Bytes}
variable {allowed : Location → Node → Prop} {below : List Bytes}

theorem nodeAt {destination : Location} (h : Inside b destination allowed t)
    (hplain : Plain allowed) : t.nodeAt destination = .directory := by
  cases hnode : t.node? destination with
  | none => exact nodeAt_of_none hnode
  | some n =>
    rw [nodeAt_of_node? hnode]
    rw [← List.append_nil destination] at hnode
    exact hplain.root n (h.node [] n hnode)

theorem proper (hb : Ready b working p above name) (h : Inside b (above ++ [name]) allowed t) :
    t.Proper := by
  refine ⟨(h.elsewhere [] (by simp)).trans hb.proper.root, fun x last hx => ?_⟩
  by_cases hunder : above ++ [name] <+: x ++ [last]
  · rcases prefix_cases hunder with ⟨-, rfl⟩ | ⟨below, rfl⟩
    · exact hb.isName
    · exact h.names below last hx
  · rw [h.elsewhere _ hunder] at hx
    exact hb.proper.names x last hx

/-- A path that starts outside of the destination is seen as before. -/
theorem freeStart (hb : Ready b working p above name) (hplain : Plain allowed)
    (h : Inside b (above ++ [name]) allowed t)
    (hstart : ∀ n, b.node? (start working q) = some n → n = .directory)
    (hnot : NotBelow (above ++ [name]) (start working q)) : FreeStart t working q := by
  refine ⟨(h.proper hb).root, fun n hn => ?_⟩
  by_cases hunder : above ++ [name] <+: start working q
  · have := h.nodeAt hplain
    rw [← hnot hunder, nodeAt_of_node? hn] at this
    exact this
  · exact hstart n ((h.elsewhere _ hunder).symm.trans hn)

theorem freeStart_of_follows (hb : Ready b working p above name) (hplain : Plain allowed)
    (h : Inside b (above ++ [name]) allowed t) (hq : Path.Follows p below q) :
    FreeStart t working q := by
  have hstart : start working q = start working p := start_of_follows hq
  exact h.freeStart hb hplain (hstart ▸ hb.origin) (hstart ▸ hb.notBelow)

theorem wayTo (hplain : Plain allowed) {destination : Location}
    (h : Inside b destination allowed t)
    (hq : ∀ x ∈ (b.wayTo working q).stops, Clear b destination x) :
    t.wayTo working q = b.wayTo working q :=
  wayTo_of_clear hq h.elsewhere fun _ => h.nodeAt hplain

/-- **A path below the destination leads to where its names say.** -/
theorem way_of_follows (hb : Ready b working p above name) (hplain : Plain allowed)
    (h : Inside b (above ++ [name]) allowed t) (hbelow : ∀ n ∈ below, Path.IsName n)
    (hq : Path.Follows p (name :: below) q) :
    (∀ z, (t.wayTo working q).goal = some z → z = above ++ [name] ++ below) ∧
      ∀ y ∈ (t.wayTo working q).stops,
        y ∈ (b.wayTo working p).stops ∨ ∃ part, part <+: below ∧ y = above ++ [name] ++ part := by
  have hgoal : (t.wayTo working p).goal = some above := by rw [h.wayTo hplain hb.clear, hb.goal]
  have habove : t.nodeAt above = .directory :=
    nodeAt_of_node? ((h.elsewhere above (not_concat_below above name)).trans hb.directory)
  obtain ⟨left, hway⟩ := wayTo_of_follows hq hgoal habove
  rw [way_directory hb.isName.notDots (h.nodeAt hplain), h.wayTo hplain hb.clear] at hway
  have hnoLink : ∀ part target, part <+: below →
      t.nodeAt (above ++ [name] ++ part) ≠ .link target := fun part target _ => by
    cases hnode : t.node? (above ++ [name] ++ part) with
    | none => rw [nodeAt_of_none hnode]; simp
    | some n =>
      rw [nodeAt_of_node? hnode]
      rintro rfl
      exact hplain.noLink part target (h.node part _ hnode)
  obtain ⟨hend, hstops⟩ := way_of_no_link left (fun n hn => (hbelow n hn).notDots) hnoLink
  rw [hway]
  refine ⟨hend, fun y hy => ?_⟩
  rcases List.mem_append.1 hy with hy | hy
  · exact .inl hy
  rcases List.mem_cons.1 hy with rfl | hy
  · exact .inr ⟨[], List.nil_prefix, (List.append_nil _).symm⟩
  · obtain ⟨part, hpart, rfl⟩ := hstops y hy
    exact .inr ⟨part, hpart, rfl⟩

end Inside

/-! ## Steps -/

/-- Only what is allowed was done in the directory, and nothing has vanished.  A copy needs the
second part as well: a directory that it made for one entry is still there for the next one. -/
structure Advance (b : FileTree) (destination : Location) (allowed : Location → Node → Prop)
    (t u : FileTree) : Prop where
  inside : Inside b destination allowed u
  kept : ∀ x, t.node? x ≠ none → u.node? x ≠ none

section Steps

variable {b t u v : FileTree} {working above : Location} {p q source : Path} {name last : Bytes}
variable {allowed : Location → Node → Prop} {below : List Bytes} {e : FileError}

theorem Inside.advance (h : Inside b above allowed t) : Advance b above allowed t t :=
  ⟨h, fun _ hx => hx⟩

theorem Advance.trans (h : Advance b above allowed t u) (h' : Advance b above allowed u v) :
    Advance b above allowed t v :=
  ⟨h'.inside, fun x hx => h'.kept x (h.kept x hx)⟩

variable (hb : Ready b working p above name) (hplain : Plain allowed)
include hb hplain

/-- The directories on the way to something below the destination are made there. -/
theorem Inside.made (h : Inside b (above ++ [name]) allowed t)
    (hbelow : ∀ n ∈ below, Path.IsName n) (hq : Path.Follows p (name :: below) q)
    (hallowed : ∀ part, part <+: below → allowed part .directory)
    (hmade : Made (t.wayTo working q).stops t u) : Advance b (above ++ [name]) allowed t u := by
  have hstops := (h.way_of_follows hb hplain hbelow hq).2
  refine ⟨⟨fun x hx => ?_, fun part n hn => ?_, fun part last hlast => ?_⟩, fun x => hmade.ne_none⟩
  · cases ht : t.node? x with
    | some n => rw [hmade.same x n ht, ← ht, h.elsewhere x hx]
    | none =>
      rw [← h.elsewhere x hx, ht]
      by_cases hu : u.node? x = none
      · exact hu
      · rcases hstops x (hmade.new x ht hu).1 with hmem | ⟨part, -, rfl⟩
        · rw [h.elsewhere x hx] at ht
          exact absurd ht (hb.present x hmem)
        · exact absurd (List.prefix_append _ _) hx
  · cases ht : t.node? (above ++ [name] ++ part) with
    | some n' =>
      rw [hmade.same _ n' ht] at hn
      exact Option.some.inj hn ▸ h.node part n' ht
    | none =>
      obtain ⟨hmem, hdirectory, -⟩ := hmade.new _ ht (by rw [hn]; simp)
      rw [hdirectory] at hn
      obtain rfl := Option.some.inj hn
      rcases hstops _ hmem with hmem | ⟨part', hpart', heq⟩
      · have hpart := List.append_right_eq_self.1 ((hb.clear _ hmem) (List.prefix_append _ _)).1
        exact hpart ▸ hallowed [] List.nil_prefix
      · rw [List.append_cancel_left heq]
        exact hallowed part' hpart'
  · cases ht : t.node? (above ++ [name] ++ part ++ [last]) with
    | some n => exact h.names part last (by rw [ht]; simp)
    | none =>
      obtain ⟨-, -, x, last', hx, hname⟩ := hmade.new _ ht hlast
      obtain ⟨-, hlast'⟩ := List.append_inj' hx rfl
      exact (List.cons.inj hlast').1 ▸ hname

/-- A file that is written below the destination is written there. -/
theorem Inside.wrote (h : Inside b (above ++ [name]) allowed t)
    (hbelow : ∀ n ∈ below, Path.IsName n) (hq : Path.Follows p (name :: below) q)
    {location : Location} {mode : Nat} {content : Bytes}
    (hwrote : Wrote t u working q location mode content)
    (hallowed : allowed below (.file mode content)) :
    location = above ++ [name] ++ below ∧ Advance b (above ++ [name]) allowed t u := by
  obtain rfl := (h.way_of_follows hb hplain hbelow hq).1 location hwrote.goal
  refine ⟨rfl, ⟨fun x hx => ?_, fun part n hn => ?_, fun part last hlast => ?_⟩, fun x hx => ?_⟩
  · rw [hwrote.node, if_neg, h.elsewhere x hx]
    rintro rfl
    exact hx (List.prefix_append _ _)
  · rw [hwrote.node] at hn
    split at hn
    · next heq =>
      rw [List.append_cancel_left heq, ← Option.some.inj hn]
      exact hallowed
    · exact h.node part n hn
  · rw [hwrote.node] at hlast
    split at hlast
    · next heq =>
      rw [List.append_assoc] at heq
      exact hbelow last (by rw [← List.append_cancel_left heq]; simp)
    · exact h.names part last hlast
  · rw [hwrote.node]
    split
    · simp
    · exact hx

variable [Disk]

/-- **Making directories below the destination advances**, also where it fails. -/
theorem Inside.makeDirectories (h : Inside b (above ++ [name]) allowed t)
    (hbelow : ∀ n ∈ below, Path.IsName n) (hq : Path.Follows p (name :: below) q)
    (hallowed : ∀ part, part <+: below → allowed part .directory) :
    Advance b (above ++ [name]) allowed t ((FileTree.makeDirectories working q).after t) :=
  h.made hb hplain hbelow hq hallowed
    (makeDirectories_made (h.freeStart_of_follows hb hplain hq))

theorem Inside.makeParents (h : Inside b (above ++ [name]) allowed t)
    (hbelow : ∀ n ∈ below, Path.IsName n) (hq : Path.Follows p (name :: below ++ [last]) q)
    (hallowed : ∀ part, part <+: below → allowed part .directory) :
    Advance b (above ++ [name]) allowed t ((FileTree.makeParents working q).after t) := by
  rw [FileTree.makeParents]
  split
  · next parent hparent =>
    exact h.makeDirectories hb hplain hbelow (hq.parent? hparent) hallowed
  · exact h.advance

/-- **Copying a file to a place below the destination advances**, also where it fails. -/
theorem Inside.copyFile (h : Inside b (above ++ [name]) allowed t)
    (hbelow : ∀ n ∈ below ++ [last], Path.IsName n)
    (hq : Path.Follows p (name :: below ++ [last]) q)
    (hallowed : ∀ part, part <+: below → allowed part .directory)
    (hsource : ∀ u, Inside b (above ++ [name]) allowed u → FreeStart u working source ∧
      ∀ here mode content left, find u working true source = .ok (here, .file mode content) →
        Disk.Leaves (if here = above ++ [name] ++ (below ++ [last]) then [] else content) left →
        allowed (below ++ [last]) (.file mode left)) :
    Advance b (above ++ [name]) allowed t ((FileTree.copyFile working source q).after t) := by
  have hparents : ∀ n ∈ below, Path.IsName n := fun n hn => hbelow n (List.mem_append_left _ hn)
  have hmade := h.makeParents hb hplain hparents hq hallowed
  refine after_bind hmade fun a u hok => ?_
  rw [Action.after_of_ok hok] at hmade
  obtain ⟨hfreeStart, hfile⟩ := hsource u hmade.inside
  have hwritten : ∀ {here mode content there left v},
      find u working true source = .ok (here, .file mode content) →
      Disk.Leaves (if here = there then [] else content) left →
      Wrote u v working q there mode left → Advance b (above ++ [name]) allowed t v := by
    intro here mode content there left v hfind hleft hwrote
    rw [(hmade.inside.way_of_follows hb hplain hbelow hq).1 there hwrote.goal] at hleft
    exact hmade.trans (hmade.inside.wrote hb hplain hbelow hq hwrote
      (hfile here mode content left hfind hleft)).2
  rcases copyOver_cases hfreeStart (hmade.inside.freeStart_of_follows hb hplain hq) with
    ⟨e, he⟩ | ⟨here, mode, content, there, hfind,
      ⟨n, v, hwrote, hok'⟩ | ⟨e, v, cut, hcut, hwrote, he⟩⟩
  · rw [Action.after_of_error he]
    exact hmade
  · rw [Action.after_of_ok hok']
    exact hwritten hfind (.refl _) hwrote
  · rw [Action.after_of_error he]
    exact hwritten hfind (.inr hcut) hwrote

/-- A file that was copied is there. -/
theorem Inside.copyFile_present (h : Inside b (above ++ [name]) allowed t)
    (hbelow : ∀ n ∈ below ++ [last], Path.IsName n)
    (hq : Path.Follows p (name :: below ++ [last]) q)
    (hallowed : ∀ part, part <+: below → allowed part .directory)
    (hsource : ∀ u, Inside b (above ++ [name]) allowed u → FreeStart u working source)
    {count : Nat} (hok : FileTree.copyFile working source q t = .ok count u) :
    u.node? (above ++ [name] ++ (below ++ [last])) ≠ none := by
  have hparents : ∀ n ∈ below, Path.IsName n := fun n hn => hbelow n (List.mem_append_left _ hn)
  have hmade := h.makeParents hb hplain hparents hq hallowed
  obtain ⟨a, v, hparent, hcopy⟩ := bind_eq_ok hok
  rw [Action.after_of_ok hparent] at hmade
  rcases copyOver_cases (hsource v hmade.inside)
    (hmade.inside.freeStart_of_follows hb hplain hq) with
    ⟨e, he⟩ | ⟨here, mode, content, there, hfind, ⟨n, w, hwrote, hok'⟩ | ⟨e, w, cut, -, -, he⟩⟩
  · rw [he] at hcopy
    cases hcopy
  · rw [hok'] at hcopy
    cases hcopy
    rw [← (hmade.inside.way_of_follows hb hplain hbelow hq).1 there hwrote.goal, hwrote.node,
      if_pos rfl]
    simp
  · rw [he] at hcopy
    cases hcopy

/-- **Writing a file below the destination advances**, also where it fails. -/
theorem Inside.writeFile (h : Inside b (above ++ [name]) allowed t)
    (hbelow : ∀ n ∈ below ++ [last], Path.IsName n)
    (hq : Path.Follows p (name :: below ++ [last]) q)
    (hallowed : ∀ part, part <+: below → allowed part .directory) {content : Bytes}
    (hcontent : ∀ mode left, Disk.Leaves content left →
      allowed (below ++ [last]) (.file mode left)) :
    Advance b (above ++ [name]) allowed t ((FileTree.writeFile working q content).after t) := by
  have hparents : ∀ n ∈ below, Path.IsName n := fun n hn => hbelow n (List.mem_append_left _ hn)
  have hmade := h.makeParents hb hplain hparents hq hallowed
  refine after_bind hmade fun a u hok => ?_
  rw [Action.after_of_ok hok] at hmade
  have hwritten : ∀ {location mode left v}, Disk.Leaves content left →
      Wrote u v working q location mode left → Advance b (above ++ [name]) allowed t v :=
    fun hleft hwrote => hmade.trans
      (hmade.inside.wrote hb hplain hbelow hq hwrote (hcontent _ _ hleft)).2
  rcases overwrite_cases (hmade.inside.freeStart_of_follows hb hplain hq) content with
    ⟨e, he⟩ | ⟨location, mode, -, ⟨v, hwrote, hok'⟩ | ⟨e, v, cut, hcut, hwrote, he⟩⟩
  · rw [Action.after_of_error he]
    exact hmade
  · rw [Action.after_of_ok hok']
    exact hwritten (.refl content) hwrote
  · rw [Action.after_of_error he]
    exact hwritten (.inr hcut) hwrote

/-- Where something is, all the directories above it are there. -/
theorem Inside.makeParents_present (h : Inside b (above ++ [name]) allowed t)
    (hbelow : ∀ n ∈ below ++ [last], Path.IsName n)
    (hq : Path.Follows p (name :: below ++ [last]) q)
    (hold : t.node? (above ++ [name] ++ (below ++ [last])) ≠ none) (x : Location) :
    ((FileTree.makeParents working q).after t).node? x = t.node? x := by
  refine (makeParents_made (h.freeStart_of_follows hb hplain hq)).node?_eq (fun y hy => ?_) x
  rcases (h.way_of_follows hb hplain hbelow hq).2 y hy with hy | ⟨part, hpart, rfl⟩
  · by_cases hunder : above ++ [name] <+: y
    · rw [((hb.clear y hy) hunder).1,
        node?_of_node?_append (b := below ++ [last]) (by simp) hold]
      simp
    · rw [h.elsewhere y hunder]
      exact hb.present y hy
  · by_cases heq : part = below ++ [last]
    · rwa [heq]
    · rw [node?_of_above ((List.prefix_append_right_inj _).2 hpart)
        (fun h => heq (List.append_cancel_left h)) hold]
      simp

/-- **Writing to a file that is there changes its content and nothing else.** -/
theorem Inside.writeFile_present (h : Inside b (above ++ [name]) allowed t)
    (hbelow : ∀ n ∈ below ++ [last], Path.IsName n)
    (hq : Path.Follows p (name :: below ++ [last]) q)
    (hallowed : ∀ part, part <+: below → allowed part .directory) {mode : Nat}
    {old content : Bytes}
    (hold : t.node? (above ++ [name] ++ (below ++ [last])) = some (.file mode old))
    (hok : FileTree.writeFile working q content t = .ok () u) (x : Location) :
    u.node? x =
      if x = above ++ [name] ++ (below ++ [last]) then some (.file mode content)
      else t.node? x := by
  obtain ⟨_, v, hparents, hwrite⟩ := bind_eq_ok hok
  have hadvance := h.makeParents hb hplain (fun n hn => hbelow n (List.mem_append_left _ hn)) hq
    hallowed
  have hsame := h.makeParents_present hb hplain hbelow hq (by rw [hold]; simp)
  rw [Action.after_of_ok hparents] at hadvance hsame
  have hfreeStart := hadvance.inside.freeStart_of_follows hb hplain hq
  obtain ⟨location, mode', hwrote, hmode⟩ := overwrite_ok hfreeStart hwrite
  obtain rfl := (hadvance.inside.way_of_follows hb hplain hbelow hq).1 location hwrote.goal
  obtain rfl := hmode mode old ((hsame _).trans hold)
  rw [hwrote.node, hsame]

/-- Where writing to a file that is there fails, nothing has changed, or what was there is replaced
by a part of what was written. -/
theorem Inside.writeFile_error (h : Inside b (above ++ [name]) allowed t)
    (hbelow : ∀ n ∈ below ++ [last], Path.IsName n)
    (hq : Path.Follows p (name :: below ++ [last]) q)
    (hallowed : ∀ part, part <+: below → allowed part .directory) {mode : Nat}
    {old content : Bytes}
    (hold : t.node? (above ++ [name] ++ (below ++ [last])) = some (.file mode old))
    (herror : FileTree.writeFile working q content t = .error e u) :
    (∀ x, u.node? x = t.node? x) ∨ ∃ cut, Disk.Cut content cut ∧ ∀ x, u.node? x =
      if x = above ++ [name] ++ (below ++ [last]) then some (.file mode cut) else t.node? x := by
  have hadvance := h.makeParents hb hplain (fun n hn => hbelow n (List.mem_append_left _ hn)) hq
    hallowed
  have hsame := h.makeParents_present hb hplain hbelow hq (by rw [hold]; simp)
  cases hparents : FileTree.makeParents working q t with
  | error e' v =>
    rw [FileTree.writeFile, bind_of_error hparents] at herror
    cases herror
    rw [Action.after_of_error hparents] at hsame
    exact .inl hsame
  | ok _ v =>
    rw [FileTree.writeFile, bind_of_ok hparents] at herror
    rw [Action.after_of_ok hparents] at hadvance hsame
    have hfreeStart := hadvance.inside.freeStart_of_follows hb hplain hq
    rcases overwrite_error hfreeStart herror with
      rfl | ⟨location, mode', cut, hcut, hwrote, hmode⟩
    · exact .inl hsame
    · obtain rfl := (hadvance.inside.way_of_follows hb hplain hbelow hq).1 location hwrote.goal
      obtain rfl := hmode mode old ((hsame _).trans hold)
      exact .inr ⟨cut, hcut, fun x => by rw [hwrote.node, hsame]⟩

end Steps

end FileTree
end KernelRegistry
