import KernelRegistry.Proofs.FileTree.Ancestors
import KernelRegistry.Proofs.FileTree.Image
import KernelRegistry.Proofs.FileTree.Removal

/-!
# Getting to the destination

Before anything is copied, what is at the destination is removed and the directories on the way to
it are made.  Neither changes where paths lead, and neither changes the image of the source.

* `ClearDestination.cleared`, `ClearDestination.made` — the path to the destination still leads
  there.
* `ClearDestination.ready` — **after its directories were made, everything on the way is there**.
* `Apart.cleared`, `Apart.made` — source and destination still have nothing to do with each other.
* `Apart.image_eq`, `Made.image` — the image of the source is the same.
-/

set_option autoImplicit false
namespace KernelRegistry
namespace FileTree

open Text (Bytes)

section Approach

variable {t c b : FileTree} {working above x : Location} {p q source : Path} {name : Bytes}
variable {stops : List Location} {destination : Location}

/-! ## The destination -/

/-- Where nothing is, there is nothing to clear. -/
theorem Cleared.of_none (h : t.node? destination = none) : Cleared t t destination := by
  refine ⟨fun _ _ => rfl, fun x hx => .inl ?_⟩
  by_cases hnone : t.node? x = none
  · exact hnone
  · by_cases heq : destination = x
    · exact heq ▸ h
    · rw [node?_of_above hx heq hnone] at h
      cases h

namespace Cleared

/-- Where nothing else than a directory was outside of the destination, nothing else is left. -/
theorem origin (h : Cleared t c destination) {y : Location}
    (ht : ∀ n, t.node? y = some n → n = .directory) : ∀ n, c.node? y = some n → n = .directory := by
  intro n hn
  by_cases hy : destination <+: y
  · rcases h.below y hy with hnone | ⟨-, hdirectory⟩
    · rw [hnone] at hn
      cases hn
    · rw [hdirectory] at hn
      exact (Option.some.inj hn).symm
  · exact ht n ((h.elsewhere y hy).symm.trans hn)

end Cleared

theorem Cleared.nodeAt (h : Cleared t c destination) : c.nodeAt destination = .directory := by
  rcases h.below destination (List.prefix_refl _) with hnone | ⟨-, hdirectory⟩
  · exact nodeAt_of_none hnone
  · exact nodeAt_of_node? hdirectory

theorem Cleared.wayTo (h : Cleared t c destination) {q : Path}
    (hq : ∀ y ∈ (t.wayTo working q).stops, Clear t destination y) :
    c.wayTo working q = t.wayTo working q :=
  wayTo_of_clear hq h.elsewhere fun _ => h.nodeAt

theorem ClearDestination.cleared (h : ClearDestination t working p above name)
    (hc : Cleared t c (above ++ [name])) :
    ClearDestination c working p above name := by
  have hway := hc.wayTo h.clear
  refine ⟨⟨?_, fun y last hy => ?_⟩, h.isName, hway ▸ h.goal,
    fun y hy => (h.clear y (hway ▸ hy)).of_directory fun _ => hc.nodeAt, hc.origin h.origin,
    h.notBelow⟩
  · exact (hc.elsewhere [] (by simp)).trans h.proper.root
  · by_cases hunder : above ++ [name] <+: y ++ [last]
    · rcases hc.below _ hunder with hnone | ⟨heq, -⟩
      · exact absurd hnone hy
      · exact (List.cons.inj (List.append_inj' heq rfl).2).1 ▸ h.isName
    · rw [hc.elsewhere _ hunder] at hy
      exact h.proper.names y last hy

theorem ClearDestination.made (h : ClearDestination c working p above name) (hb : Made stops c b) :
    ClearDestination b working p above name := by
  have hway := hb.wayTo working p
  refine ⟨⟨hb.same [] _ h.proper.root, fun y last hy => ?_⟩, h.isName, hway ▸ h.goal,
    fun y hy => (h.clear y (hway ▸ hy)).of_directory fun hd => (hb.nodeAt _).trans hd,
    (hb.freeStart ⟨h.proper.root, h.origin⟩).start, h.notBelow⟩
  cases hc : c.node? (y ++ [last]) with
  | some n => exact h.proper.names y last (by rw [hc]; simp)
  | none =>
    obtain ⟨-, -, y', last', heq, hname⟩ := hb.new _ hc hy
    exact (List.cons.inj (List.append_inj' heq rfl).2).1 ▸ hname

theorem ClearDestination.follows (h : ClearDestination t working p above name) :
    Path.Follows p [name] (p.join ⟨name⟩) :=
  (Path.Follows.refl p).join h.isName

theorem ClearDestination.freeStart_of_follows (h : ClearDestination t working p above name)
    (hq : Path.Follows p [name] q) : FreeStart t working q :=
  (FreeStart.mk h.proper.root h.origin).follows hq

theorem ClearDestination.freeStart (h : ClearDestination t working p above name) :
    FreeStart t working (p.join ⟨name⟩) :=
  h.freeStart_of_follows h.follows

/-- The way to the destination is the way to its directory and the destination itself. -/
theorem ClearDestination.way (h : ClearDestination t working p above name)
    (habove : t.nodeAt above = .directory)
    (hdestination : t.nodeAt (above ++ [name]) = .directory) :
    t.wayTo working (p.join ⟨name⟩) =
      ⟨(t.wayTo working p).stops ++ [above ++ [name]], some (above ++ [name])⟩ :=
  wayTo_join h.isName h.goal habove fun _ hlink => by
    rw [hdestination] at hlink
    cases hlink

/-- Making directories on the way to a destination that was cleared makes nothing below it. -/
theorem ClearDestination.made_below (h : ClearDestination c working p above name)
    (hc : Cleared t c (above ++ [name]))
    (hq : Path.Follows p [name] q) (hb : Made (c.wayTo working q).stops c b) {below : Location}
    {n : Node} (hn : b.node? (above ++ [name] ++ below) = some n) :
    below = [] ∧ n = .directory := by
  cases hnode : c.node? (above ++ [name] ++ below) with
  | some n' =>
    rw [hb.same _ _ hnode] at hn
    rcases hc.below _ (List.prefix_append _ below) with hnone | ⟨heq, hdirectory⟩
    · rw [hnone] at hnode
      cases hnode
    · rw [hdirectory] at hnode
      exact ⟨List.append_right_eq_self.1 heq, by rw [← Option.some.inj hn, Option.some.inj hnode]⟩
  | none =>
    obtain ⟨hmem, hdirectory, -⟩ := hb.new _ hnode (by rw [hn]; simp)
    refine ⟨?_, Option.some.inj (hn.symm.trans hdirectory)⟩
    -- something was made below the directory, so that is one
    have habove : c.nodeAt above = .directory := by
      rw [← hb.nodeAt]
      refine nodeAt_of_node? (node?_of_node?_append (b := [name] ++ below) (by simp) ?_)
      rw [← List.append_assoc, hn]
      simp
    rw [wayTo_of_follows_join c working h.isName hq, h.way habove hc.nodeAt] at hmem
    rcases List.mem_append.1 hmem with hmem | hmem
    · exact List.append_right_eq_self.1 (h.clear _ hmem (List.prefix_append _ _)).1
    · exact List.append_right_eq_self.1 (List.mem_singleton.1 hmem)

/-- **After its directories were made, everything on the way to the destination is there**, and
nothing is below the destination. -/
theorem ClearDestination.ready [Disk] (h : ClearDestination c working p above name)
    (hc : Cleared t c (above ++ [name]))
    (hq : Path.Follows p [name] q) (hok : makeDirectories working q c = .ok () b) :
    Ready b working p above name ∧ b.node? (above ++ [name]) = some .directory ∧
      ∀ below, below ≠ [] → b.node? (above ++ [name] ++ below) = none := by
  have hfreeStart := h.freeStart_of_follows hq
  have hmade := makeDirectories_made hfreeStart
  rw [Action.after_of_ok hok] at hmade
  have happroach := h.made hmade
  have hreached := makeDirectories_reached hfreeStart hq.isEmpty_eq_false hok
  have hstart := makeDirectories_start hfreeStart hq.isEmpty_eq_false hok
  rw [start_of_follows hq] at hstart
  have hdestinationAt : b.nodeAt (above ++ [name]) = .directory := (hmade.nodeAt _).trans hc.nodeAt
  have haboveAt : b.nodeAt above = .directory := by
    obtain ⟨z, hz, -⟩ := hreached.goal
    exact nodeAt_of_further hstart hq (List.cons_ne_nil name []) happroach.goal (by rw [hz]; simp)
  have hway := (wayTo_of_follows_join b working h.isName hq).trans
    (happroach.way haboveAt hdestinationAt)
  have hthere : b.node? (above ++ [name]) ≠ none :=
    hreached.stops _ (by rw [hway]; exact List.mem_append_right _ List.mem_cons_self)
  have hdestination : b.node? (above ++ [name]) = some .directory := by
    obtain ⟨n, hn⟩ := Option.ne_none_iff_exists'.1 hthere
    rw [← List.append_nil (above ++ [name])] at hn ⊢
    rw [hn, (h.made_below hc hq hmade hn).2]
  refine ⟨⟨happroach, node?_of_node?_append (List.cons_ne_nil name []) hthere,
    fun y hy => hreached.stops y ?_⟩, hdestination, fun below hbelow => ?_⟩
  · rw [hway]
    exact List.mem_append_left _ hy
  · cases hn : b.node? (above ++ [name] ++ below) with
    | none => rfl
    | some n => exact absurd (h.made_below hc hq hmade hn).1 hbelow

/-- Before anything was copied, only the destination itself is there. -/
theorem Inside.of_empty {allowed : Location → Node → Prop} (hallowed : allowed [] .directory)
    (hdestination : b.node? destination = some .directory)
    (hbelow : ∀ below, below ≠ [] → b.node? (destination ++ below) = none) :
    Inside b destination allowed b := by
  refine ⟨fun _ _ => rfl, fun below n hn => ?_, fun below last hlast => ?_⟩
  · by_cases hnil : below = []
    · subst hnil
      rw [List.append_nil, hdestination] at hn
      exact Option.some.inj hn ▸ hallowed
    · rw [hbelow below hnil] at hn
      cases hn
  · rw [List.append_assoc] at hlast
    exact absurd (hbelow _ (by simp)) hlast

/-! ## The source -/

theorem Apart.cleared (h : Apart t working source destination x) (hc : Cleared t c destination) :
    Apart c working source destination x := by
  have hway := hc.wayTo h.clear
  refine ⟨hway ▸ h.goal, h.notAbove, h.notBelow,
    fun y hy => (h.clear y (hway ▸ hy)).of_directory fun _ => hc.nodeAt,
    fun below target hlink => ?_, hc.origin h.origin, h.outside⟩
  rw [hc.elsewhere _ (h.not_below below)] at hlink
  obtain ⟨hstops, hgoal⟩ := h.links below target hlink
  rw [hc.wayTo hstops]
  exact ⟨fun y hy => (hstops y hy).of_directory fun _ => hc.nodeAt, hgoal⟩

/-- **The image of the source does not depend on what is at the destination.** -/
theorem Apart.image_eq (h : Apart t working source destination x)
    (hc : ∀ y, ¬ destination <+: y → c.node? y = t.node? y)
    (hdestination : t.nodeAt destination = .directory → c.nodeAt destination = .directory)
    (below : Location) : c.image working source x below = t.image working source x below := by
  rw [image, image, hc _ (h.not_below below)]
  split
  · next target hlink =>
    obtain ⟨hstops, hgoal⟩ := h.links below target hlink
    rw [wayTo_of_clear hstops hc hdestination]
    cases hz : (t.wayTo working (source.within below)).goal with
    | none => rfl
    | some z => simp only [Option.bind_some, hc z (hgoal z hz)]
  · rfl

/-- Making directories outside of the source changes nothing in it. -/
theorem Made.node?_source (hb : Made stops c b)
    (hunmade : ∀ y ∈ stops, x <+: y → c.node? y ≠ none) (below : Location) :
    b.node? (x ++ below) = c.node? (x ++ below) := by
  cases hnode : c.node? (x ++ below) with
  | some n => exact hb.same _ n hnode
  | none =>
    by_cases hnone : b.node? (x ++ below) = none
    · exact hnone
    · exact absurd hnode (hunmade _ (hb.new _ hnode hnone).1 (List.prefix_append _ _))

theorem Apart.made (h : Apart c working source destination x) (hb : Made stops c b)
    (hroot : c.node? [] = some .directory) (hunmade : ∀ y ∈ stops, x <+: y → c.node? y ≠ none) :
    Apart b working source destination x := by
  have hway := hb.wayTo working source
  have hdirectory : c.nodeAt destination = .directory → b.nodeAt destination = .directory :=
    fun hd => (hb.nodeAt _).trans hd
  refine ⟨hway ▸ h.goal, h.notAbove, h.notBelow,
    fun y hy => (h.clear y (hway ▸ hy)).of_directory hdirectory, fun below target hlink => ?_,
    (hb.freeStart ⟨hroot, h.origin⟩).start, h.outside⟩
  rw [hb.node?_source hunmade] at hlink
  obtain ⟨hstops, hgoal⟩ := h.links below target hlink
  rw [hb.wayTo]
  exact ⟨fun y hy => (hstops y hy).of_directory hdirectory, hgoal⟩

theorem Made.image (hb : Made stops c b)
    (hunmade : ∀ y ∈ stops, x <+: y → c.node? y ≠ none) (below : Location) :
    b.image working source x below = c.image working source x below := by
  rw [FileTree.image, FileTree.image, hb.node?_source hunmade, hb.wayTo]
  split
  · cases (c.wayTo working (source.within below)).goal with
    | none => rfl
    | some z =>
      rw [Option.bind_some, Option.bind_some]
      cases hz : c.node? z with
      | some n => rw [hb.same z n hz]
      | none =>
        cases hz' : b.node? z with
        | none => rfl
        | some n =>
          have := (hb.new z hz (by rw [hz']; simp)).2.1
          rw [hz'] at this
          rw [Option.some.inj this]
  · rfl

end Approach

end FileTree
end KernelRegistry
