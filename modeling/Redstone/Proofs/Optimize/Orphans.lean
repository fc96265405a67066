import Redstone.Proofs.Circuit.Cascade
import Redstone.Proofs.Circuit.Sessions
import Redstone.Proofs.Optimize.Steps

/-!
# What is left when orphans are removed

Removing orphans is a local rule, applied until it applies no more: a node goes if it has no outputs
and no role.  What it leaves has a description without any order of steps.  A node stays if signals
from it get to a node with a role, or into a loop.  A removed node has no outputs, so that no such
signal ever passes through it; and from a node that stays without an anchor one could go on forever,
which a finite circuit allows in a loop only.
-/

namespace Redstone

namespace Circuit

/-- The node is an input or an output of the circuit. -/
def HasRole (g : Circuit) (id : NodeId) : Prop :=
  ∃ n, g.node? id = some n ∧ (n.isInput = true ∨ n.isOutput = true)

/-- Along links one gets from the node to one with a role or to one that feeds itself, directly or
through others. -/
def Anchored (g : Circuit) (id : NodeId) : Prop :=
  ∃ anchor, Relation.ReflTransGen g.Feeds id anchor ∧
    (g.HasRole anchor ∨ Relation.TransGen g.Feeds anchor anchor)

variable {g g' : Circuit} {id : NodeId}

theorem HasRole.of_isRemovable {n : Node} (hn : g.node? id = some n)
    (h : n.isRemovable = false) : g.HasRole id := by
  refine ⟨n, hn, ?_⟩
  unfold Node.isRemovable at h
  cases hin : n.isInput <;> simp_all

theorem HasRole.isRemovable (h : g.HasRole id) {n : Node} (hn : g.node? id = some n) :
    n.isRemovable = false := by
  obtain ⟨m, hm, hrole⟩ := h
  cases hn.symm.trans hm
  unfold Node.isRemovable
  rcases hrole with hrole | hrole <;> simp [hrole]

theorem WellFormed.contains_of_feeds (h : g.WellFormed) {source target : NodeId}
    (hfeeds : g.Feeds source target) : g.contains source = true ∧ g.contains target = true := by
  obtain ⟨i, l, hl, rfl, rfl⟩ := hfeeds
  exact ⟨h.contains_source hl, h.contains_target hl⟩

namespace Anchored

/-- What feeds an anchored node is anchored. -/
theorem of_feeds {target : NodeId} (h : g.Anchored target) (hfeeds : g.Feeds id target) :
    g.Anchored id := by
  obtain ⟨anchor, hpath, hanchor⟩ := h
  exact ⟨anchor, .head hfeeds hpath, hanchor⟩

theorem contains (h : g.Anchored id) (hwf : g.WellFormed) : g.contains id = true := by
  obtain ⟨anchor, hpath, hanchor⟩ := h
  rcases Relation.ReflTransGen.cases_head hpath with rfl | ⟨next, hfeeds, -⟩
  case inr => exact (hwf.contains_of_feeds hfeeds).1
  rcases hanchor with ⟨n, hn, -⟩ | hloop
  · exact contains_of_node? hn
  · obtain ⟨next, hfeeds, -⟩ := Relation.TransGen.head'_iff.mp hloop
    exact (hwf.contains_of_feeds hfeeds).1

/-- Anchors stay anchors when links and roles are added. -/
theorem mono (h : g.Anchored id) (hfeeds : ∀ {a b}, g.Feeds a b → g'.Feeds a b)
    (hrole : ∀ {a}, g.HasRole a → g'.HasRole a) : g'.Anchored id := by
  obtain ⟨anchor, hpath, hanchor⟩ := h
  refine ⟨anchor, Relation.ReflTransGen.mono (fun _ _ => hfeeds) _ _ hpath, ?_⟩
  exact hanchor.imp hrole (Relation.TransGen.mono (fun _ _ => hfeeds) _ _)

end Anchored

/-! ## Removing a node that feeds nothing -/

section RemoveNode

variable {orphan : NodeId}

theorem WellFormed.feeds_removeNode_iff (h : g.WellFormed)
    (hnone : ∀ target, ¬g.Feeds orphan target) {source target : NodeId} :
    (g.removeNode orphan).Feeds source target ↔ g.Feeds source target ∧ target ≠ orphan := by
  constructor
  · rintro ⟨i, l, hl, rfl, rfl⟩
    obtain ⟨hold, -, htarget⟩ := h.link?_removeNode_eq_some_iff.mp hl
    exact ⟨⟨i, l, hold, rfl, rfl⟩, htarget⟩
  · rintro ⟨⟨i, l, hl, rfl, rfl⟩, htarget⟩
    refine ⟨i, l, h.link?_removeNode_eq_some_iff.mpr ⟨hl, ?_, htarget⟩, rfl, rfl⟩
    intro hsource
    exact hnone l.target ⟨i, l, hl, hsource, rfl⟩

/-- A path that does not end at the orphan does not pass through it. -/
theorem WellFormed.path_removeNode (h : g.WellFormed)
    (hnone : ∀ target, ¬g.Feeds orphan target) {source target : NodeId}
    (hpath : Relation.ReflTransGen g.Feeds source target) (hne : target ≠ orphan) :
    Relation.ReflTransGen (g.removeNode orphan).Feeds source target := by
  induction hpath with
  | refl => exact .refl
  | tail _ hfeeds ih =>
      -- the node before the end feeds it, so it is not the orphan either
      refine .tail (ih ?_) ((h.feeds_removeNode_iff hnone).mpr ⟨hfeeds, hne⟩)
      rintro rfl
      exact hnone _ hfeeds

theorem WellFormed.anchored_removeNode_iff (h : g.WellFormed)
    (hrole : ¬g.HasRole orphan) (hnone : ∀ target, ¬g.Feeds orphan target) :
    (g.removeNode orphan).Anchored id ↔ g.Anchored id := by
  constructor
  · intro hanchored
    refine hanchored.mono (fun hfeeds => ((h.feeds_removeNode_iff hnone).mp hfeeds).1) ?_
    rintro a ⟨n, hn, hflags⟩
    exact ⟨n, (node?_removeNode_eq_some_iff.mp hn).2, hflags⟩
  · rintro ⟨anchor, hpath, ⟨n, hn, hflags⟩ | hloop⟩
    · have hne : anchor ≠ orphan := by
        rintro rfl
        exact hrole ⟨n, hn, hflags⟩
      exact ⟨anchor, h.path_removeNode hnone hpath hne,
        .inl ⟨n, node?_removeNode_eq_some_iff.mpr ⟨hne.symm, hn⟩, hflags⟩⟩
    · obtain ⟨next, hfeeds, -⟩ := Relation.TransGen.head'_iff.mp hloop
      have hne : anchor ≠ orphan := by
        rintro rfl
        exact hnone next hfeeds
      refine ⟨anchor, h.path_removeNode hnone hpath hne, .inr ?_⟩
      -- a loop through the orphan would leave it again
      obtain ⟨last, hto, hfeeds'⟩ := Relation.TransGen.tail'_iff.mp hloop
      refine Relation.TransGen.tail' (h.path_removeNode hnone hto ?_)
        ((h.feeds_removeNode_iff hnone).mpr ⟨hfeeds', hne⟩)
      rintro rfl
      exact hnone anchor hfeeds'

/-- The inputs of other nodes do not change. -/
theorem WellFormed.inputs_removeNode (h : g.WellFormed)
    (hnone : ∀ target, ¬g.Feeds orphan target) (hne : id ≠ orphan) :
    (g.removeNode orphan).inputs id = g.inputs id := by
  cases hc : g.contains orphan with
  | false => rw [removeNode_of_not_contains hc]
  | true =>
      rw [inputs_removeNode_of_contains hc, if_neg hne.symm, Circuit.isolate,
        ((h.removeLinks _).lists_removeLinks _ id).1, (h.lists_removeLinks _ id).1,
        List.filter_filter]
      refine List.filter_eq_self.mpr fun i hi => ?_
      obtain ⟨l, hl, htarget⟩ := h.mem_inputs_iff.mp hi
      have hout : i ∉ g.outputs orphan := by
        intro hmem
        obtain ⟨m, hm, hsource⟩ := h.mem_outputs_iff.mp hmem
        exact hnone m.target ⟨i, m, hm, hsource, rfl⟩
      have hin : i ∉ g.inputs orphan := fun hmem =>
        hne (htarget.symm.trans (h.target_eq hl hmem))
      simp [hout, hin]

end RemoveNode

/-! ## Without orphans every node is anchored -/

open Classical in
/-- The nodes that a node feeds, directly or through others. -/
noncomputable def downstream (g : Circuit) (id : NodeId) : Finset NodeId :=
  g.nodeIds.toFinset.filter fun target => Relation.TransGen g.Feeds id target

theorem mem_downstream {target : NodeId} : target ∈ g.downstream id ↔
    g.contains target = true ∧ Relation.TransGen g.Feeds id target := by
  classical
  rw [downstream, Finset.mem_filter, List.mem_toFinset, mem_nodeIds]

/-- Fewer nodes are downstream of the end of a link than of its start, if the end is in no loop. -/
theorem WellFormed.card_downstream_lt (h : g.WellFormed) {source target : NodeId}
    (hfeeds : g.Feeds source target) (hloop : ¬Relation.TransGen g.Feeds target target) :
    (g.downstream target).card < (g.downstream source).card := by
  apply Finset.card_lt_card
  rw [Finset.ssubset_iff_of_subset]
  · refine ⟨target, ?_, fun hmem => hloop (mem_downstream.mp hmem).2⟩
    exact mem_downstream.mpr ⟨(h.contains_of_feeds hfeeds).2, .single hfeeds⟩
  · intro next hmem
    obtain ⟨hnext, hpath⟩ := mem_downstream.mp hmem
    exact mem_downstream.mpr ⟨hnext, .head hfeeds hpath⟩

/-- If every node has a role or an output, all nodes are anchored.  The induction is on the number
of nodes downstream. -/
theorem WellFormed.anchored_of_contains (h : g.WellFormed)
    (hgoes : ∀ {id}, g.contains id = true → g.HasRole id ∨ ∃ target, g.Feeds id target)
    (hc : g.contains id = true) : g.Anchored id := by
  have hbound (bound : Nat) (id : NodeId) (hcard : (g.downstream id).card < bound)
      (hc : g.contains id = true) : g.Anchored id := by
    induction bound generalizing id with
    | zero => omega
    | succ bound ih =>
        rcases hgoes hc with hrole | ⟨target, hfeeds⟩
        · exact ⟨id, .refl, .inl hrole⟩
        by_cases hloop : Relation.TransGen g.Feeds target target
        · exact ⟨target, .single hfeeds, .inr hloop⟩
        · have hless := h.card_downstream_lt hfeeds hloop
          exact (ih target (by omega) (h.contains_of_feeds hfeeds).2).of_feeds hfeeds
  exact hbound ((g.downstream id).card + 1) id (Nat.lt_succ_self _) hc

end Circuit

namespace Optimize

open Circuit

variable {g g' : Circuit} {id : NodeId}

/-! ## Steps of the removal -/

theorem circuit_pruneNode_of_changes (id : NodeId) (g : Circuit)
    (h : (pruneNode id g).changes = 0) : (pruneNode id g).circuit = g := by
  rcases pruneNode_cases id g with ⟨heq, -⟩ | ⟨heq, -⟩
  · rw [heq]
    rfl
  · rw [heq] at h
    cases h

/-- Every orphan is paid for with a node. -/
theorem changes_pruneNode_add (id : NodeId) (g : Circuit) :
    (pruneNode id g).changes + (pruneNode id g).circuit.nodeIds.length = g.nodeIds.length := by
  rcases pruneNode_cases id g with ⟨heq, -⟩ | ⟨heq, hc, -⟩
  · rw [heq]
    exact Nat.zero_add _
  · rw [heq]
    show 1 + (g.removeNode id).nodeIds.length = _
    rw [nodeIds_removeNode, Nat.add_comm, List.length_erase_add_one (mem_nodeIds.mpr hc)]

theorem changes_pruneSweep_add (g : Circuit) :
    (pruneSweep g).changes + (pruneSweep g).circuit.nodeIds.length = g.nodeIds.length :=
  Revision.sweep_changes_add (m := fun g => g.nodeIds.length) changes_pruneNode_add _ g

theorem circuit_pruneSweep_of_changes (g : Circuit) (h : (pruneSweep g).changes = 0) :
    (pruneSweep g).circuit = g :=
  (Revision.sweep_changes_eq_zero circuit_pruneNode_of_changes h).1

theorem loops_pruneOrphans (g : Circuit) : Revision.Loops pruneSweep g (pruneOrphans g) :=
  Revision.loops_untilStable (m := fun g => g.nodeIds.length)
    (fun g => Nat.le_of_eq (changes_pruneSweep_add g)) (Nat.lt_succ_of_le g.length_nodeIds_le)

theorem changes_pruneSweep_pruneOrphans (g : Circuit) :
    (pruneSweep (pruneOrphans g).circuit).changes = 0 :=
  (loops_pruneOrphans g).changes_eq_zero circuit_pruneSweep_of_changes

theorem not_isOrphan_pruneOrphans (g : Circuit) {id : NodeId}
    (hc : (pruneOrphans g).circuit.contains id = true) :
    isOrphan (pruneOrphans g).circuit id = false := by
  have hzero := (Revision.sweep_changes_eq_zero circuit_pruneNode_of_changes
    (changes_pruneSweep_pruneOrphans g)).2 id (List.mem_reverse.mpr (mem_nodeIds.mpr hc))
  rcases pruneNode_cases id (pruneOrphans g).circuit with ⟨-, hnot⟩ | ⟨heq, -⟩
  · exact hnot
  · rw [heq] at hzero
    cases hzero

/-! ## What stays -/

/-- Nodes of `g` that are not anchored may be gone from `g'`, and all else is as it was.  A link is
gone only together with its target. -/
structure Trimmed (g g' : Circuit) : Prop where
  wellFormed : g'.WellFormed
  node : ∀ {id n}, g'.node? id = some n → g.node? id = some n
  inputs : ∀ {id}, g'.contains id = true → g'.inputs id = g.inputs id
  link : ∀ {i l}, g'.link? i = some l ↔ g.link? i = some l ∧ g'.contains l.target = true
  anchored : ∀ {id}, g'.Anchored id ↔ g.Anchored id

namespace Trimmed

theorem contains (h : Trimmed g g') (hc : g'.contains id = true) : g.contains id = true := by
  obtain ⟨n, hn⟩ := contains_iff.mp hc
  exact contains_of_node? (h.node hn)

theorem refl (h : g.WellFormed) : Trimmed g g where
  wellFormed := h
  node := fun hn => hn
  inputs := fun _ => rfl
  link := ⟨fun hl => ⟨hl, h.contains_target hl⟩, fun hl => hl.1⟩
  anchored := Iff.rfl

theorem trans {g₁ g₂ g₃ : Circuit} (h : Trimmed g₁ g₂) (h' : Trimmed g₂ g₃) : Trimmed g₁ g₃ where
  wellFormed := h'.wellFormed
  node := fun hn => h.node (h'.node hn)
  inputs := fun hc => (h'.inputs hc).trans (h.inputs (h'.contains hc))
  link := by
    intro i l
    rw [h'.link, h.link]
    constructor
    · rintro ⟨⟨hl, -⟩, hc⟩
      exact ⟨hl, hc⟩
    · rintro ⟨hl, hc⟩
      exact ⟨⟨hl, h'.contains hc⟩, hc⟩
  anchored := h'.anchored.trans h.anchored

/-- Removing an orphan trims the circuit. -/
theorem removeNode (h : g.WellFormed) (horphan : isOrphan g id = true) :
    Trimmed g (g.removeNode id) := by
  obtain ⟨n, hn, hremovable, hempty⟩ := isOrphan_iff.mp horphan
  have hnone (target : NodeId) : ¬g.Feeds id target := by
    rintro ⟨i, l, hl, hsource, -⟩
    exact h.source_ne hempty hl hsource
  have hrole : ¬g.HasRole id := by
    intro hrole
    simp [hrole.isRemovable hn] at hremovable
  exact {
    wellFormed := h.removeNode id
    node := fun hm => (node?_removeNode_eq_some_iff.mp hm).2
    inputs := by
      intro j hc
      rw [contains_removeNode, Bool.and_eq_true, decide_eq_true_eq] at hc
      exact h.inputs_removeNode hnone hc.2.symm
    link := by
      intro i l
      rw [h.link?_removeNode_eq_some_iff, contains_removeNode, Bool.and_eq_true,
        decide_eq_true_eq]
      constructor
      · rintro ⟨hl, -, htarget⟩
        exact ⟨hl, h.contains_target hl, htarget.symm⟩
      · rintro ⟨hl, -, htarget⟩
        exact ⟨hl, fun hsource => hnone l.target ⟨i, l, hl, hsource, rfl⟩, htarget.symm⟩
    anchored := h.anchored_removeNode_iff hrole hnone }

theorem pruneNode (h : Trimmed g g') (id : NodeId) : Trimmed g (pruneNode id g').circuit := by
  rcases pruneNode_cases id g' with ⟨heq, -⟩ | ⟨heq, -, horphan⟩
  · rw [heq]
    exact h
  · rw [heq]
    exact h.trans (removeNode h.wellFormed horphan)

/-- The power at the nodes that stay is the same. -/
theorem powerUnder_eq (htrimmed : Trimmed g g') (h : g.WellFormed) (hc : g'.contains id = true)
    (σ : NodeId → UInt8) : g'.powerUnder σ id = g.powerUnder σ id := by
  apply powerUnder_congr htrimmed.wellFormed h
  intro side s _
  constructor
  · rintro ⟨i, l, hl, hrest⟩
    exact ⟨i, l, (htrimmed.link.mp hl).1, hrest⟩
  · rintro ⟨i, l, hl, rfl, hrest⟩
    exact ⟨i, l, htrimmed.link.mpr ⟨hl, hc⟩, rfl, hrest⟩

theorem inputPower_eq (htrimmed : Trimmed g g') (h : g.WellFormed) (hc : g'.contains id = true) :
    g'.inputPower id = g.inputPower id := by
  refine Eq.trans (powerUnder_congr_strength htrimmed.wellFormed fun i l hl _ => ?_)
    (htrimmed.powerUnder_eq h hc g.strength)
  -- the source of a link that stays has stayed, too
  obtain ⟨n, hn⟩ := contains_iff.mp (htrimmed.wellFormed.contains_source hl)
  simp [Circuit.strength, hn, htrimmed.node hn]

/-- The nodes that stay and those that are gone make up the circuit. -/
theorem length_nodeIds (h : Trimmed g g') :
    (g.nodeIds.filter fun id => !g'.contains id).length + g'.nodeIds.length = g.nodeIds.length := by
  have hstay : (g.nodeIds.filter fun id => g'.contains id).Perm g'.nodeIds := by
    refine (List.perm_ext_iff_of_nodup (g.nodeIds_nodup.filter _) g'.nodeIds_nodup).mpr fun id => ?_
    rw [List.mem_filter, mem_nodeIds, mem_nodeIds]
    exact ⟨fun hid => hid.2, fun hc => ⟨h.contains hc, hc⟩⟩
  rw [← hstay.length_eq, Nat.add_comm]
  exact (List.length_eq_length_filter_add _).symm

end Trimmed

theorem trimmed_pruneOrphans (h : g.WellFormed) : Trimmed g (pruneOrphans g).circuit := by
  refine (loops_pruneOrphans g).keeps (P := Trimmed g) (fun g' hg' => ?_) (.refl h)
  exact Revision.sweep_keeps (P := Trimmed g) (fun id _ _ hg => hg.pruneNode id) hg'

theorem contains_pruneOrphans_iff (h : g.WellFormed) :
    (pruneOrphans g).circuit.contains id = true ↔ g.Anchored id := by
  have htrimmed := trimmed_pruneOrphans h
  rw [← htrimmed.anchored]
  constructor
  · refine htrimmed.wellFormed.anchored_of_contains fun {j} hc => ?_
    obtain ⟨n, hn⟩ := contains_iff.mp hc
    have hnot := not_isOrphan_pruneOrphans g hc
    rw [isOrphan, hn, Option.any_some, Bool.and_eq_false_iff] at hnot
    rcases hnot with hrole | houtputs
    · exact .inl (.of_isRemovable hn hrole)
    · obtain ⟨i, hi⟩ := List.exists_mem_of_ne_nil _ (List.isEmpty_eq_false_iff.mp houtputs)
      obtain ⟨l, hl, hsource⟩ := htrimmed.wellFormed.mem_outputs_iff.mp hi
      exact .inr ⟨l.target, i, l, hl, hsource, rfl⟩
  · intro hanchored
    exact hanchored.contains htrimmed.wellFormed

/-- The removal of orphans removes the dead logic without loops, and nothing else.  It comes to an
end; a node stays just if along links one gets from it to a node with a role or into a loop; what
stays keeps its node, its links and its power, as no node that is gone had a link to it; the changes
count the nodes that are gone; and a second call has nothing to do. -/
theorem pruneOrphans_is_exact (g : Circuit) (h : g.WellFormed) :
    Revision.Loops pruneSweep g (pruneOrphans g) ∧
    (∀ id, (pruneOrphans g).circuit.contains id = true ↔
      ∃ anchor, Relation.ReflTransGen g.Feeds id anchor ∧
        (g.HasRole anchor ∨ Relation.TransGen g.Feeds anchor anchor)) ∧
    (∀ id, (pruneOrphans g).circuit.contains id = true →
      (pruneOrphans g).circuit.node? id = g.node? id ∧
      (pruneOrphans g).circuit.inputs id = g.inputs id ∧
      (pruneOrphans g).circuit.inputPower id = g.inputPower id ∧
      ∀ σ, (pruneOrphans g).circuit.powerUnder σ id = g.powerUnder σ id) ∧
    (∀ i l, (pruneOrphans g).circuit.link? i = some l ↔
      g.link? i = some l ∧ (pruneOrphans g).circuit.contains l.target = true) ∧
    (∀ i l, g.link? i = some l → (pruneOrphans g).circuit.contains l.target = true →
      (pruneOrphans g).circuit.contains l.source = true) ∧
    (pruneOrphans g).changes =
      (g.nodeIds.filter fun id => !(pruneOrphans g).circuit.contains id).length ∧
    pruneOrphans (pruneOrphans g).circuit = .unchanged (pruneOrphans g).circuit := by
  have htrimmed := trimmed_pruneOrphans h
  have hzero := changes_pruneSweep_pruneOrphans g
  refine ⟨loops_pruneOrphans g, fun id => contains_pruneOrphans_iff h, fun id hc => ?_,
    fun i l => htrimmed.link, fun i l hl hc => ?_, ?_, ?_⟩
  · obtain ⟨n, hn⟩ := contains_iff.mp hc
    exact ⟨hn.trans (htrimmed.node hn).symm, htrimmed.inputs hc, htrimmed.inputPower_eq h hc,
      htrimmed.powerUnder_eq h hc⟩
  · exact htrimmed.wellFormed.contains_source (htrimmed.link.mpr ⟨hl, hc⟩)
  · have hpaid := (loops_pruneOrphans g).changes_add (m := fun g => g.nodeIds.length)
      changes_pruneSweep_add
    have hcount := htrimmed.length_nodeIds
    omega
  · exact Revision.untilStable_of_changes_eq_zero hzero (circuit_pruneSweep_of_changes _ hzero) _

/-- Two torches that keep each other going, a repeater into their loop and one out of it, and two
more repeaters in a row behind a lever that leads to a lamp as well. -/
def strayLoop : Circuit :=
  let nodes := Circuit.empty.addNodes
    [ { gate := .plain .lever, isInput := true }, { gate := .plain .lamp, isOutput := true }
    , { gate := .plain .torch }, { gate := .plain .torch }, { gate := .repeater 1 false }
    , { gate := .repeater 1 false }, { gate := .repeater 2 false }, { gate := .repeater 2 false } ]
  ((((((nodes.addLink { source := 0, target := 1, channel := .main, loss := 0 }).addLink
    { source := 2, target := 3, channel := .main, loss := 0 }).addLink
    { source := 3, target := 2, channel := .main, loss := 0 }).addLink
    { source := 4, target := 2, channel := .main, loss := 1 }).addLink
    { source := 3, target := 5, channel := .main, loss := 1 }).addLink
    { source := 0, target := 6, channel := .main, loss := 0 }).addLink
    { source := 6, target := 7, channel := .main, loss := 0 }

/-- The repeater into the loop stays, although nobody sees the loop; the one out of it goes. -/
theorem pruneOrphans_is_exact_strayLoop :
    (pruneOrphans strayLoop).circuit.nodeIds = [0, 1, 2, 3, 4] ∧
      (pruneOrphans strayLoop).changes = 3 ∧
      (∃ anchor, Relation.ReflTransGen strayLoop.Feeds 4 anchor ∧
        (strayLoop.HasRole anchor ∨ Relation.TransGen strayLoop.Feeds anchor anchor)) ∧
      ¬∃ anchor, Relation.ReflTransGen strayLoop.Feeds 5 anchor ∧
        (strayLoop.HasRole anchor ∨ Relation.TransGen strayLoop.Feeds anchor anchor) := by
  have hwf : strayLoop.WellFormed :=
    (((((((WellFormed.empty.addNodes _).addLink _).addLink _).addLink _).addLink _).addLink
      _).addLink _).addLink _
  obtain ⟨-, hstays, -⟩ := pruneOrphans_is_exact strayLoop hwf
  exact ⟨by decide, by decide, (hstays 4).mp (by decide),
    fun hanchor => absurd ((hstays 5).mpr hanchor) (by decide)⟩

end Optimize

end Redstone
