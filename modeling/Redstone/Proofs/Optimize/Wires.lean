import Redstone.Proofs.Optimize.Distinct
import Redstone.Proofs.Optimize.Exhaustion
import Redstone.Proofs.Optimize.Orphans
import Redstone.Proofs.Optimize.Quotient

/-!
# Wires are orphans

A wire feeds nothing: the signals that pass it have been traced back to where they come from.  No
revision lets a link start at a wire, so that a wire stays without outputs, and as it has no role
either, the removal of orphans removes it.
-/

namespace Redstone

namespace Optimize

open Circuit

variable {g g' : Circuit}

/-- No wire stands under the name. -/
def NoWireAt (g : Circuit) (id : NodeId) : Prop :=
  ∀ n, g.node? id = some n → n.gate.type ≠ .wire

/-- Wires have no outputs and no role. -/
structure LooseWires (g : Circuit) : Prop where
  wellFormed : g.WellFormed
  removable : ∀ {id n}, g.node? id = some n → n.gate.type = .wire → n.isRemovable = true
  noWire_source : ∀ {i l}, g.link? i = some l → NoWireAt g l.source

namespace LooseWires

/-- Wires stay loose if no node becomes a wire or gets a role as one, and every link starts where
one started before or where no wire is. -/
theorem edit (h : LooseWires g) (hwf : g'.WellFormed)
    (hnode : ∀ {id n'}, g'.node? id = some n' → n'.gate.type = .wire →
      ∃ n, g.node? id = some n ∧ n.gate.type = .wire ∧ n'.isRemovable = n.isRemovable)
    (hlink : ∀ {i l'}, g'.link? i = some l' →
      (∃ j l, g.link? j = some l ∧ l.source = l'.source) ∨ NoWireAt g' l'.source) :
    LooseWires g' where
  wellFormed := hwf
  removable := by
    intro id n' hn' htype'
    obtain ⟨n, hn, htype, hrole⟩ := hnode hn' htype'
    exact hrole.trans (h.removable hn htype)
  noWire_source := by
    intro i l' hl' n' hn' htype'
    rcases hlink hl' with ⟨j, l, hl, hsource⟩ | hfree
    · obtain ⟨n, hn, htype, -⟩ := hnode hn' htype'
      exact h.noWire_source hl n (hsource ▸ hn) htype
    · exact hfree n' hn' htype'

theorem of_links (h : LooseWires g) (hwf : g'.WellFormed) (hnode : ∀ id, g'.node? id = g.node? id)
    (hlink : ∀ {i l'}, g'.link? i = some l' → ∃ j l, g.link? j = some l ∧ l.source = l'.source) :
    LooseWires g' :=
  h.edit hwf (fun hn' htype => ⟨_, (hnode _).symm.trans hn', htype, rfl⟩) fun hl' => .inl (hlink hl')

theorem removeLinks (h : LooseWires g) (ids : List LinkId) : LooseWires (g.removeLinks ids) := by
  refine h.of_links (h.wellFormed.removeLinks ids) (node?_removeLinks ids) fun {i l'} hl' => ?_
  rw [link?_removeLinks] at hl'
  split at hl'
  · cases hl'
  · exact ⟨i, l', hl', rfl⟩

theorem removeNode (h : LooseWires g) (id : NodeId) : LooseWires (g.removeNode id) := by
  refine h.edit (h.wellFormed.removeNode id) (fun {j n'} hn' htype => ?_) fun {i l'} hl' => ?_
  · exact ⟨n', (node?_removeNode_eq_some_iff.mp hn').2, htype, rfl⟩
  · exact .inl ⟨i, l', (h.wellFormed.link?_removeNode_eq_some_iff.mp hl').1, rfl⟩

theorem modifyNode (h : LooseWires g) (id : NodeId) {f : Node → Node}
    (htype : ∀ n, (f n).gate.type = .wire → n.gate.type = .wire)
    (hrole : ∀ n, (f n).isRemovable = n.isRemovable) : LooseWires (g.modifyNode id f) := by
  refine h.edit (h.wellFormed.modifyNode id f) (fun {j n'} hn' hwire => ?_)
    fun {i l'} hl' => .inl ⟨i, l', hl', rfl⟩
  rw [node?_modifyNode] at hn'
  split at hn'
  · obtain ⟨n, hn, rfl⟩ := Option.map_eq_some_iff.mp hn'
    exact ⟨n, hn, htype n hwire, hrole n⟩
  · exact ⟨n', hn', hwire, rfl⟩

theorem addNode (h : LooseWires g) {n : Node} (htype : n.gate.type ≠ .wire) :
    LooseWires (g.addNode n) := by
  refine h.edit (h.wellFormed.addNode n) (fun {j n'} hn' hwire => ?_)
    fun {i l'} hl' => .inl ⟨i, l', hl', rfl⟩
  rw [node?_addNode] at hn'
  split at hn'
  · cases hn'
    exact absurd hwire htype
  · exact ⟨n', hn', hwire, rfl⟩

theorem addLink (h : LooseWires g) {l : Link} (hsource : NoWireAt g l.source) :
    LooseWires (g.addLink l) := by
  refine h.edit (h.wellFormed.addLink l)
    (fun {j n'} hn' hwire => ⟨n', (node?_addLink l j).symm.trans hn', hwire, rfl⟩)
    fun {i l'} hl' => ?_
  rcases eq_or_link?_of_addLink hl' with rfl | hl'
  · refine .inr fun n hn => hsource n ?_
    rw [← node?_addLink]
    exact hn
  · exact .inl ⟨i, l', hl', rfl⟩

/-! ## Passes that keep wires loose -/

theorem clampLosses (h : LooseWires g) : LooseWires (clampLosses g).circuit := by
  refine h.of_links (wellFormed_clampLosses h.wellFormed) (node?_clampLosses g)
    fun {i l'} hl' => ?_
  rw [link?_clampLosses] at hl'
  obtain ⟨l, hl, rfl⟩ := Option.map_eq_some_iff.mp hl'
  exact ⟨i, l, hl, rfl⟩

theorem withoutLines (h : LooseWires g) (lines : List BusLine) :
    LooseWires (withoutLines g lines) :=
  withoutLines_keeps (fun hg _ _ => hg.removeNode _) h

/-- The links of the comparator in the place of a bus start at comparators. -/
theorem replaceBus (h : LooseWires g) {source : NodeId} {lines : List BusLine} {first : BusLine}
    (hbus : Bus g source lines first) : LooseWires (replaceBus g source lines first) := by
  have hadded : LooseWires
      ((Optimize.withoutLines g lines).addNode (busNode (g.strength source))) :=
    (h.withoutLines lines).addNode nofun
  have hnew : NoWireAt ((Optimize.withoutLines g lines).addNode (busNode (g.strength source)))
      g.nodeBound := by
    intro n hn
    rw [node?_addNode, nodeBound_withoutLines, if_pos rfl] at hn
    cases hn
    exact nofun
  have hold : NoWireAt ((Optimize.withoutLines g lines).addNode (busNode (g.strength source)))
      source := by
    obtain ⟨m, hm, hcomparator⟩ := hbus.source_node
    intro n hn
    rw [node?_addNode, nodeBound_withoutLines, if_neg hbus.source_ne, node?_withoutLines,
      if_neg hbus.source_notMem, hm] at hn
    cases hn
    intro htype
    rw [Gate.isComparator, htype] at hcomparator
    cases hcomparator
  rw [replaceBus_eq]
  refine (hadded.addLink hold).addLink fun n hn => hnew n ?_
  rw [← node?_addLink]
  exact hn

theorem collapseBuses (h : LooseWires g) : LooseWires (collapseBuses g).circuit :=
  collapseBuses_keeps (P := LooseWires) (fun hg hcomparator hlines =>
    hg.replaceBus (bus_of_busLines? hg.wellFormed hcomparator hlines)) h

theorem foldConstants (h : LooseWires g) : LooseWires (foldConstants g).circuit := by
  refine foldConstants_keeps (P := LooseWires) (fun {g id n s} hg _ _ _ => ?_) h
  have hconst := hg.modifyNode id
    (f := fun n => { n with gate := .constant, state := .ofStrength s })
    (fun _ hwire => nomatch hwire) fun _ => rfl
  exact hconst.removeLinks _

/-- The link to a settled output starts at a constant. -/
theorem feedConstant (h : LooseWires g) (id : NodeId) (strength : UInt8) :
    LooseWires (feedConstant g id strength) := by
  refine (h.addNode (n := .constant strength) nofun).addLink fun n hn => ?_
  rw [node?_addNode, if_pos rfl] at hn
  cases hn
  exact nofun

theorem removeUnreachable (h : LooseWires g) : LooseWires (Pass.removeUnreachable g).1 :=
  Pass.removeUnreachable_keeps (P := LooseWires) (fun hg => hg.removeLinks _)
    (fun hg => hg.modifyNode _ (fun _ hwire => hwire) fun _ => rfl)
    (fun hg => hg.feedConstant _ _) h

/-- Links move from constants to constants. -/
theorem shareConstants (h : LooseWires g) : LooseWires (shareConstants g).circuit := by
  have hgates := gatesWithin_shareConstants g
  obtain ⟨s, htraced, heq⟩ := traced_shareConstants h.wellFormed
  rw [heq] at hgates ⊢
  refine h.edit htraced.wellFormed (fun {id n'} hn' hwire => ?_) fun {i l'} hl' => ?_
  · rcases hgates id n' hn' with hconst | ⟨n, hn, -⟩
    · rw [hconst] at hwire
      cases hwire
    · have hold := lt_nodeBound_of_node? hn
      exact ⟨n', htraced.node hold hn', hwire, rfl⟩
  · obtain ⟨l, hl, -, -, hsource | ⟨m, -, -, hserver⟩⟩ := htraced.link hl'
    · exact .inl ⟨i, l, hl, hsource.symm⟩
    · refine .inr fun n hn hwire => ?_
      have hshared := (htraced.served hserver hn).1
      rw [isSharable, Gate.isConstant, hwire] at hshared
      cases hshared

/-- A node that takes over links has the gate of one that had them. -/
theorem merge (h : LooseWires g) {twin into : NodeId} {n m : Node}
    (hpair : Mergeable g twin into n m) : LooseWires (merge g twin into) := by
  have hnode := node?_merge hpair.twin_node hpair.into_node
  refine h.edit (wellFormed_merge h.wellFormed twin into) (fun {id k'} hk' hwire => ?_)
    fun {j l'} hl' => ?_
  · rw [hnode] at hk'
    split at hk'
    · cases hk'
    split at hk'
    case isTrue hinto =>
      cases hk'
      exact ⟨m, hinto ▸ hpair.into_node, hwire, rfl⟩
    case isFalse => exact ⟨k', hk', hwire, rfl⟩
  · obtain ⟨o, ho, hsource | ⟨hstart, hinto⟩⟩ :=
      link?_merge h.wellFormed hpair.twin_node hpair.into_node hpair.ne hl'
    · exact .inl ⟨j, o, ho, hsource.symm⟩
    · refine .inr fun k hk hwire => ?_
      rw [hinto, hnode, if_neg hpair.ne, if_pos rfl] at hk
      cases hk
      exact h.noWire_source ho n (hstart ▸ hpair.twin_node) (hpair.gate_eq ▸ hwire)

theorem mergeDuplicates (h : LooseWires g) : LooseWires (mergeDuplicates g).circuit :=
  mergeDuplicates_keeps (P := LooseWires) (fun hg hpair => hg.merge hpair) h

theorem pruneOrphans (h : LooseWires g) : LooseWires (pruneOrphans g).circuit :=
  pruneOrphans_keeps (P := LooseWires) (fun hg _ _ _ => hg.removeNode _) h

end LooseWires

/-! ## No wire is left -/

/-- A loose wire would be an orphan. -/
theorem LooseWires.noWireAt_pruneOrphans (h : LooseWires g) (id : NodeId) :
    NoWireAt (Optimize.pruneOrphans g).circuit id := by
  intro n hn hwire
  have hloose := h.pruneOrphans
  have hnone : (Optimize.pruneOrphans g).circuit.outputs id = [] := by
    refine List.eq_nil_iff_forall_not_mem.mpr fun i hi => ?_
    obtain ⟨l, hl, hsource⟩ := hloose.wellFormed.mem_outputs_iff.mp hi
    exact hloose.noWire_source hl n (hsource ▸ hn) hwire
  have horphan : isOrphan (Optimize.pruneOrphans g).circuit id = true :=
    isOrphan_iff.mpr ⟨n, hn, hloose.removable hn hwire, hnone⟩
  rw [not_isOrphan_pruneOrphans g (contains_of_node? hn)] at horphan
  cases horphan

end Optimize

/-- Every revising pass leaves wires without outputs. -/
theorem Pass.looseWires_run {pass : Pass} (hpass : pass ∈ revisions) (settings : Settings)
    (scene : Option Scene) {w : Workspace} (h : Optimize.LooseWires w.circuit) :
    Optimize.LooseWires (pass.run settings scene w).1.circuit := by
  simp only [revisions, List.mem_cons, List.not_mem_nil, or_false] at hpass
  rcases hpass with rfl | rfl | rfl | rfl | rfl | rfl | rfl | rfl
  · exact (circuit_run_ofRevision ..).symm ▸ h.clampLosses
  · exact (circuit_run_ofRevision ..).symm ▸ h.removeLinks _
  · exact (circuit_run_ofRevision ..).symm ▸ h.collapseBuses
  · exact (circuit_run_ofRevision ..).symm ▸ h.foldConstants
  · exact (circuit_run_ofRevision ..).symm ▸ h.removeUnreachable
  · exact (circuit_run_ofRevision ..).symm ▸ h.shareConstants
  · exact (circuit_run_ofRevision ..).symm ▸ h.mergeDuplicates
  · exact (circuit_run_ofRevision ..).symm ▸ h.pruneOrphans

end Redstone
