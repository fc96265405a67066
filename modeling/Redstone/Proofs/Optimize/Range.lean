import Redstone.Proofs.Circuit.Range
import Redstone.Proofs.Optimize.SteadyStates

/-!
# Optimization stays in range

A pass makes new strengths out of old ones: by folding and settling gates, which gives signals
when the gates are given signals.  New links have no loss.  So every revising pass keeps circuits
in range.
-/

namespace Redstone

namespace Circuit

variable {g : Circuit}

theorem InRange.strength_le (h : g.InRange) (id : NodeId) : g.strength id ≤ maxStrength := by
  unfold strength
  cases hn : g.node? id with
  | none => exact UInt8.le_iff_toNat_le.mpr (Nat.zero_le _)
  | some n => exact (h.node hn).strength_le

/-- What arrives at the main input is a signal, as all sources put out signals. -/
theorem InRange.main_inputPower_le (h : g.InRange) (hwf : g.WellFormed) (id : NodeId) :
    (g.inputPower id).main ≤ maxStrength :=
  hwf.powerUnder_le (fun _ l _ _ => h.strength_le l.source) false

/-- A circuit that the passes can deal with and that is in range. -/
structure Sound (g : Circuit) : Prop where
  regular : g.Regular
  inRange : g.InRange

end Circuit

namespace Optimize

open Circuit

variable {g : Circuit}

theorem inRange_clampLosses (h : g.InRange) : (clampLosses g).circuit.InRange where
  node := h.node
  link := by
    intro i l hl
    rw [link?_clampLosses] at hl
    obtain ⟨m, hm, rfl⟩ := Option.map_eq_some_iff.mp hl
    have hmin : min m.loss maxStrength ≤ maxStrength := by
      change (if m.loss ≤ maxStrength then m.loss else maxStrength) ≤ maxStrength
      split
      case isTrue hle => exact hle
      case isFalse => exact UInt8.le_refl _
    exact ⟨hmin, (h.link hm).channel⟩

/-! ## Buses -/

theorem inRange_withoutLines (h : g.InRange) (hwf : g.WellFormed) (lines : List BusLine) :
    (withoutLines g lines).InRange :=
  (withoutLines_keeps (P := fun g => g.InRange ∧ g.WellFormed)
    (fun hg _ _ => ⟨hg.1.removeNode hg.2 _, hg.2.removeNode _⟩) ⟨h, hwf⟩).1

/-- The node of a bus has the strength of its source, and its links lose nothing. -/
theorem inRange_replaceBus (h : g.InRange) (hwf : g.WellFormed) {source : NodeId}
    {lines : List BusLine} {first : BusLine} (hbus : Bus g source lines first)
    (hfirst : first ∈ lines) : (replaceBus g source lines first).InRange := by
  rw [replaceBus_eq]
  have hbare := (inRange_withoutLines h hwf lines).addNode (n := busNode (g.strength source))
    ⟨h.strength_le source, .inl rfl⟩
  have hzero : (0 : UInt8) ≤ maxStrength := by decide
  refine (hbare.addLink (l := busIn g source) ⟨hzero, .inl rfl⟩).addLink
    (l := busOut g first) ⟨hzero, ?_⟩
  -- the channel of the new link is that of a link of the bus
  obtain ⟨k, o, ho, hstart⟩ := (hbus.line hfirst).out
  obtain ⟨-, hchannel, -⟩ := (hbus.line hfirst).out_eq ho hstart
  have hrange := (h.link ho).channel
  rw [hchannel] at hrange
  exact hrange

theorem sound_collapseBusAt (h : g.Sound) (id : NodeId) : (collapseBusAt id g).circuit.Sound := by
  refine ⟨(refines_collapseBusAt h.regular id).regular, ?_⟩
  have hwf := h.regular.wellFormed
  exact collapseBusAt_keeps (fun hcomparator hlines => inRange_replaceBus h.inRange hwf
    (bus_of_busLines? hwf hcomparator hlines) List.mem_cons_self) h.inRange

/-! ## Constants -/

/-- Folding a gate whose inputs are signals gives a signal. -/
theorem sound_foldNode (h : g.Sound) (id : NodeId) : (foldNode id g).circuit.Sound := by
  refine ⟨(refines_foldNode h.regular id).regular, ?_⟩
  refine foldNode_keeps (fun {n strength} hn _ hfold => ?_) h.inRange
  have hnode := h.regular.nodes hn
  have hle : strength ≤ maxStrength :=
    Gate.fold_le hnode.farInput_le (h.inRange.main_inputPower_le h.regular.wellFormed id)
      hnode.locked_le hfold
  exact (h.inRange.modifyNode fun _ _ => ⟨hle, .inl rfl⟩).removeLinks _

/-- A gate settles to a signal when it is fed signals. -/
theorem inRange_settleNode (h : g.Sound) (id : NodeId) : (settleNode g id).InRange := by
  refine h.inRange.modifyNode fun n hn => ⟨?_, (h.inRange.node hn).mode⟩
  exact Gate.settle_le (h.regular.nodes hn).farInput_le
    (h.inRange.main_inputPower_le h.regular.wellFormed id) (h.inRange.node hn).strength_le

theorem inRange_refeed (h : g.InRange) (id : NodeId) {main : UInt8} (hmain : main ≤ maxStrength) :
    (refeed g id main).InRange := by
  have hzero : (0 : UInt8) ≤ maxStrength := by decide
  exact refeed_keeps (h.removeLinks _) fun hbare _ =>
    (hbare.addNode (Node.inRange_constant hmain)).addLink ⟨hzero, .inl rfl⟩

/-- The constant of a settled output has the power that has arrived there. -/
theorem sound_settleOutput (h : g.Sound) (id : NodeId) : (settleOutput id g).circuit.Sound := by
  refine ⟨(refines_settleOutput h.regular id).regular, ?_⟩
  exact settleOutput_keeps (fun _ => inRange_settleNode h id)
    (fun _ hsettled => inRange_refeed hsettled id
      (h.inRange.main_inputPower_le h.regular.wellFormed id)) h.inRange

/-- A further constant has the strength of one that is there. -/
theorem inRange_shareConstants (h : g.Sound) : (shareConstants g).circuit.InRange :=
  (shareConstants_keeps (P := fun g => g.InRange ∧ g.WellFormed)
    (fun hg => ⟨hg.1.setSource _ _, hg.2.setSource _ _⟩)
    (fun hg hn _ => ⟨hg.1.addNode (Node.inRange_constant (hg.1.node hn).strength_le),
      hg.2.addNode _⟩)
    (fun hg _ _ => ⟨hg.1.removeNode hg.2 _, hg.2.removeNode _⟩)
    ⟨h.inRange, h.regular.wellFormed⟩).1

/-! ## Duplicates and orphans -/

/-- Merging two nodes brings their blocks together and leaves strengths and losses alone. -/
theorem inRange_merge (h : g.InRange) (hwf : g.WellFormed) (twin into : NodeId) :
    (merge g twin into).InRange := by
  refine (merge_keeps (P := fun g => g.InRange ∧ g.WellFormed)
    (fun {_ i} hg => ⟨hg.1.setSource i into, hg.2.setSource i into⟩)
    (fun {_ i} hg => ⟨hg.1.removeLink i, hg.2.removeLink i⟩) (fun {g blocks} hg => ?_) ⟨h, hwf⟩).1
  have hwf' := hg.2.modifyNode into fun m => { m with blocks := m.blocks ++ blocks }
  refine ⟨InRange.removeNode (hg.1.modifyNode fun n hn => ?_) hwf' twin, hwf'.removeNode twin⟩
  exact ⟨(hg.1.node hn).strength_le, (hg.1.node hn).mode⟩

theorem sound_mergeTwins (h : g.Sound) (id : NodeId) : (mergeTwins id g).circuit.Sound := by
  refine ⟨(refines_mergeTwins h.regular id).regular, ?_⟩
  exact (mergeTwins_keeps (P := fun g => g.InRange ∧ g.WellFormed)
    (fun hg _ => ⟨inRange_merge hg.1 hg.2 _ _, wellFormed_merge hg.2 _ _⟩)
    ⟨h.inRange, h.regular.wellFormed⟩).1

theorem sound_pruneNode (h : g.Sound) (id : NodeId) : (pruneNode id g).circuit.Sound :=
  ⟨(refines_pruneNode h.regular id).regular,
    pruneNode_keeps (fun _ _ _ => h.inRange.removeNode h.regular.wellFormed id) h.inRange⟩

theorem sound_pruneLinksAt (h : g.Sound) (id : NodeId) : (pruneLinksAt id g).circuit.Sound :=
  ⟨(refines_pruneLinksAt h.regular id).regular, h.inRange.removeLinks _⟩

/-! ## Whole passes -/

theorem sound_clampLosses (h : g.Sound) : (clampLosses g).circuit.Sound :=
  ⟨(refines_clampLosses h.regular).regular, inRange_clampLosses h.inRange⟩

theorem sound_dedupLinks (h : g.Sound) : (dedupLinks g).circuit.Sound :=
  ⟨(refines_dedupLinks h.regular).regular, h.inRange.removeLinks _⟩

theorem sound_collapseBuses (h : g.Sound) : (collapseBuses g).circuit.Sound :=
  Revision.sweep_keeps (P := Sound) (fun id _ _ hg => sound_collapseBusAt hg id) h

theorem sound_foldSweep (h : g.Sound) : (foldSweep g).circuit.Sound :=
  Revision.sweep_keeps (P := Sound) (fun id _ _ hg => sound_foldNode hg id) h

theorem sound_foldConstants (h : g.Sound) : (foldConstants g).circuit.Sound :=
  Revision.untilStable_keeps (P := Sound) (fun _ hg => sound_foldSweep hg) _ h

theorem sound_pruneDeadLinks (h : g.Sound) : (pruneDeadLinks g).circuit.Sound :=
  Revision.sweep_keeps (P := Sound) (fun id _ _ hg => sound_pruneLinksAt hg id) h

theorem sound_settleOutputs (h : g.Sound) : (settleOutputs g).circuit.Sound :=
  Revision.sweep_keeps (P := Sound) (fun id _ _ hg => sound_settleOutput hg id) h

theorem sound_shareConstants (h : g.Sound) : (shareConstants g).circuit.Sound :=
  ⟨(refines_shareConstants h.regular).regular, inRange_shareConstants h⟩

theorem sound_mergeSweep (h : g.Sound) : (mergeSweep g).circuit.Sound :=
  Revision.sweep_keeps (P := Sound) (fun id _ _ hg => sound_mergeTwins hg id) h

theorem sound_mergeDuplicates (h : g.Sound) : (mergeDuplicates g).circuit.Sound :=
  Revision.untilStable_keeps (P := Sound) (fun _ hg => sound_mergeSweep hg) _ h

theorem sound_pruneSweep (h : g.Sound) : (pruneSweep g).circuit.Sound :=
  Revision.sweep_keeps (P := Sound) (fun id _ _ hg => sound_pruneNode hg id) h

theorem sound_pruneOrphans (h : g.Sound) : (pruneOrphans g).circuit.Sound :=
  Revision.untilStable_keeps (P := Sound) (fun _ hg => sound_pruneSweep hg) _ h

end Optimize

/-- Every revising pass keeps a circuit sound. -/
theorem Pass.sound_run {pass : Pass} (hpass : pass ∈ revisions) (settings : Settings)
    (scene : Option Scene) {w : Workspace} (h : w.circuit.Sound) :
    (pass.run settings scene w).1.circuit.Sound := by
  simp only [revisions, List.mem_cons, List.not_mem_nil, or_false] at hpass
  rcases hpass with rfl | rfl | rfl | rfl | rfl | rfl | rfl | rfl
  · exact (circuit_run_ofRevision ..).symm ▸ Optimize.sound_clampLosses h
  · exact (circuit_run_ofRevision ..).symm ▸ Optimize.sound_dedupLinks h
  · exact (circuit_run_ofRevision ..).symm ▸ Optimize.sound_collapseBuses h
  · exact (circuit_run_ofRevision ..).symm ▸ Optimize.sound_foldConstants h
  · exact (circuit_run_ofRevision ..).symm ▸
      Optimize.sound_settleOutputs (Optimize.sound_pruneDeadLinks h)
  · exact (circuit_run_ofRevision ..).symm ▸ Optimize.sound_shareConstants h
  · exact (circuit_run_ofRevision ..).symm ▸ Optimize.sound_mergeDuplicates h
  · exact (circuit_run_ofRevision ..).symm ▸ Optimize.sound_pruneOrphans h

end Redstone
