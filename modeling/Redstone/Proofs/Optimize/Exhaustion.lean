import Redstone.Proofs.Circuit.Cascade
import Redstone.Proofs.Optimize.Gates

/-!
# Folding without loops

In a circuit without loops that nobody can switch, constants are all that folding leaves of the
gates that drive others.  Folding goes on until there is nothing to fold: each sweep with a change
turns nodes into constants, of which there are only so many.  A gate of lowest rank among those
left would have constants as its only sources and would have been folded.
-/

namespace Redstone

namespace Optimize

open Circuit

variable {g : Circuit} {id : NodeId} {rank : NodeId → Nat}

/-! ## Folding ends -/

theorem card_variableNodes_lt (g : Circuit) : g.variableNodes.card < g.nodeBound + 1 :=
  Nat.lt_succ_of_le (g.card_variableNodes_le.trans g.length_nodeIds_le)

/-- Folding a node takes it from the nodes that are no constants. -/
theorem card_variableNodes_makeConstant_lt {n : Node} (hn : g.node? id = some n)
    (hfoldable : n.gate.isFoldable = true) (s : UInt8) :
    (makeConstant g id s).variableNodes.card < g.variableNodes.card := by
  apply Finset.card_lt_card
  rw [Finset.ssubset_iff_of_subset (variableNodes_subset (gatesWithin_makeConstant hn s))]
  refine ⟨id, mem_variableNodes.mpr ⟨n, hn, Gate.isConstant_of_isFoldable hfoldable⟩, ?_⟩
  rw [mem_variableNodes]
  rintro ⟨m, hm, hconst⟩
  rw [node?_makeConstant hn, if_pos rfl, Option.some.injEq] at hm
  subst hm
  cases hconst

theorem foldNode_pays (id : NodeId) (g : Circuit) :
    (foldNode id g).changes + (foldNode id g).circuit.variableNodes.card ≤
      g.variableNodes.card := by
  rcases foldNode_cases id g with ⟨heq, -⟩ | ⟨n, s, hn, -, hfold, heq⟩
  · rw [heq]
    exact Nat.le_of_eq (Nat.zero_add _)
  · rw [heq]
    change 1 + (makeConstant g id s).variableNodes.card ≤ _
    have hlt := card_variableNodes_makeConstant_lt hn (Gate.isFoldable_of_fold hfold) s
    omega

theorem foldNode_circuit_of_changes (id : NodeId) (g : Circuit)
    (h : (foldNode id g).changes = 0) : (foldNode id g).circuit = g := by
  rcases foldNode_cases id g with ⟨heq, -⟩ | ⟨n, s, -, -, -, heq⟩
  · rw [heq]
    rfl
  · rw [heq] at h
    cases h

/-- When folding has ended, every gate that could be folded has a source that is no constant. -/
theorem not_hasConstantInputs_foldConstants {n : Node}
    (hn : (foldConstants g).circuit.node? id = some n) (hfoldable : n.gate.isFoldable = true) :
    (foldConstants g).circuit.hasConstantInputs id = false := by
  have hsame (g : Circuit) (h : (foldSweep g).changes = 0) : (foldSweep g).circuit = g :=
    (Revision.sweep_changes_eq_zero foldNode_circuit_of_changes h).1
  have hpays (g : Circuit) : (foldSweep g).changes + (foldSweep g).circuit.variableNodes.card ≤
      g.variableNodes.card :=
    Revision.sweep_pays (m := fun g => g.variableNodes.card) foldNode_pays _ g
  have hstable : (foldSweep (foldConstants g).circuit).changes = 0 :=
    Revision.untilStable_changes_eq_zero (m := fun g => g.variableNodes.card) hsame hpays
      (card_variableNodes_lt g)
  have hmem : id ∈ (foldConstants g).circuit.nodeIds := mem_nodeIds.mpr (contains_of_node? hn)
  have hzero := (Revision.sweep_changes_eq_zero foldNode_circuit_of_changes hstable).2 id hmem
  rcases foldNode_cases id (foldConstants g).circuit with ⟨-, hreason⟩ | ⟨m, s, -, -, -, heq⟩
  · exact hreason n hn hfoldable
  · rw [heq] at hzero
    cases hzero

/-! ## Cascades under the first passes -/

theorem cascade_clampLosses (h : g.Cascade rank) : (clampLosses g).circuit.Cascade rank := by
  refine h.of_feeds (.of_node?_eq (node?_clampLosses g)) fun {i l} hl => ?_
  rw [link?_clampLosses] at hl
  obtain ⟨m, hm, rfl⟩ := Option.map_eq_some_iff.mp hl
  exact ⟨i, m, hm, rfl, rfl⟩

theorem cascade_makeConstant (h : g.Cascade rank) (hwf : g.WellFormed) {n : Node}
    (hn : g.node? id = some n) (s : UInt8) : (makeConstant g id s).Cascade rank := by
  refine h.of_feeds (gatesWithin_makeConstant hn s) fun {i l} hl => ?_
  exact ⟨i, l, ((link?_makeConstant_eq_some_iff hwf).mp hl).1, rfl, rfl⟩

theorem cascade_foldConstants (h : g.Cascade rank) (hregular : g.Regular) :
    (foldConstants g).circuit.Cascade rank :=
  (foldConstants_keeps (P := fun g => g.WellFormed ∧ g.Cascade rank)
    (fun hg hn _ _ => ⟨wellFormed_makeConstant hg.1, cascade_makeConstant hg.2 hg.1 hn _⟩)
    ⟨hregular.wellFormed, h⟩).2

/-- The comparator in the place of a bus gets the rank of the first repeater of the bus. -/
theorem cascade_replaceBus (h : g.Cascade rank) (hwf : g.WellFormed) {source : NodeId}
    {first : BusLine} {rest : List BusLine} (hbus : Bus g source (first :: rest) first) :
    (replaceBus g source (first :: rest) first).Cascade
      (Function.update rank g.nodeBound (rank first.repeater)) := by
  have hline := hbus.line List.mem_cons_self
  obtain ⟨i, l, hl, hstart⟩ := hline.hangs.link
  obtain ⟨hsource, -, -⟩ := hline.hangs.every hl hstart
  obtain ⟨k, o, ho, hrepeater⟩ := hline.out
  obtain ⟨htarget, -, -⟩ := hline.out_eq ho hrepeater
  have hinto : rank source < rank first.repeater := by
    rw [← hsource, ← hstart]
    exact h.climbs hl
  have honto : rank first.repeater < rank first.target := by
    rw [← hrepeater, ← htarget]
    exact h.climbs ho
  have hold {j : NodeId} (hj : g.contains j = true) : j ≠ g.nodeBound :=
    Nat.ne_of_lt (lt_nodeBound_of_contains hj)
  refine ⟨fun {i l} hl => ?_, fun {i l n} hl hn => ?_⟩
  · rcases (hbus.exists_link?_replaceBus hwf).mp ⟨i, hl⟩ with rfl | rfl | ⟨⟨j, hj⟩, -⟩
    · change Function.update rank g.nodeBound _ g.nodeBound <
        Function.update rank g.nodeBound _ first.target
      rw [Function.update_self, Function.update_of_ne hbus.target_ne]
      exact honto
    · change Function.update rank g.nodeBound _ source <
        Function.update rank g.nodeBound _ g.nodeBound
      rw [Function.update_self, Function.update_of_ne hbus.source_ne]
      exact hinto
    · rw [Function.update_of_ne (hold (hwf.contains_source hj)),
        Function.update_of_ne (hold (hwf.contains_target hj))]
      exact h.climbs hj
  · rw [Bus.node?_replaceBus] at hn
    rcases (hbus.exists_link?_replaceBus hwf).mp ⟨i, hl⟩ with rfl | rfl | ⟨⟨j, hj⟩, hsrc, -⟩
    · rw [busOut, if_pos rfl, Option.some.injEq] at hn
      subst hn
      exact .inl rfl
    · obtain ⟨m, hm, hcomparator⟩ := hbus.source_node
      rw [busIn, if_neg hbus.source_ne, if_neg hbus.source_notMem, hm, Option.some.injEq] at hn
      subst hn
      have htype : m.gate.type = .comparator := by simpa [Gate.isComparator] using hcomparator
      exact .inl (by simp [Gate.isFoldable, htype])
    · rw [if_neg (hold (hwf.contains_source hj)), if_neg hsrc] at hn
      exact h.driven hj hn

theorem cascade_collapseBuses (h : g.Cascade rank) (hregular : g.Regular) :
    ∃ rank', (collapseBuses g).circuit.Cascade rank' := by
  refine (collapseBuses_keeps (P := fun g => g.WellFormed ∧ ∃ rank, g.Cascade rank)
    (fun {g id first rest} hg hcomparator hlines => ?_) ⟨hregular.wellFormed, rank, h⟩).2
  obtain ⟨hwf, rank, h⟩ := hg
  have hbus := bus_of_busLines? hwf hcomparator hlines
  exact ⟨Bus.wellFormed_replaceBus hwf _ _ _, _, cascade_replaceBus h hwf hbus⟩

/-! ## What is left -/

/-- In a cascade, folding leaves no gate that could be folded. -/
theorem inert_foldConstants (h : g.Cascade rank) (hregular : g.Regular) :
    (foldConstants g).circuit.Inert := by
  have hwf := (refines_foldConstants hregular).regular.wellFormed
  have hcascade := cascade_foldConstants h hregular
  have hrank (bound : Nat) (id : NodeId) (n : Node) (hid : rank id < bound)
      (hn : (foldConstants g).circuit.node? id = some n) : n.gate.isFoldable = false := by
    induction bound generalizing id n with
    | zero => exact absurd hid (Nat.not_lt_zero _)
    | succ bound ih =>
        rw [Bool.eq_false_iff]
        intro hfoldable
        -- all sources are of lower rank, so they are constants, and the gate has been folded
        have hconst : (foldConstants g).circuit.hasConstantInputs id = true := by
          rw [hasConstantInputs_iff hwf]
          rintro i l hl rfl
          obtain ⟨m, hm⟩ := contains_iff.mp (hwf.contains_source hl)
          refine ⟨m, hm, (hcascade.driven hl hm).resolve_left fun hm' => ?_⟩
          have hlow := Nat.lt_of_lt_of_le (hcascade.climbs hl) (Nat.le_of_lt_succ hid)
          rw [ih l.source m hlow hm] at hm'
          cases hm'
        rw [not_hasConstantInputs_foldConstants hn hfoldable] at hconst
        cases hconst
  intro id n hn
  exact hrank (rank id + 1) id n (Nat.lt_succ_self _) hn

/-- In an inert cascade all links start at constants. -/
theorem hasConstantInputs_of_inert (h : g.Inert) (hcascade : g.Cascade rank) (hwf : g.WellFormed)
    (id : NodeId) : g.hasConstantInputs id = true := by
  rw [hasConstantInputs_iff hwf]
  intro i l hl _
  obtain ⟨m, hm⟩ := contains_iff.mp (hwf.contains_source hl)
  refine ⟨m, hm, (hcascade.driven hl hm).resolve_left fun hfoldable => ?_⟩
  rw [h l.source m hm] at hfoldable
  cases hfoldable

/-- In an inert cascade only one strength is possible at an indicator. -/
theorem indicator_eq_of_inert (h : g.Inert) (hcascade : g.Cascade rank) (hwf : g.WellFormed)
    {τ τ' : NodeId → UInt8} (hτ : g.Balanced τ) (hτ' : g.Balanced τ') {n : Node}
    (hn : g.node? id = some n) (hind : n.gate.type.isIndicator = true) : τ id = τ' id := by
  have hconst := hasConstantInputs_of_inert h hcascade hwf id
  have hshows {τ : NodeId → UInt8} (hτ : g.Balanced τ) : (g.inputPower id).main = τ id := by
    rw [← powerUnder_eq_inputPower hwf hconst (respectsConstants_of_balanced hτ)]
    exact (Node.upholds_indicator_iff hind).mp (hτ.upholds hn)
  rw [← hshows hτ, hshows hτ']

theorem unlatched_of_inert (h : g.Inert) : g.Unlatched := by
  have hno {id : NodeId} {n : Node} (hn : g.node? id = some n) : n.gate.type ≠ .repeater := by
    intro htype
    have hfoldable := h id n hn
    simp [Gate.isFoldable, htype] at hfoldable
  exact ⟨fun hn htype => absurd htype (hno hn), fun _ hn htype => absurd htype (hno hn)⟩

end Optimize

end Redstone
