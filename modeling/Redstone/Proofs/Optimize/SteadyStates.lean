import Redstone.Pipeline.Passes
import Redstone.Proofs.Optimize.AnalogBuses
import Redstone.Proofs.Optimize.Constants
import Redstone.Proofs.Optimize.Duplicates
import Redstone.Proofs.Optimize.Links
import Redstone.Proofs.Optimize.SharedConstants

/-!
# Optimization keeps steady states

Each of the eight revising passes refines its circuit, and so does any sequence of them.  For a
circuit without latches this means that its steady states and those of the revised circuit
correspond to each other: they have the same strengths at all nodes that are in both circuits,
among them all nodes with a role for the outside world.
-/

namespace Redstone

namespace Optimize

open Circuit

variable {g : Circuit}

theorem refines_pruneNode (h : g.Regular) (id : NodeId) : Refines g (pruneNode id g).circuit :=
  pruneNode_keeps (P := Refines g)
    (fun hn hrole hnone => .removeNode h hn hrole fun _ _ hl => h.wellFormed.source_ne hnone hl)
    (.refl h)

theorem refines_pruneOrphans (h : g.Regular) : Refines g (pruneOrphans g).circuit :=
  .untilStable (fun _ hg => .sweep (fun id _ hg' => refines_pruneNode hg' id) hg) _ h

end Optimize

namespace Pass

/-- The passes that revise the circuit. -/
def revisions : List Pass :=
  [ clampWeights, dedupLinks, analogRepeaters, constantFold, unreachableOutput, constantCoalesce
  , coalesce, pruneOrphans ]

theorem circuit_run_ofRevision (name status : String) (applies : Settings → Bool)
    (revise : Circuit → Circuit × List Nat) (summary : Option (String × List String))
    (settings : Settings) (scene : Option Scene) (w : Workspace) :
    ((ofRevision name status applies revise summary).run settings scene w).1.circuit =
      (revise w.circuit).1 := by
  cases summary <;> rfl

/-- To remove what is unreachable, links are removed, outputs are settled and fed from constants. -/
theorem removeUnreachable_keeps {P : Circuit → Prop}
    (hremove : ∀ {g ids}, P g → P (g.removeLinks ids))
    (hsettle : ∀ {g id}, P g → P (Optimize.settleNode g id))
    (hfeed : ∀ {g id main}, P g → P (Optimize.feedConstant g id main)) {g : Circuit} (h : P g) :
    P (removeUnreachable g).1 :=
  Optimize.settleOutputs_keeps (fun hg _ => hsettle hg)
    (fun _ _ hsettled => Optimize.refeed_keeps (hremove hsettled) fun hbare _ => hfeed hbare)
    (Optimize.pruneDeadLinks_keeps hremove h)

theorem refines_removeUnreachable {g : Circuit} (h : g.Regular) :
    Circuit.Refines g (removeUnreachable g).1 := by
  have hpruned := Optimize.refines_pruneDeadLinks h
  exact hpruned.trans (Optimize.refines_settleOutputs hpruned.regular)

/-- Every revising pass refines the circuit. -/
theorem refines_run {pass : Pass} (hpass : pass ∈ revisions) (settings : Settings)
    (scene : Option Scene) {w : Workspace} (h : w.circuit.Regular) :
    Circuit.Refines w.circuit (pass.run settings scene w).1.circuit := by
  simp only [revisions, List.mem_cons, List.not_mem_nil, or_false] at hpass
  rcases hpass with rfl | rfl | rfl | rfl | rfl | rfl | rfl | rfl
  · exact (circuit_run_ofRevision ..).symm ▸ Optimize.refines_clampLosses h
  · exact (circuit_run_ofRevision ..).symm ▸ Optimize.refines_dedupLinks h
  · exact (circuit_run_ofRevision ..).symm ▸ Optimize.refines_collapseBuses h
  · exact (circuit_run_ofRevision ..).symm ▸ Optimize.refines_foldConstants h
  · exact (circuit_run_ofRevision ..).symm ▸ refines_removeUnreachable h
  · exact (circuit_run_ofRevision ..).symm ▸ Optimize.refines_shareConstants h
  · exact (circuit_run_ofRevision ..).symm ▸ Optimize.refines_mergeDuplicates h
  · exact (circuit_run_ofRevision ..).symm ▸ Optimize.refines_pruneOrphans h

end Pass

/-- The workspace after some passes, one after the other. -/
def Workspace.after (settings : Settings) (scene : Option Scene) (w : Workspace)
    (passes : List Pass) : Workspace :=
  passes.foldl (fun w pass => (pass.run settings scene w).1) w

theorem Workspace.refines_after (settings : Settings) (scene : Option Scene) {passes : List Pass}
    (hpasses : ∀ pass ∈ passes, pass ∈ Pass.revisions) {w : Workspace} (h : w.circuit.Regular) :
    Circuit.Refines w.circuit (w.after settings scene passes).circuit := by
  induction passes generalizing w with
  | nil => exact .refl h
  | cons pass rest ih =>
      have hstep := Pass.refines_run (hpasses pass List.mem_cons_self) settings scene h
      exact hstep.trans
        (ih (fun next hnext => hpasses next (List.mem_cons_of_mem _ hnext)) hstep.regular)

namespace Circuit

/-- A circuit that the passes may be asked to optimize.  Its nodes are of the defined types, far
inputs and constants are signals, constants and switches have no inputs, outputs are
indicators, and there are no latches. -/
structure Admissible (g : Circuit) : Prop where
  wellFormed : g.WellFormed
  defined : ∀ {id n}, g.node? id = some n → n.gate.type.isDefined = true
  farInput_le : ∀ {id n}, g.node? id = some n → n.gate.hasFarInput = true →
    n.gate.farInput ≤ maxStrength
  constant_le : ∀ {id n}, g.node? id = some n → n.gate.type = .constant →
    n.state.strength ≤ maxStrength
  source_free : ∀ {i l n}, g.link? i = some l → g.node? l.target = some n →
    n.gate.type.isSource = false
  output_indicator : ∀ {id n}, g.node? id = some n → n.isOutput = true →
    n.gate.type.isIndicator = true
  unlatched : g.Unlatched

theorem Admissible.regular {g : Circuit} (h : g.Admissible) : g.Regular where
  wellFormed := h.wellFormed
  nodes := by
    intro id n hn
    refine ⟨h.defined hn, h.farInput_le hn, fun hconst => ?_, fun htype hlocked => ?_,
      h.output_indicator hn⟩
    · exact h.constant_le hn (by simpa [Gate.isConstant] using hconst)
    · rw [h.unlatched.unlocked hn htype] at hlocked
      cases hlocked
  source_free := h.source_free

variable {g g' : Circuit}

/-- A steady state is carried to a circuit that refines the one at hand. -/
theorem Refines.steady_forward (h : Refines g g') (hun : g.Unlatched) (hwf : g.WellFormed)
    {σ : NodeId → GateState} (hσ : g.Steady σ) :
    ∃ σ', g'.Steady σ' ∧ ∀ id, g.contains id = true → g'.contains id = true →
      (σ' id).strength = (σ id).strength := by
  obtain ⟨τ', hτ', hagree⟩ := h.forward _ (hσ.balanced hun hwf)
  refine ⟨g'.stateOf τ', hτ'.steady_stateOf, fun id hc hc' => ?_⟩
  rw [hτ'.strength_stateOf]
  exact hagree id hc hc'

/-- A steady state of the refined circuit is carried back. -/
theorem Refines.steady_backward (h : Refines g g') (hun : g.Unlatched)
    {σ' : NodeId → GateState} (hσ' : g'.Steady σ') :
    ∃ σ, g.Steady σ ∧ ∀ id, g.contains id = true → g'.contains id = true →
      (σ id).strength = (σ' id).strength := by
  obtain ⟨τ, hτ, hagree⟩ :=
    h.backward hun _ (hσ'.balanced (h.unlatched hun) h.regular.wellFormed)
  refine ⟨g.stateOf τ, hτ.steady_stateOf, fun id hc hc' => ?_⟩
  rw [hτ.strength_stateOf]
  exact (hagree id hc hc').symm

/-- The steady states of a circuit and those of the circuit after any sequence of revising passes
correspond to each other, and no node with a role for the outside world is lost. -/
theorem steady_states_correspond (settings : Settings) (scene : Option Scene)
    (passes : List Pass) (hpasses : ∀ pass ∈ passes, pass ∈ Pass.revisions) (w : Workspace)
    (h : w.circuit.Admissible) :
    let g := w.circuit
    let g' := (w.after settings scene passes).circuit
    (∀ σ, g.Steady σ → ∃ σ', g'.Steady σ' ∧
      ∀ id, g.contains id = true → g'.contains id = true → (σ' id).strength = (σ id).strength) ∧
    (∀ σ', g'.Steady σ' → ∃ σ, g.Steady σ ∧
      ∀ id, g.contains id = true → g'.contains id = true → (σ id).strength = (σ' id).strength) ∧
    ∀ id n, g.node? id = some n → n.isRemovable = false → g'.contains id = true := by
  have hrefines := w.refines_after settings scene hpasses h.regular
  refine ⟨fun σ hσ => hrefines.steady_forward h.unlatched h.wellFormed hσ,
    fun σ' hσ' => hrefines.steady_backward h.unlatched hσ', fun id n hn hrole => ?_⟩
  obtain ⟨n', hn', -⟩ := hrefines.lineage.kept hn hrole
  exact contains_of_node? hn'

/-- Two torches that keep each other from burning, and a lamp that shows the first one. -/
def flipFlop : Circuit :=
  let torches := (Circuit.empty.addNode { gate := .plain .torch }).addNode { gate := .plain .torch }
  let nodes := torches.addNode { gate := .plain .lamp, isOutput := true }
  ((nodes.addLink { source := 0, target := 1, channel := .main, loss := 0 }).addLink
    { source := 1, target := 0, channel := .main, loss := 0 }).addLink
    { source := 0, target := 2, channel := .main, loss := 3 }

/-- The first torch burns and lights the lamp. -/
def flipFlopLit : NodeId → GateState
  | 0 => .ofStrength 15
  | 2 => .ofStrength 12
  | _ => {}

theorem admissible_flipFlop : flipFlop.Admissible := by
  have hnodes : ∀ p ∈ flipFlop.nodes, p.2.gate.type.isDefined = true ∧
      p.2.gate.hasFarInput = false ∧ p.2.gate.type ≠ .constant ∧ p.2.gate.type ≠ .repeater ∧
      p.2.gate.type.isSource = false ∧
      (p.2.isOutput = true → p.2.gate.type.isIndicator = true) := by decide
  have hnode {id : NodeId} {n : Node} (hn : flipFlop.node? id = some n) :=
    hnodes (id, n) (mem_nodes.mpr hn)
  exact {
    wellFormed := (((((WellFormed.empty.addNode _).addNode _).addNode _).addLink _).addLink _).addLink _
    defined := fun hn => (hnode hn).1
    farInput_le := fun hn hfar => absurd ((hnode hn).2.1.symm.trans hfar) Bool.false_ne_true
    constant_le := fun hn htype => absurd htype (hnode hn).2.2.1
    source_free := fun _ hn => (hnode hn).2.2.2.2.1
    output_indicator := fun hn => (hnode hn).2.2.2.2.2
    unlatched :=
      ⟨fun hn htype => absurd htype (hnode hn).2.2.2.1,
        fun _ hn htype => absurd htype (hnode hn).2.2.2.1⟩ }

theorem steady_flipFlopLit : flipFlop.Steady flipFlopLit := by
  have hnodes : ∀ p ∈ flipFlop.nodes,
      p.2.gate.settle (flipFlopLit p.1)
        (flipFlop.powerUnder (fun j => (flipFlopLit j).strength) p.1) = flipFlopLit p.1 ∧
      p.2.gate.type ≠ .constant ∧ (flipFlopLit p.1).strength ≤ maxStrength := by decide
  have hnode {id : NodeId} {n : Node} (hn : flipFlop.node? id = some n) :=
    hnodes (id, n) (mem_nodes.mpr hn)
  exact ⟨fun hn => (hnode hn).1, fun hn htype => absurd htype (hnode hn).2.1,
    fun hn => (hnode hn).2.2⟩

/-- After all revising passes the lamp of the flip-flop is still lit in some steady state. -/
theorem steady_states_correspond_flipFlop :
    ∃ σ', (Workspace.after .default none { circuit := flipFlop, log := { verbose := false } }
        Pass.revisions).circuit.Steady σ' ∧ (σ' 2).strength = 12 := by
  obtain ⟨hforward, -, hkept⟩ := steady_states_correspond .default none
    Pass.revisions (fun _ hpass => hpass)
    { circuit := flipFlop, log := { verbose := false } } admissible_flipFlop
  obtain ⟨σ', hσ', hsame⟩ := hforward flipFlopLit steady_flipFlopLit
  have hlamp : flipFlop.node? 2 = some { gate := .plain .lamp, isOutput := true } := by decide
  exact ⟨σ', hσ', hsame 2 (contains_of_node? hlamp) (hkept 2 _ hlamp rfl)⟩

end Circuit

end Redstone
