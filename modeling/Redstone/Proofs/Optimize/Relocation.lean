import Redstone.Pipeline.Passes
import Redstone.Proofs.Circuit.Relocation

/-!
# Optimization at other places

No revision looks at the blocks of a node; when two nodes are merged, their blocks are put together.
So the revision of a relocated circuit is the revision of the circuit, relocated.
-/

namespace Redstone

/-- The revision with its circuit relocated. -/
def Revision.relocate (f : Position → Position) (r : Revision) : Revision :=
  { r with circuit := r.circuit.relocate f }

namespace Revision

variable {f : Position → Position} {α : Type}

theorem andThen_relocate {step : Circuit → Revision}
    (hstep : ∀ g, step (g.relocate f) = (step g).relocate f) (r : Revision) :
    (r.relocate f).andThen step = (r.andThen step).relocate f := by
  unfold andThen relocate
  dsimp only
  rw [hstep]
  rfl

/-- A sweep over names does not see the places of nodes. -/
theorem sweep_relocate {step : α → Circuit → Revision}
    (hstep : ∀ item g, step item (g.relocate f) = (step item g).relocate f) (items : List α)
    (g : Circuit) : sweep step items (g.relocate f) = (sweep step items g).relocate f := by
  have hstart : unchanged (g.relocate f) = (unchanged g).relocate f := rfl
  unfold sweep
  rw [hstart]
  exact List.foldl_hom (relocate f) fun r item => andThen_relocate (hstep item) r

/-- The sweeps end at the same time, since they change equally much. -/
theorem untilStable_relocate {step : Circuit → Revision}
    (hstep : ∀ g, step (g.relocate f) = (step g).relocate f) (fuel : Nat) (g : Circuit) :
    untilStable step fuel (g.relocate f) = (untilStable step fuel g).relocate f := by
  induction fuel generalizing g with
  | zero => rfl
  | succ fuel ih =>
      unfold untilStable
      dsimp only
      rw [hstep]
      change (if (step g).changes = 0 then _ else _) = _
      split
      · rfl
      · exact andThen_relocate ih (step g)

end Revision

namespace Optimize

open Circuit

variable (f : Position → Position) (g : Circuit)

/-! ## Links -/

theorem clampLosses_relocate : clampLosses (g.relocate f) = (clampLosses g).relocate f := rfl

theorem dedupLinks_relocate : dedupLinks (g.relocate f) = (dedupLinks g).relocate f := by
  have hred : isRedundant (g.relocate f) = isRedundant g := by
    funext i
    simp [isRedundant]
  have hlinks : redundantLinks (g.relocate f) = redundantLinks g := by
    unfold redundantLinks
    rw [nodeIds_relocate, hred]
    simp
  unfold dedupLinks
  dsimp only
  rw [hlinks, removeLinks_relocate]
  rfl

/-- The bound of an output looks at gates and states. -/
theorem maxOutput_relocate (id : NodeId) : maxOutput (g.relocate f) id = maxOutput g id := by
  have hside (l : Link) : constantSide (g.relocate f) l = constantSide g l := by
    unfold constantSide
    rw [node?_relocate]
    cases g.node? l.source <;> rfl
  have hfloor : sideFloor (g.relocate f) id = sideFloor g id := by
    simp [sideFloor, hside]
  unfold maxOutput
  rw [node?_relocate, hfloor]
  cases g.node? id <;> rfl

theorem pruneDeadLinks_relocate :
    pruneDeadLinks (g.relocate f) = (pruneDeadLinks g).relocate f := by
  unfold pruneDeadLinks
  rw [nodeIds_relocate]
  refine Revision.sweep_relocate (fun id g => ?_) g.nodeIds g
  have hdead : deadLinks (g.relocate f) id = deadLinks g id := by
    simp [deadLinks, maxOutput_relocate]
  unfold pruneLinksAt
  rw [hdead]
  dsimp only
  rw [removeLinks_relocate]
  rfl

/-! ## Constants -/

theorem foldConstants_relocate : foldConstants (g.relocate f) = (foldConstants g).relocate f := by
  have hconstant (g : Circuit) (id : NodeId) (strength : UInt8) :
      makeConstant (g.relocate f) id strength = (makeConstant g id strength).relocate f := by
    unfold makeConstant
    rw [inputs_relocate, ← removeLinks_relocate]
    congr 1
    exact modifyNode_relocate f g id fun _ => rfl
  have hnode (id : NodeId) (g : Circuit) :
      foldNode id (g.relocate f) = (foldNode id g).relocate f := by
    unfold foldNode
    rw [node?_relocate, hasConstantInputs_relocate, inputPower_relocate]
    cases g.node? id with
    | none => rfl
    | some n =>
        refine ite_eq_map_ite (Revision.relocate f) (fun _ => rfl) fun _ => ?_
        rw [Node.gate_relocate, Node.state_relocate]
        cases n.gate.fold n.state (g.inputPower id) with
        | none => rfl
        | some strength => exact congrArg Revision.once (hconstant g id strength)
  unfold foldConstants
  rw [nodeBound_relocate]
  refine Revision.untilStable_relocate (fun g => ?_) _ g
  unfold foldSweep
  rw [nodeIds_relocate]
  exact Revision.sweep_relocate hnode g.nodeIds g

theorem settleOutputs_relocate : settleOutputs (g.relocate f) = (settleOutputs g).relocate f := by
  have hsettle (g : Circuit) (id : NodeId) :
      settleNode (g.relocate f) id = (settleNode g id).relocate f := by
    unfold settleNode
    rw [inputPower_relocate]
    exact modifyNode_relocate f g id fun _ => rfl
  have hrefeed (g : Circuit) (id : NodeId) (main : UInt8) :
      refeed (g.relocate f) id main = (refeed g id main).relocate f := by
    unfold refeed feedConstant
    dsimp only
    rw [inputs_relocate, removeLinks_relocate, nodeBound_relocate]
    split
    · rw [← addLink_relocate, ← addNode_relocate]
      rfl
    · rfl
  unfold settleOutputs
  rw [nodeIds_relocate]
  refine Revision.sweep_relocate (fun id g => ?_) g.nodeIds g
  unfold settleOutput
  rw [node?_relocate, hasConstantInputs_relocate, inputs_relocate, inputPower_relocate, hsettle,
    hrefeed]
  have hsettled : isSettled (g.relocate f) id = isSettled g id := by
    unfold isSettled
    rw [inLinks_relocate]
  rw [hsettled]
  cases g.node? id with
  | none => rfl
  | some n =>
      refine ite_eq_map_ite (Revision.relocate f) (fun _ => rfl) fun _ => ?_
      exact ite_eq_map_ite (Revision.relocate f) (fun _ => rfl) fun _ => rfl

theorem removeUnreachable_relocate :
    Pass.removeUnreachable (g.relocate f) =
      ((Pass.removeUnreachable g).1.relocate f, (Pass.removeUnreachable g).2) := by
  have hsettled := settleOutputs_relocate f (pruneDeadLinks g).circuit
  unfold Pass.removeUnreachable
  dsimp only
  rw [pruneDeadLinks_relocate]
  change ((settleOutputs ((pruneDeadLinks g).circuit.relocate f)).circuit,
    [(pruneDeadLinks g).changes,
      (settleOutputs ((pruneDeadLinks g).circuit.relocate f)).changes]) = _
  rw [hsettled]
  rfl

/-! ## Analog buses -/

theorem busLine?_relocate (i : LinkId) : busLine? (g.relocate f) i = busLine? g i := by
  unfold busLine?
  simp only [link?_relocate, node?_relocate, inputs_relocate, outputs_relocate, Option.bind_eq_bind,
    Option.bind_map]
  rfl

/-- Buses are told by kinds, losses and levels, not by where their repeaters stand. -/
theorem busLines?_relocate (source : NodeId) :
    busLines? (g.relocate f) source = busLines? g source := by
  have hline : busLine? (g.relocate f) = busLine? g := funext (busLine?_relocate f g)
  unfold busLines?
  simp only [hline, node?_relocate, outputs_relocate, Option.bind_eq_bind, Option.bind_map]
  rfl

theorem replaceBus_relocate (source : NodeId) (lines : List BusLine) (first : BusLine) :
    replaceBus (g.relocate f) source lines first =
      (replaceBus g source lines first).relocate f := by
  have hbare : lines.foldl (fun g line => g.removeNode line.repeater) (g.relocate f) =
      (lines.foldl (fun g line => g.removeNode line.repeater) g).relocate f :=
    List.foldl_hom (relocate f) fun g line => removeNode_relocate f g line.repeater
  unfold replaceBus
  dsimp only
  rw [hbare, nodeBound_relocate, node?_relocate, Option.map_map, ← addLink_relocate,
    ← addLink_relocate, ← addNode_relocate]
  rfl

theorem collapseBuses_relocate : collapseBuses (g.relocate f) = (collapseBuses g).relocate f := by
  unfold collapseBuses
  rw [nodeIds_relocate]
  refine Revision.sweep_relocate (fun id g => ?_) g.nodeIds g
  unfold collapseBusAt
  rw [node?_relocate, Option.any_map]
  refine ite_eq_map_ite (Revision.relocate f) (fun _ => ?_) fun _ => rfl
  unfold collapseBus
  rw [busLines?_relocate]
  match busLines? g id with
  | none => rfl
  | some [] => rfl
  | some (first :: rest) =>
      exact congrArg Revision.once (replaceBus_relocate f g id (first :: rest) first)

/-! ## Sharing constants -/

/-- The sharing with its circuit relocated. -/
def Sharing.relocate (s : Sharing) : Sharing :=
  { s with circuit := s.circuit.relocate f }

/-- The sharing of a constant with its circuit relocated. -/
def Share.relocate (s : Share) : Share :=
  { s with circuit := s.circuit.relocate f }

/-- The connected parts depend on links only. -/
theorem components_relocate : components (g.relocate f) = components g := by
  unfold components
  rw [linkIds_relocate, nodeBound_relocate]
  refine List.foldl_ext _ _ _ fun s l _ => ?_
  rw [node?_relocate, Option.any_map]
  rfl

theorem move_relocate (s : Share) (i : LinkId) (server : NodeId) :
    (s.relocate f).move i server = (s.move i server).relocate f := by
  change { s with circuit := (s.circuit.relocate f).setSource i server, moved := true } = _
  rw [setSource_relocate]
  rfl

/-- A further constant has no blocks, and its name depends on the number of slots only. -/
theorem addServer_relocate (s : Share) (d : Demand) (strength : UInt8) :
    ({ s.relocate f with
      circuit := (s.circuit.relocate f).addNode (.constant strength)
      servers := (d, (s.circuit.relocate f).nodeBound) :: s.servers } : Share) =
    Share.relocate f
      { s with
        circuit := s.circuit.addNode (.constant strength)
        servers := (d, s.circuit.nodeBound) :: s.servers } := by
  have hnode := addNode_relocate f s.circuit (.constant strength)
  unfold Share.relocate
  dsimp only
  rw [nodeBound_relocate, ← hnode]
  rfl

/-- Whether a link is moved depends on names and strengths only. -/
theorem shareLink_relocate (part : NodeId → Nat) (id : NodeId) (strength : UInt8) (s : Share)
    (i : LinkId) :
    shareLink part id strength (s.relocate f) i = (shareLink part id strength s i).relocate f := by
  have hlink : (s.relocate f).circuit.link? i = s.circuit.link? i := rfl
  have hservers : (s.relocate f).servers = s.servers := rfl
  unfold shareLink
  rw [hlink, hservers]
  cases s.circuit.link? i with
  | none => rfl
  | some l =>
      dsimp only
      cases s.servers.lookup (part l.target, strength) with
      | some server =>
          exact ite_eq_map_ite (Share.relocate f) (fun _ => rfl) fun _ => move_relocate f s i server
      | none =>
          refine ite_eq_map_ite (Share.relocate f) (fun _ => ?_) fun _ => rfl
          rw [← move_relocate, ← addServer_relocate]
          congr 1
          exact nodeBound_relocate f s.circuit

/-- A sharing and a count, with the circuit relocated. -/
def relocateFirst (acc : Sharing × Nat) : Sharing × Nat :=
  (acc.1.relocate f, acc.2)

theorem shareConstant_relocate (part : NodeId → Nat) (id : NodeId) (strength : UInt8)
    (s : Sharing) :
    shareConstant part id strength (s.relocate f) =
      relocateFirst f (shareConstant part id strength s) := by
  have hshare :
      ((s.relocate f).circuit.outputs id).foldl (shareLink part id strength)
          { s.relocate f with serves := false, moved := false } =
        ((s.circuit.outputs id).foldl (shareLink part id strength)
          { s with serves := false, moved := false }).relocate f := by
    rw [← List.foldl_hom (Share.relocate f) fun s i => shareLink_relocate f part id strength s i]
    exact congrArg (List.foldl _ _) (outputs_relocate f s.circuit id)
  unfold shareConstant
  dsimp only
  rw [hshare]
  generalize (s.circuit.outputs id).foldl (shareLink part id strength) _ = share
  change (if share.moved && ((share.circuit.relocate f).outputs id).isEmpty then _ else _) = _
  rw [outputs_relocate]
  refine ite_eq_map_ite (relocateFirst f) (fun _ => ?_) fun _ => rfl
  change (Sharing.mk ((share.circuit.relocate f).removeNode id) _, 1) = _
  rw [removeNode_relocate]
  rfl

theorem shareNode_relocate (part : NodeId → Nat) (acc : Sharing × Nat) (id : NodeId) :
    shareNode part (relocateFirst f acc) id = relocateFirst f (shareNode part acc id) := by
  have hnode : (relocateFirst f acc).1.circuit.node? id =
      (acc.1.circuit.node? id).map (Node.relocate f) := node?_relocate f acc.1.circuit id
  unfold shareNode
  rw [hnode]
  cases acc.1.circuit.node? id with
  | none => rfl
  | some n =>
      refine ite_eq_map_ite (relocateFirst f) (fun _ => ?_) fun _ => rfl
      change ((shareConstant part id n.state.strength (acc.1.relocate f)).1,
        acc.2 + (shareConstant part id n.state.strength (acc.1.relocate f)).2) = _
      rw [shareConstant_relocate]
      rfl

theorem shareConstants_relocate :
    shareConstants (g.relocate f) = (shareConstants g).relocate f := by
  have hparts :
      g.nodeIds.foldl (shareNode (components g).root)
          (relocateFirst f ({ circuit := g, servers := [] }, 0)) =
        relocateFirst f
          (g.nodeIds.foldl (shareNode (components g).root) ({ circuit := g, servers := [] }, 0)) :=
    List.foldl_hom (relocateFirst f) fun acc id => shareNode_relocate f _ acc id
  unfold shareConstants
  dsimp only
  rw [components_relocate, nodeIds_relocate]
  exact congrArg (fun out : Sharing × Nat => Revision.mk out.1.circuit out.2) hparts

/-! ## Merging duplicates and removing orphans -/

theorem takeOver_relocate (into : NodeId) (i : LinkId) :
    takeOver into (g.relocate f) i = (takeOver into g i).relocate f := by
  have hparallel (target : NodeId) (channel : Channel) :
      parallelOutput? (g.relocate f) into target channel =
        parallelOutput? g into target channel := by
    unfold parallelOutput?
    rw [outputs_relocate]
    rfl
  unfold takeOver
  rw [link?_relocate]
  cases g.link? i with
  | none => rfl
  | some l =>
      dsimp only
      rw [hparallel]
      cases parallelOutput? g into l.target l.channel with
      | none => exact setSource_relocate f g i into
      | some p =>
          refine ite_eq_map_ite (relocate f) (fun _ => removeLink_relocate f g i) fun _ => ?_
          rw [removeLink_relocate, setSource_relocate]

/-- The blocks of both nodes are moved before or after they are put together. -/
theorem merge_relocate (twin into : NodeId) :
    merge (g.relocate f) twin into = (merge g twin into).relocate f := by
  have hfold : (g.outputs twin).foldl (takeOver into) (g.relocate f) =
      ((g.outputs twin).foldl (takeOver into) g).relocate f :=
    List.foldl_hom (relocate f) fun g i => takeOver_relocate f g into i
  unfold merge
  dsimp only
  -- the blocks of the twin are appended at their new places
  rw [outputs_relocate, hfold, node?_relocate, ← removeNode_relocate]
  congr 1
  refine modifyNode_relocate f _ into fun n => ?_
  cases ((g.outputs twin).foldl (takeOver into) g).node? twin with
  | none => simp [Node.relocate]
  | some m => simp [Node.relocate]

/-- Duplicates are recognized without a look at their blocks. -/
theorem twin?_relocate (source into : NodeId) (l : Link) (i : LinkId) :
    twin? (g.relocate f) source into l i = twin? g source into l i := by
  unfold twin?
  simp only [link?_relocate, node?_relocate, inputs_relocate, Option.bind_eq_bind, Option.bind_map]
  rfl

theorem soleLink?_relocate (id : NodeId) : soleLink? (g.relocate f) id = soleLink? g id := by
  unfold soleLink?
  simp only [link?_relocate, node?_relocate, inputs_relocate, Option.bind_eq_bind, Option.bind_map]
  rfl

theorem mergeTwins_relocate (id : NodeId) :
    mergeTwins id (g.relocate f) = (mergeTwins id g).relocate f := by
  unfold mergeTwins
  rw [soleLink?_relocate]
  cases soleLink? g id with
  | none => rfl
  | some l =>
      dsimp only
      rw [outputs_relocate]
      refine Revision.sweep_relocate (fun i g => ?_) (g.outputs l.source) g
      unfold mergeTwin
      rw [twin?_relocate]
      cases twin? g l.source id l i with
      | none => rfl
      | some twin => exact congrArg Revision.once (merge_relocate f g twin id)

theorem mergeDuplicates_relocate :
    mergeDuplicates (g.relocate f) = (mergeDuplicates g).relocate f := by
  unfold mergeDuplicates
  rw [nodeBound_relocate]
  refine Revision.untilStable_relocate (fun g => ?_) _ g
  unfold mergeSweep
  rw [nodeIds_relocate]
  exact Revision.sweep_relocate (fun id g => mergeTwins_relocate f g id) g.nodeIds g

theorem pruneOrphans_relocate : pruneOrphans (g.relocate f) = (pruneOrphans g).relocate f := by
  have hnode (id : NodeId) (g : Circuit) :
      pruneNode id (g.relocate f) = (pruneNode id g).relocate f := by
    have horphan : isOrphan (g.relocate f) id = isOrphan g id := by
      unfold isOrphan
      rw [node?_relocate, Option.any_map, outputs_relocate]
      rfl
    unfold pruneNode
    rw [horphan]
    refine ite_eq_map_ite (Revision.relocate f) (fun _ => ?_) fun _ => rfl
    exact congrArg Revision.once (removeNode_relocate f g id)
  unfold pruneOrphans
  rw [nodeBound_relocate]
  refine Revision.untilStable_relocate (fun g => ?_) _ g
  unfold pruneSweep
  rw [nodeIds_relocate]
  exact Revision.sweep_relocate hnode g.nodeIds.reverse g

end Optimize

end Redstone
