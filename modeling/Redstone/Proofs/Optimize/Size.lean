import Mathlib.Algebra.Order.Group.Nat
import Mathlib.Data.Finset.Prod
import Redstone.Proofs.Optimize.Gates
import Redstone.Proofs.Optimize.Range

/-!
# The number of nodes under optimization

Only two passes can leave more nodes than they find: the one that gives settled outputs constants
of their own, at most one for each output, and the one that gives connected parts constants of
their own, at most one for each strength.  All others keep the nodes or remove some; a bus is
replaced by one node where it had fifteen.
-/

namespace Redstone

namespace Optimize

open Circuit

variable {g : Circuit}

theorem nodeIds_removeLinks (g : Circuit) (ids : List LinkId) :
    (g.removeLinks ids).nodeIds = g.nodeIds :=
  nodeIds_congr (nodeBound_removeLinks ids) (contains_removeLinks ids)

theorem nodeIds_setSource (g : Circuit) (i : LinkId) (source : NodeId) :
    (g.setSource i source).nodeIds = g.nodeIds :=
  nodeIds_congr (nodeBound_setSource i source) (contains_setSource i source)

theorem nodeIds_addLink (g : Circuit) (l : Link) : (g.addLink l).nodeIds = g.nodeIds :=
  nodeIds_congr (nodeBound_addLink l) (contains_addLink l)

theorem nodeIds_modifyNode (g : Circuit) (id : NodeId) (f : Node → Node) :
    (g.modifyNode id f).nodeIds = g.nodeIds :=
  nodeIds_congr (g.nodeBound_modifyNode id f) fun j => g.contains_modifyNode id j f

theorem length_nodeIds_removeNode_le (g : Circuit) (id : NodeId) :
    (g.removeNode id).nodeIds.length ≤ g.nodeIds.length := by
  rw [nodeIds_removeNode]
  exact List.length_erase_le

/-! ## Buses -/

theorem length_nodeIds_withoutLines_le (g : Circuit) (lines : List BusLine) :
    (withoutLines g lines).nodeIds.length ≤ g.nodeIds.length :=
  withoutLines_keeps (P := fun g' => g'.nodeIds.length ≤ g.nodeIds.length)
    (fun hg _ _ => Nat.le_trans (length_nodeIds_removeNode_le _ _) hg) (Nat.le_refl _)

/-- At least one repeater goes for the comparator that comes. -/
theorem length_nodeIds_replaceBus_le {source : NodeId} {first : BusLine} {rest : List BusLine}
    (h : Bus g source (first :: rest) first) :
    (replaceBus g source (first :: rest) first).nodeIds.length ≤ g.nodeIds.length := by
  obtain ⟨n, hn, -⟩ := (h.line List.mem_cons_self).node
  have hmem : first.repeater ∈ g.nodeIds := mem_nodeIds.mpr (contains_of_node? hn)
  have hless : (withoutLines g (first :: rest)).nodeIds.length + 1 ≤ g.nodeIds.length := by
    have hrest := length_nodeIds_withoutLines_le (g.removeNode first.repeater) rest
    rw [nodeIds_removeNode, List.length_erase_of_mem hmem] at hrest
    have hpos := List.length_pos_of_mem hmem
    change (withoutLines (g.removeNode first.repeater) rest).nodeIds.length + 1 ≤ _
    omega
  rw [replaceBus_eq, nodeIds_addLink, nodeIds_addLink, nodeIds_addNode, List.length_append]
  exact hless

theorem length_nodeIds_collapseBuses_le (h : g.Regular) :
    (collapseBuses g).circuit.nodeIds.length ≤ g.nodeIds.length := by
  refine (collapseBuses_keeps
    (P := fun g' => g'.Regular ∧ g'.nodeIds.length ≤ g.nodeIds.length)
    (fun {g' id first rest} hg hcomparator hlines => ?_) ⟨h, Nat.le_refl _⟩).2
  have hbus := bus_of_busLines? hg.1.wellFormed hcomparator hlines
  exact ⟨(hbus.refines_replaceBus hg.1).regular,
    Nat.le_trans (length_nodeIds_replaceBus_le hbus) hg.2⟩

/-! ## Folding, merging and pruning -/

theorem nodeIds_clampLosses (g : Circuit) : (clampLosses g).circuit.nodeIds = g.nodeIds := rfl

theorem nodeIds_foldConstants (g : Circuit) : (foldConstants g).circuit.nodeIds = g.nodeIds := by
  refine foldConstants_keeps (P := fun g' => g'.nodeIds = g.nodeIds) (fun hg _ _ _ => ?_) rfl
  rw [makeConstant, nodeIds_removeLinks, nodeIds_modifyNode, hg]

theorem nodeIds_merge (g : Circuit) (twin into : NodeId) :
    (merge g twin into).nodeIds = g.nodeIds.erase twin := by
  have hmoved (ids : List LinkId) : (ids.foldl (takeOver into) g).nodeIds = g.nodeIds :=
    foldl_takeOver_keeps (P := fun g' => g'.nodeIds = g.nodeIds)
      (fun hg => (nodeIds_setSource _ _ into).trans hg)
      (fun hg => (nodeIds_removeLinks _ [_]).trans hg) rfl ids
  unfold merge
  dsimp only
  rw [nodeIds_removeNode, nodeIds_modifyNode, hmoved]

theorem length_nodeIds_mergeDuplicates_le (g : Circuit) :
    (mergeDuplicates g).circuit.nodeIds.length ≤ g.nodeIds.length := by
  refine mergeDuplicates_keeps (P := fun g' => g'.nodeIds.length ≤ g.nodeIds.length)
    (fun hg _ => Nat.le_trans ?_ hg) (Nat.le_refl _)
  rw [nodeIds_merge]
  exact List.length_erase_le

theorem length_nodeIds_pruneOrphans_le (g : Circuit) :
    (pruneOrphans g).circuit.nodeIds.length ≤ g.nodeIds.length :=
  pruneOrphans_keeps (P := fun g' => g'.nodeIds.length ≤ g.nodeIds.length)
    (fun hg _ _ _ => Nat.le_trans (length_nodeIds_removeNode_le _ _) hg) (Nat.le_refl _)

/-! ## Constants for outputs -/

theorem length_nodeIds_settleOutput_le (id : NodeId) (g : Circuit) :
    (settleOutput id g).circuit.nodeIds.length ≤ g.nodeIds.length + 1 := by
  have hsettled : (settleNode g id).nodeIds = g.nodeIds := nodeIds_modifyNode g id _
  refine settleOutput_keeps (P := fun g' => g'.nodeIds.length ≤ g.nodeIds.length + 1) (fun _ => ?_)
    (fun _ _ => refeed_keeps (P := fun g' => g'.nodeIds.length ≤ g.nodeIds.length + 1) ?_
      fun _ _ => ?_) (Nat.le_succ _)
  · rw [hsettled]
    exact Nat.le_succ _
  · rw [nodeIds_removeLinks, hsettled]
    exact Nat.le_succ _
  · rw [feedConstant, nodeIds_addLink, nodeIds_addNode, nodeIds_removeLinks, hsettled,
      List.length_append]
    exact Nat.le_of_eq rfl

/-- Each output gets one constant at most. -/
theorem length_nodeIds_removeUnreachable_le (g : Circuit) :
    (Pass.removeUnreachable g).1.nodeIds.length ≤ g.nodeIds.length * 2 := by
  have hpruned : (pruneDeadLinks g).circuit.nodeIds = g.nodeIds :=
    pruneDeadLinks_keeps (P := fun g' => g'.nodeIds = g.nodeIds)
      (fun hg => (nodeIds_removeLinks _ _).trans hg) rfl
  have hsettled (ids : List NodeId) (g : Circuit) :
      (Revision.sweep settleOutput ids g).circuit.nodeIds.length ≤
        g.nodeIds.length + ids.length := by
    induction ids generalizing g with
    | nil => exact Nat.le_refl _
    | cons id ids ih =>
        rw [Revision.sweep_cons, List.length_cons]
        have hfirst := length_nodeIds_settleOutput_le id g
        have hrest := ih (settleOutput id g).circuit
        change (Revision.sweep settleOutput ids (settleOutput id g).circuit).circuit.nodeIds.length
          ≤ _
        omega
  have hall := hsettled (pruneDeadLinks g).circuit.nodeIds (pruneDeadLinks g).circuit
  change (settleOutputs (pruneDeadLinks g).circuit).circuit.nodeIds.length ≤ _
  rw [settleOutputs]
  rw [hpruned] at hall ⊢
  omega

/-! ## Constants for connected parts -/

/-- The sharing has added no more nodes than it has servers, and it has one server at most for each
strength and each part with a node of `g`. -/
structure Sharing.Counted (g : Circuit) (part : NodeId → Nat) (s : Sharing) : Prop where
  gates : GatesWithin g s.circuit
  nodes_le : s.circuit.nodeIds.length ≤ g.nodeIds.length + s.servers.length
  demands_nodup : (s.servers.map Prod.fst).Nodup
  demands : ∀ d ∈ s.servers.map Prod.fst,
    d.1 ∈ g.nodeIds.map part ∧ d.2 ∈ (List.range 16).map UInt8.ofNat

namespace Sharing.Counted

variable {g' : Circuit} {part : NodeId → Nat} {s : Sharing}

/-- A part and a strength have one server, and there are sixteen strengths. -/
theorem length_servers_le (h : Sharing.Counted g part s) :
    s.servers.length ≤ g.nodeIds.length * 16 := by
  have hsub : s.servers.map Prod.fst ⊆ g.nodeIds.map part ×ˢ (List.range 16).map UInt8.ofNat :=
    fun d hd => List.mem_product.mpr (h.demands d hd)
  have hlength := (h.demands_nodup.subperm hsub).length_le
  rw [List.length_map, List.length_product, List.length_map, List.length_map,
    List.length_range] at hlength
  exact hlength

/-- A new demand gets a server. -/
theorem addDemand (h : Sharing.Counted g part s) {d : Demand} (hfresh : s.servers.lookup d = none)
    (hd : d.1 ∈ g.nodeIds.map part ∧ d.2 ∈ (List.range 16).map UInt8.ofNat)
    (hgates : GatesWithin g g') (hnodes : g'.nodeIds.length ≤ s.circuit.nodeIds.length + 1)
    (server : NodeId) :
    Sharing.Counted g part { circuit := g', servers := (d, server) :: s.servers } where
  gates := hgates
  nodes_le := by
    have hle := h.nodes_le
    change g'.nodeIds.length ≤ g.nodeIds.length + (s.servers.length + 1)
    omega
  demands_nodup := by
    rw [List.map_cons, List.nodup_cons]
    refine ⟨fun hmem => ?_, h.demands_nodup⟩
    obtain ⟨p, hp, hpd⟩ := List.mem_map.mp hmem
    have hne := List.lookup_eq_none_iff.mp hfresh p hp
    rw [hpd] at hne
    simp at hne
  demands := by
    intro d' hd'
    rw [List.map_cons, List.mem_cons] at hd'
    rcases hd' with rfl | hd'
    · exact hd
    · exact h.demands d' hd'

/-- The circuit changes without new nodes. -/
theorem withCircuit (h : Sharing.Counted g part s) (hgates : GatesWithin g g')
    (hnodes : g'.nodeIds.length ≤ s.circuit.nodeIds.length) :
    Sharing.Counted g part { s with circuit := g' } where
  gates := hgates
  nodes_le := Nat.le_trans hnodes h.nodes_le
  demands_nodup := h.demands_nodup
  demands := h.demands

theorem mem_range_of_le {strength : UInt8} (h : strength ≤ maxStrength) :
    strength ∈ (List.range 16).map UInt8.ofNat := by
  have hlt : strength.toNat < 16 := Nat.lt_succ_of_le (UInt8.le_iff_toNat_le.mp h)
  exact List.mem_map.mpr ⟨strength.toNat, List.mem_range.mpr hlt, UInt8.ofNat_toNat⟩

/-- A link ends at a node that was there before, since new nodes are constants. -/
theorem mem_of_link? (h : GatesWithin g g') (hregular : g'.Regular) {i : LinkId} {l : Link}
    (hl : g'.link? i = some l) : l.target ∈ g.nodeIds := by
  obtain ⟨m, hm⟩ := contains_iff.mp (hregular.wellFormed.contains_target hl)
  have hsource := hregular.source_free hl hm
  rcases h _ m hm with hconst | ⟨n, hn, -⟩
  · rw [hconst] at hsource
    cases hsource
  · exact mem_nodeIds.mpr (contains_of_node? hn)

theorem shareLink {later : List NodeId} {id : NodeId} {n : Node} {i : LinkId} {rest : List LinkId}
    {s : Share} (h : Sharing.Counted g part s.toSharing)
    (hsound : Share.Sound g later id n (i :: rest) s) (hstrength : n.state.strength ≤ maxStrength) :
    Sharing.Counted g part (shareLink part id n.state.strength s i).toSharing := by
  have hdemand {l : Link} (hl : s.circuit.link? i = some l) : part l.target ∈ g.nodeIds.map part ∧
      n.state.strength ∈ (List.range 16).map UInt8.ofNat :=
    ⟨List.mem_map_of_mem (mem_of_link? h.gates hsound.refines.regular hl),
      mem_range_of_le hstrength⟩
  rcases shareLink_cases part id n.state.strength s i with
    ⟨heq, -⟩ | ⟨l, hl, ⟨server, -, -, heq⟩ | ⟨hfresh, ⟨-, heq⟩ | ⟨-, heq⟩⟩⟩
  · rw [heq]
    exact h
  · rw [heq]
    exact h.withCircuit (h.gates.setSource i server)
      (Nat.le_of_eq (congrArg List.length (nodeIds_setSource s.circuit i server)))
  · rw [heq]
    refine h.addDemand hfresh (hdemand hl) ((h.gates.addConstant n.state.strength).setSource i _)
      (Nat.le_of_eq ?_) _
    rw [nodeIds_setSource, nodeIds_addNode, List.length_append]
    rfl
  · rw [heq]
    exact h.addDemand hfresh (hdemand hl) h.gates (Nat.le_succ _) id

theorem foldl_shareLink {later : List NodeId} {id : NodeId} {n : Node} {rest : List LinkId}
    {s : Share} (h : Sharing.Counted g part s.toSharing)
    (hsound : Share.Sound g later id n rest s) (hnodup : rest.Nodup) (hlater : id ∉ later)
    (hconst : n.gate.isConstant = true) (hstrength : n.state.strength ≤ maxStrength) :
    Sharing.Counted g part
      (rest.foldl (Optimize.shareLink part id n.state.strength) s).toSharing := by
  induction rest generalizing s with
  | nil => exact h
  | cons i rest ih =>
      exact ih (h.shareLink hsound hstrength) (hsound.shareLink hnodup hlater hconst part)
        (List.nodup_cons.mp hnodup).2

theorem shareNode {later : List NodeId} {id : NodeId} {acc : Sharing × Nat}
    (h : Sharing.Counted g part acc.1) (hsound : Sharing.Sound g (id :: later) acc.1)
    (hlater : id ∉ later) : Sharing.Counted g part (shareNode part acc id).1 := by
  rcases shareNode_cases part acc id with ⟨heq, -⟩ | ⟨n, hn, hsharable, heq⟩
  · rw [heq]
    exact h
  rw [isSharable, Bool.and_eq_true] at hsharable
  have hregular := hsound.refines.regular
  have hshared := foldl_shareLink (s := { acc.1 with serves := false, moved := false }) h
    (hsound.share hn) (hregular.wellFormed.outputs_nodup id) hlater hsharable.1
    ((hregular.nodes hn).constant_le hsharable.1)
  rw [heq]
  rcases shareConstant_cases part id n.state.strength acc.1 with heq' | ⟨-, -, heq'⟩
  · rw [heq']
    exact hshared
  · rw [heq']
    exact hshared.withCircuit (hshared.gates.removeNode id) (length_nodeIds_removeNode_le _ id)

end Sharing.Counted

/-- The nodes that were there, and sixteen servers at most for each of them. -/
theorem length_nodeIds_shareConstants_le (h : g.Regular) :
    (shareConstants g).circuit.nodeIds.length ≤ g.nodeIds.length * 17 := by
  have hfold (later : List NodeId) (hnodup : later.Nodup) {acc : Sharing × Nat}
      (hsound : Sharing.Sound g later acc.1)
      (hcounted : Sharing.Counted g (components g).root acc.1) :
      Sharing.Counted g (components g).root
        (later.foldl (shareNode (components g).root) acc).1 := by
    induction later generalizing acc with
    | nil => exact hcounted
    | cons id later ih =>
        obtain ⟨hlater, hnodup⟩ := List.nodup_cons.mp hnodup
        exact ih hnodup (hsound.shareNode _ hlater) (hcounted.shareNode hsound hlater)
  have hstart : Sharing.Counted g (components g).root { circuit := g, servers := [] } :=
    ⟨.refl g, Nat.le_refl _, List.nodup_nil, nofun⟩
  have hend := @hfold g.nodeIds g.nodeIds_nodup ({ circuit := g, servers := [] }, 0) (.start h) hstart
  have hnodes := hend.nodes_le
  have hservers := hend.length_servers_le
  change (g.nodeIds.foldl (shareNode (components g).root) _).1.circuit.nodeIds.length ≤ _
  omega

end Optimize

namespace Pass

open Optimize

/-- How many times as many nodes as it finds a pass can leave. -/
def growth (pass : Pass) : Nat :=
  if pass.name = unreachableOutput.name then 2
  else if pass.name = constantCoalesce.name then 17
  else 1

theorem growth_pos (pass : Pass) : 0 < pass.growth := by
  unfold growth
  split
  · decide
  · split <;> decide

/-- Two of the revising passes make the circuit grow, and only so much. -/
theorem length_nodeIds_run_le {pass : Pass} (hpass : pass ∈ revisions) (settings : Settings)
    (scene : Option Scene) {w : Workspace} (h : w.circuit.Regular) :
    (pass.run settings scene w).1.circuit.nodeIds.length ≤
      w.circuit.nodeIds.length * pass.growth := by
  have hkeeps {g' : Circuit} (hle : g'.nodeIds.length ≤ w.circuit.nodeIds.length) :
      g'.nodeIds.length ≤ w.circuit.nodeIds.length * 1 := Nat.le_trans hle (Nat.le_of_eq (Nat.mul_one _).symm)
  simp only [revisions, List.mem_cons, List.not_mem_nil, or_false] at hpass
  rcases hpass with rfl | rfl | rfl | rfl | rfl | rfl | rfl | rfl
  · exact (circuit_run_ofRevision ..).symm ▸
      hkeeps (Nat.le_of_eq (congrArg List.length (nodeIds_clampLosses w.circuit)))
  · exact (circuit_run_ofRevision ..).symm ▸
      hkeeps (Nat.le_of_eq (congrArg List.length (nodeIds_removeLinks w.circuit _)))
  · exact (circuit_run_ofRevision ..).symm ▸ hkeeps (length_nodeIds_collapseBuses_le h)
  · exact (circuit_run_ofRevision ..).symm ▸
      hkeeps (Nat.le_of_eq (congrArg List.length (nodeIds_foldConstants w.circuit)))
  · exact (circuit_run_ofRevision ..).symm ▸ length_nodeIds_removeUnreachable_le w.circuit
  · exact (circuit_run_ofRevision ..).symm ▸ length_nodeIds_shareConstants_le h
  · exact (circuit_run_ofRevision ..).symm ▸ hkeeps (length_nodeIds_mergeDuplicates_le w.circuit)
  · exact (circuit_run_ofRevision ..).symm ▸ hkeeps (length_nodeIds_pruneOrphans_le w.circuit)

end Pass

end Redstone
