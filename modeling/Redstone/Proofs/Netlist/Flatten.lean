import Redstone.Netlist.Flatten
import Redstone.Proofs.Artifact.RoundTrip
import Redstone.Proofs.Circuit.Range

/-!
# The netlist of a circuit

A circuit in range with not too many nodes has a netlist, which is written out here.  Its nodes
are those of the circuit in the order of their names, and it is valid: it can be written to an
artifact and read back.
-/

namespace Redstone

theorem GateType.code_le_of_isDefined {t : GateType} (h : t.isDefined = true) :
    t.code ≤ GateType.noteBlock.code := by
  cases t with
  | undefined e => cases h
  | _ => decide

namespace Circuit

/-- The input of the netlist for a link. -/
def flatInput (ids : List NodeId) (l : Link) : NetInput :=
  { channel := l.channel, loss := l.loss, source := netIndex ids l.source }

/-- The node of the netlist for a node of the circuit, without forward links. -/
def flatNode (g : Circuit) (id : NodeId) (n : Node) : NetNode :=
  { n with
    inputs := (g.inLinks id).map (flatInput g.nodeIds)
    outputs := (g.successors id).map (netIndex g.nodeIds) }

/-- The nodes of the netlist of a circuit, without forward links. -/
def flatNodes (g : Circuit) : List NetNode :=
  g.nodes.map fun p => g.flatNode p.1 p.2

variable {g : Circuit}

theorem map_fst_nodes (g : Circuit) : g.nodes.map Prod.fst = g.nodeIds := by
  have hsub (ids : List NodeId) (hids : ∀ id ∈ ids, g.contains id = true) :
      (ids.filterMap fun id => (g.node? id).map (id, ·)).map Prod.fst = ids := by
    induction ids with
    | nil => rfl
    | cons id ids ih =>
        obtain ⟨n, hn⟩ := contains_iff.mp (hids id List.mem_cons_self)
        have hfirst : (g.node? id).map (id, ·) = some (id, n) := by rw [hn, Option.map_some]
        rw [List.filterMap_cons_some (by exact hfirst), List.map_cons,
          ih fun j hj => hids j (List.mem_cons_of_mem _ hj)]
  exact hsub g.nodeIds fun id hid => mem_nodeIds.mp hid

theorem length_flatNodes (g : Circuit) : g.flatNodes.length = g.nodeIds.length := by
  rw [flatNodes, List.length_map, ← map_fst_nodes, List.length_map]

theorem mapM_eq_ok {α β ε : Type} {f : α → Except ε β} {h : α → β} {xs : List α}
    (hf : ∀ x ∈ xs, f x = .ok (h x)) : xs.mapM f = .ok (xs.map h) := by
  induction xs with
  | nil => rfl
  | cons x xs ih =>
      rw [List.mapM_cons, hf x List.mem_cons_self,
        ih fun x' hx' => hf x' (List.mem_cons_of_mem _ hx')]
      rfl

/-- A circuit whose losses are in range and that has not too many nodes has a netlist. -/
theorem flatten_eq (hloss : ∀ {i l}, g.link? i = some l → l.loss ≤ maxStrength)
    (hcount : g.nodeIds.length ≤ ForwardLink.maxNodes) :
    g.flatten = .ok (Netlist.relink { nodes := g.flatNodes.toArray }) := by
  have hnode (p : NodeId × Node) : g.flattenNode g.nodeIds p.1 p.2 = .ok (g.flatNode p.1 p.2) := by
    have hinputs : (g.inLinks p.1).mapM (flattenLink g.nodeIds) =
        .ok ((g.inLinks p.1).map (flatInput g.nodeIds)) := by
      refine mapM_eq_ok fun l hl => ?_
      obtain ⟨i, -, hi⟩ := List.mem_filterMap.mp hl
      rw [flattenLink, if_neg (UInt8.not_lt.mpr (hloss hi))]
      rfl
    rw [flattenNode, hinputs]
    rfl
  have hnodes : g.nodes.mapM (fun p => g.flattenNode g.nodeIds p.1 p.2) = .ok g.flatNodes :=
    mapM_eq_ok fun p _ => hnode p
  unfold flatten
  dsimp only
  rw [if_neg (Nat.not_lt.mpr hcount)]
  change (g.nodes.mapM (fun p => g.flattenNode g.nodeIds p.1 p.2) >>= _) = _
  rw [hnodes]
  rfl

/-- A circuit with too many nodes has no netlist. -/
theorem flatten_of_lt (hcount : ForwardLink.maxNodes < g.nodeIds.length) :
    g.flatten = .error (.tooManyNodes g.nodeIds.length) := by
  unfold flatten
  dsimp only
  rw [if_pos hcount]
  rfl

/-! ## Its nodes are valid -/

theorem toNat_netIndex (hcount : g.nodeIds.length ≤ ForwardLink.maxNodes) {id : NodeId}
    (hid : g.contains id = true) : (netIndex g.nodeIds id).toNat = g.nodeIds.idxOf id := by
  have hlt := List.idxOf_lt_length_of_mem (mem_nodeIds.mpr hid)
  refine UInt32.toNat_ofNat_of_lt (Nat.lt_of_lt_of_le hlt (Nat.le_trans hcount ?_))
  decide

theorem netIndex_lt (hcount : g.nodeIds.length ≤ ForwardLink.maxNodes) {id : NodeId}
    (hid : g.contains id = true) : (netIndex g.nodeIds id).toNat < g.nodeIds.length := by
  rw [toNat_netIndex hcount hid]
  exact List.idxOf_lt_length_of_mem (mem_nodeIds.mpr hid)

theorem WellFormed.length_inputs_le (h : g.WellFormed) (id : NodeId) :
    (g.inputs id).length ≤ g.linkCount := by
  rw [h.linkCount_eq]
  refine ((h.inputs_nodup id).subperm fun i hi => ?_).length_le
  obtain ⟨l, hl, -⟩ := h.mem_inputs_iff.mp hi
  exact mem_linkIds.mpr ⟨l, hl⟩

theorem WellFormed.length_outputs_le (h : g.WellFormed) (id : NodeId) :
    (g.outputs id).length ≤ g.linkCount := by
  rw [h.linkCount_eq]
  refine ((h.outputs_nodup id).subperm fun i hi => ?_).length_le
  obtain ⟨l, hl, -⟩ := h.mem_outputs_iff.mp hi
  exact mem_linkIds.mpr ⟨l, hl⟩

theorem length_eraseDups_le {α : Type} [BEq α] (xs : List α) : xs.eraseDups.length ≤ xs.length := by
  match xs with
  | [] => exact Nat.le_refl _
  | x :: xs =>
      rw [List.eraseDups_cons, List.length_cons, List.length_cons]
      exact Nat.succ_le_succ (Nat.le_trans (length_eraseDups_le _) (List.length_filter_le _ _))
termination_by xs.length
decreasing_by exact Nat.lt_succ_of_le (List.length_filter_le _ _)

theorem WellFormed.length_successors_le (h : g.WellFormed) (id : NodeId) :
    (g.successors id).length ≤ g.linkCount := by
  calc (g.successors id).length ≤ ((g.outLinks id).map Link.target).length := length_eraseDups_le _
    _ = (g.outLinks id).length := List.length_map ..
    _ ≤ (g.outputs id).length := List.length_filterMap_le ..
    _ ≤ g.linkCount := h.length_outputs_le id

theorem length_blocks_le {id : NodeId} {n : Node} (hn : g.node? id = some n) :
    n.blocks.length ≤ g.allBlocks.length := by
  have hblocks : g.blocksAt id = n.blocks := by
    rw [blocksAt, hn]
    rfl
  have hperm := Lineage.allBlocks_perm_of_contains (contains_of_node? hn)
  rw [hperm.length_eq, List.length_append, hblocks]
  exact Nat.le_add_right _ _

/-- The nodes of a sound circuit are valid in its netlist, as long as their lists are not too
long. -/
theorem valid_flatNode (h : g.Regular) (hrange : g.InRange)
    (hcount : g.nodeIds.length ≤ ForwardLink.maxNodes) (hlinks : g.linkCount < UInt32.size)
    (hblocks : g.allBlocks.length < UInt32.size) {id : NodeId} {n : Node}
    (hn : g.node? id = some n) : (g.flatNode id n).Valid g.nodeIds.length where
  type_le := GateType.code_le_of_isDefined (h.nodes hn).defined
  mode := (hrange.node hn).mode
  strength_le := (hrange.node hn).strength_le
  channel := by
    intro input hinput
    obtain ⟨l, hl, rfl⟩ := List.mem_map.mp hinput
    obtain ⟨i, hi, -⟩ := h.wellFormed.mem_inLinks_iff.mp hl
    exact (hrange.link hi).channel
  loss_le := by
    intro input hinput
    obtain ⟨l, hl, rfl⟩ := List.mem_map.mp hinput
    obtain ⟨i, hi, -⟩ := h.wellFormed.mem_inLinks_iff.mp hl
    exact (hrange.link hi).loss_le
  source_lt := by
    intro input hinput
    obtain ⟨l, hl, rfl⟩ := List.mem_map.mp hinput
    obtain ⟨i, hi, -⟩ := h.wellFormed.mem_inLinks_iff.mp hl
    exact netIndex_lt hcount (h.wellFormed.contains_source hi)
  output_lt := by
    intro output houtput
    obtain ⟨target, htarget, rfl⟩ := List.mem_map.mp houtput
    obtain ⟨l, hl, rfl⟩ := List.mem_map.mp (List.mem_eraseDups.mp htarget)
    obtain ⟨i, hi, -⟩ := h.wellFormed.mem_outLinks_iff.mp hl
    exact netIndex_lt hcount (h.wellFormed.contains_target hi)
  blocks_lt := Nat.lt_of_le_of_lt (length_blocks_le hn) hblocks
  inputs_lt := by
    change ((g.inLinks id).map _).length < _
    rw [List.length_map]
    exact Nat.lt_of_le_of_lt
      (Nat.le_trans (List.length_filterMap_le ..) (h.wellFormed.length_inputs_le id)) hlinks
  outputs_lt := by
    change ((g.successors id).map _).length < _
    rw [List.length_map]
    exact Nat.lt_of_le_of_lt (h.wellFormed.length_successors_le id) hlinks

/-- A sound circuit that is not too large has a netlist, and this netlist is valid. -/
theorem exists_flatten (h : g.Regular) (hrange : g.InRange)
    (hcount : g.nodeCount ≤ ForwardLink.maxNodes) (hlinks : g.linkCount < UInt32.size)
    (hblocks : g.allBlocks.length < UInt32.size) : ∃ n, g.flatten = .ok n ∧ n.Valid := by
  rw [h.wellFormed.nodeCount_eq] at hcount
  refine ⟨_, flatten_eq (fun hl => (hrange.link hl).loss_le) hcount, ?_⟩
  refine Artifact.valid_relink (length_flatNodes g ▸ hcount) fun node hnode => ?_
  obtain ⟨p, hp, rfl⟩ := List.mem_map.mp hnode
  rw [length_flatNodes]
  exact valid_flatNode h hrange hcount hlinks hblocks (mem_nodes.mp hp)

end Circuit

end Redstone
