import Redstone.Netlist.Flatten
import Redstone.Proofs.Artifact.RoundTrip
import Redstone.Proofs.Circuit.Relocation

/-!
# Netlists at other places

The numbers and links of a netlist do not depend on where the blocks stand.  So the netlist of a
relocated circuit is the netlist of the circuit, relocated, and its artifact has as many bytes.
-/

namespace Redstone

variable (f : Position → Position)

/-- The node with its blocks at their new places. -/
def NetNode.relocate (n : NetNode) : NetNode :=
  { n with toNode := n.toNode.relocate f }

/-- The netlist with all blocks at their new places. -/
def Netlist.relocate (n : Netlist) : Netlist where
  nodes := n.nodes.map (NetNode.relocate f)

namespace Netlist

variable (n : Netlist)

@[simp] theorem size_relocate : (n.relocate f).size = n.size :=
  Array.size_map

@[simp] theorem wires_relocate : (n.relocate f).wires = n.wires := by
  unfold wires relocate
  rw [Array.toList_map, List.zipIdx_map, List.flatMap_map]
  rfl

@[simp] theorem relink_relocate : (n.relocate f).relink = n.relink.relocate f := by
  have hlinks : (n.relocate f).forwardLinks = n.forwardLinks := by
    unfold forwardLinks
    rw [wires_relocate, size_relocate]
  unfold relink
  rw [hlinks]
  unfold relocate
  dsimp only
  congr 1
  apply Array.ext_getElem?
  intro j
  rw [Array.getElem?_mapIdx, Array.getElem?_map, Array.getElem?_map, Array.getElem?_mapIdx]
  cases n.nodes[j]? <;> rfl

end Netlist

namespace Circuit

variable (g : Circuit)

theorem nodes_relocate :
    (g.relocate f).nodes = g.nodes.map fun (id, n) => (id, n.relocate f) := by
  unfold nodes
  rw [nodeIds_relocate, List.map_filterMap]
  refine List.filterMap_congr fun id _ => ?_
  rw [node?_relocate, Option.map_map, Option.map_map]
  rfl

theorem flattenNode_relocate (ids : List NodeId) (id : NodeId) (n : Node) :
    (g.relocate f).flattenNode ids id (n.relocate f) =
      (g.flattenNode ids id n).map (NetNode.relocate f) := by
  have hsuccessors : (g.relocate f).successors id = g.successors id := by
    rw [successors, outLinks_relocate, successors]
  unfold flattenNode
  rw [inLinks_relocate, hsuccessors]
  cases (g.inLinks id).mapM (flattenLink ids) <;> rfl

/-- The netlist of a relocated circuit is that of the circuit, relocated.  If one of them is
refused, so is the other one, and for the same reason. -/
theorem flatten_relocate : (g.relocate f).flatten = g.flatten.map (Netlist.relocate f) := by
  have hnodes (nodes : List (NodeId × Node)) :
      (nodes.map fun (id, n) => (id, n.relocate f)).mapM
          (fun (id, n) => (g.relocate f).flattenNode g.nodeIds id n) =
        (nodes.mapM fun (id, n) => g.flattenNode g.nodeIds id n).map
          (List.map (NetNode.relocate f)) := by
    induction nodes with
    | nil => rfl
    | cons node rest ih =>
        rw [List.map_cons, List.mapM_cons, List.mapM_cons, ih]
        dsimp only
        rw [flattenNode_relocate]
        cases g.flattenNode g.nodeIds node.1 node.2 with
        | error e => rfl
        | ok n => cases rest.mapM fun (id, n) => g.flattenNode g.nodeIds id n <;> rfl
  unfold flatten
  dsimp only
  rw [nodeIds_relocate, nodes_relocate]
  split
  · rfl
  · change (_ >>= fun nodes => _) = Except.map _ (_ >>= fun nodes => _)
    rw [hnodes]
    cases g.nodes.mapM fun (id, n) => g.flattenNode g.nodeIds id n with
    | error e => rfl
    | ok nodes =>
        change Except.ok (Netlist.relink { nodes := (nodes.map (NetNode.relocate f)).toArray }) =
          Except.ok ((Netlist.relink { nodes := nodes.toArray }).relocate f)
        rw [← Netlist.relink_relocate]
        exact congrArg (fun nodes => Except.ok (Netlist.relink { nodes }))
          List.map_toArray.symm

end Circuit

namespace Artifact

theorem length_encodeList_map {α : Type} (item : α → Bytes) (m : α → α)
    (h : ∀ x, (item (m x)).length = (item x).length) (items : List α) :
    (encodeList item (items.map m)).length = (encodeList item items).length := by
  have hitems : ((items.map m).flatMap item).length = (items.flatMap item).length := by
    rw [List.length_flatMap, List.length_flatMap, List.map_map]
    exact congrArg List.sum (List.map_congr_left fun x _ => h x)
  unfold encodeList
  rw [List.length_append, List.length_append, hitems]
  rfl

theorem length_encodeNode_relocate (n : NetNode) :
    (encodeNode (n.relocate f)).length = (encodeNode n).length := by
  have hblocks := length_encodeList_map encodeBlock (·.relocate f) (fun _ => rfl) n.blocks
  unfold encodeNode
  simp only [List.length_append]
  change _ + (encodeList encodeBlock (n.blocks.map (·.relocate f))).length + _ + _ = _
  rw [hblocks]
  rfl

/-- Artifacts do not tell by their length where blocks stand. -/
theorem length_encode_relocate (n : Netlist) :
    (encode (n.relocate f)).length = (encode n).length := by
  have hnodes := length_encodeList_map encodeNode (·.relocate f) (length_encodeNode_relocate f)
    n.nodes.toList
  have hbody : (encodeBody (n.relocate f)).length = (encodeBody n).length := by
    unfold encodeBody Netlist.relocate
    dsimp only
    rw [Array.toList_map, List.length_append, hnodes, ← List.length_append]
  unfold encode encodeWith
  dsimp only
  rw [List.length_append, List.length_append, Blake2b.length_digest, Blake2b.length_digest, hbody]

end Artifact

end Redstone
