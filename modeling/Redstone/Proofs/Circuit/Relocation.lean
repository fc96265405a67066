import Redstone.Circuit.Power
import Redstone.Proofs.Circuit.Views

/-!
# Circuits at other places

Relocating a circuit moves the blocks of its nodes and changes nothing else.  All views but the one
of blocks are the same, and every edit of the relocated circuit is the edit of the circuit,
relocated.
-/

namespace Redstone

/-- A choice commutes with a map if both alternatives do. -/
theorem ite_eq_map_ite {α β : Type} (φ : α → β) {c : Prop} [Decidable c] {a b : α} {a' b' : β}
    (ha : c → a' = φ a) (hb : ¬c → b' = φ b) : (if c then a' else b') = φ (if c then a else b) :=
  (ite_congr rfl ha hb).trans (apply_ite φ c a b).symm

/-- The block at its new place. -/
def BlockRef.relocate (f : Position → Position) (b : BlockRef) : BlockRef :=
  { b with position := f b.position }

/-- The node with its blocks at their new places. -/
def Node.relocate (f : Position → Position) (n : Node) : Node :=
  { n with blocks := n.blocks.map (·.relocate f) }

namespace Node

variable (f : Position → Position) (n : Node)

@[simp] theorem gate_relocate : (n.relocate f).gate = n.gate := rfl

@[simp] theorem state_relocate : (n.relocate f).state = n.state := rfl

end Node

/-- The slot with its node relocated. -/
def Slot.relocate (f : Position → Position) (s : Slot) : Slot :=
  { s with node := s.node.relocate f }

namespace Circuit

/-- The circuit with all blocks at their new places. -/
def relocate (f : Position → Position) (g : Circuit) : Circuit :=
  { g with slots := g.slots.map (Option.map (Slot.relocate f)) }

variable (f : Position → Position) (g : Circuit)

/-! ## Views -/

@[simp] theorem slot?_relocate (id : NodeId) :
    (g.relocate f).slot? id = (g.slot? id).map (Slot.relocate f) := by
  change ((g.slots.map (Option.map (Slot.relocate f)))[id]?).join = _
  rw [Array.getElem?_map]
  unfold slot?
  cases g.slots[id]? with
  | none => rfl
  | some s => rfl

@[simp] theorem node?_relocate (id : NodeId) :
    (g.relocate f).node? id = (g.node? id).map (Node.relocate f) := by
  rw [node?, slot?_relocate, node?, Option.map_map, Option.map_map]
  rfl

@[simp] theorem link?_relocate (i : LinkId) : (g.relocate f).link? i = g.link? i := rfl

@[simp] theorem contains_relocate (id : NodeId) : (g.relocate f).contains id = g.contains id := by
  rw [contains, slot?_relocate, Option.isSome_map, contains]

@[simp] theorem inputs_relocate (id : NodeId) : (g.relocate f).inputs id = g.inputs id := by
  rw [inputs, slot?_relocate, Option.map_map, inputs]
  rfl

@[simp] theorem outputs_relocate (id : NodeId) : (g.relocate f).outputs id = g.outputs id := by
  rw [outputs, slot?_relocate, Option.map_map, outputs]
  rfl

@[simp] theorem nodeBound_relocate : (g.relocate f).nodeBound = g.nodeBound :=
  Array.size_map

@[simp] theorem linkBound_relocate : (g.relocate f).linkBound = g.linkBound := rfl

@[simp] theorem linkIds_relocate : (g.relocate f).linkIds = g.linkIds := rfl

@[simp] theorem nodeCount_relocate : (g.relocate f).nodeCount = g.nodeCount := rfl

@[simp] theorem linkCount_relocate : (g.relocate f).linkCount = g.linkCount := rfl

/-- The same nodes are there, under the same names. -/
@[simp] theorem nodeIds_relocate : (g.relocate f).nodeIds = g.nodeIds := by
  have hsize : (g.relocate f).slots.size = g.slots.size := Array.size_map
  unfold nodeIds
  rw [hsize]
  refine List.filter_congr fun id _ => ?_
  rw [slot?_relocate, Option.isSome_map]

@[simp] theorem inLinks_relocate (id : NodeId) : (g.relocate f).inLinks id = g.inLinks id := by
  rw [inLinks, inputs_relocate]
  rfl

@[simp] theorem outLinks_relocate (id : NodeId) : (g.relocate f).outLinks id = g.outLinks id := by
  rw [outLinks, outputs_relocate]
  rfl

@[simp] theorem strength_relocate (id : NodeId) : (g.relocate f).strength id = g.strength id := by
  rw [strength, node?_relocate, Option.map_map]
  rfl

/-- The power at a node depends on links and strengths only. -/
@[simp] theorem inputPower_relocate (id : NodeId) :
    (g.relocate f).inputPower id = g.inputPower id := by
  have hstrength : (g.relocate f).strength = g.strength := funext (strength_relocate f g)
  rw [inputPower, powerUnder, inLinks_relocate, hstrength]
  rfl

@[simp] theorem hasConstantInputs_relocate (id : NodeId) :
    (g.relocate f).hasConstantInputs id = g.hasConstantInputs id := by
  unfold hasConstantInputs
  rw [inLinks_relocate]
  -- only the gate of a source is looked at, and that stays
  refine congrArg (g.inLinks id).all (funext fun l => ?_)
  rw [node?_relocate, Option.any_map]
  rfl

@[simp] theorem relocate_empty : empty.relocate f = empty := by
  simp [relocate, empty]

/-! ## Edits -/

/-- A change of a slot that does not look at its blocks may be made before or after a relocation. -/
theorem modifySlot_relocate (id : NodeId) {a a' : Slot → Slot}
    (ha : ∀ s, a' (s.relocate f) = (a s).relocate f) :
    (g.relocate f).modifySlot id a' = (g.modifySlot id a).relocate f := by
  unfold modifySlot relocate
  congr 1
  apply Array.ext_getElem?
  intro j
  rw [Array.getElem?_modify, Array.getElem?_map, Array.getElem?_map, Array.getElem?_modify]
  split
  · cases g.slots[j]? with
    | none => rfl
    | some s => cases s with
      | none => rfl
      | some s => exact congrArg (some ∘ some) (ha s)
  · rfl

theorem modifyNode_relocate (id : NodeId) {a a' : Node → Node}
    (ha : ∀ n, a' (n.relocate f) = (a n).relocate f) :
    (g.relocate f).modifyNode id a' = (g.modifyNode id a).relocate f := by
  refine modifySlot_relocate f g id fun s => ?_
  change Slot.mk (a' (s.node.relocate f)) _ _ = Slot.mk ((a s.node).relocate f) _ _
  rw [ha]
  rfl

/-- A node is added at its new place. -/
@[simp] theorem addNode_relocate (n : Node) :
    (g.relocate f).addNode (n.relocate f) = (g.addNode n).relocate f := by
  unfold addNode relocate
  dsimp only
  rw [Array.map_push]
  rfl

@[simp] theorem addNodes_relocate (nodes : List Node) :
    (g.relocate f).addNodes (nodes.map (Node.relocate f)) = (g.addNodes nodes).relocate f := by
  unfold addNodes
  rw [List.foldl_map]
  exact List.foldl_hom (relocate f) fun g n => addNode_relocate f g n

@[simp] theorem addLink_relocate (l : Link) :
    (g.relocate f).addLink l = (g.addLink l).relocate f := by
  unfold addLink
  rw [contains_relocate, contains_relocate, linkBound_relocate]
  dsimp only
  split
  · rw [modifySlot_relocate f g l.source (a := attachOutput g.linkBound) fun _ => rfl,
      modifySlot_relocate f _ l.target (a := attachInput g.linkBound) fun _ => rfl]
    rfl
  · rfl

/-- Links have no places. -/
@[simp] theorem removeLink_relocate (i : LinkId) :
    (g.relocate f).removeLink i = (g.removeLink i).relocate f := by
  unfold removeLink
  rw [link?_relocate]
  cases g.link? i with
  | none => rfl
  | some l =>
      dsimp only
      rw [modifySlot_relocate f g l.source (a := detachOutput i) fun _ => rfl,
        modifySlot_relocate f _ l.target (a := detachInput i) fun _ => rfl]
      rfl

@[simp] theorem removeLinks_relocate (ids : List LinkId) :
    (g.relocate f).removeLinks ids = (g.removeLinks ids).relocate f :=
  List.foldl_hom (relocate f) fun g i => removeLink_relocate f g i

/-- A node is removed with its links, which have no places. -/
@[simp] theorem removeNode_relocate (id : NodeId) :
    (g.relocate f).removeNode id = (g.removeNode id).relocate f := by
  unfold removeNode
  rw [contains_relocate, inputs_relocate, outputs_relocate, removeLinks_relocate,
    removeLinks_relocate]
  dsimp only
  split
  · -- the vacated slot holds no node, so there is nothing to relocate in it
    unfold relocate
    dsimp only
    congr 1
    apply Array.ext_getElem?
    intro j
    rw [Array.getElem?_setIfInBounds, Array.getElem?_map, Array.getElem?_map,
      Array.getElem?_setIfInBounds, Array.size_map]
    split
    · split <;> rfl
    · rfl
  · rfl

@[simp] theorem setSource_relocate (i : LinkId) (source : NodeId) :
    (g.relocate f).setSource i source = (g.setSource i source).relocate f := by
  unfold setSource
  rw [link?_relocate]
  cases g.link? i with
  | none => rfl
  | some l =>
      dsimp only
      rw [contains_relocate]
      split
      · rw [modifySlot_relocate f g l.source (a := detachOutput i) fun _ => rfl,
          modifySlot_relocate f _ source (a := attachOutput i) fun _ => rfl]
        rfl
      · rfl

end Circuit

end Redstone
