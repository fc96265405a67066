import Redstone.Proofs.Circuit.Range
import Redstone.Proofs.World.Reader
import Redstone.Survey.Components

/-!
# The components of a world

Every component is the node of one block.  Its gate and its state are in range as soon as the
powers of the blocks are, and no two components stand at the same position.
-/

namespace Redstone.Survey

open Circuit

variable {w : World} {p : Position} {n : Node}

/-- The node is the component at the position. -/
def StandsAt (w : World) (p : Position) (n : Node) : Prop :=
  component? w p (w.get p) = some n

/-- The type of the gate that a block of the given material becomes. -/
def gateType? : Material → Option GateType
  | .repeater => some .repeater
  | .comparator => some .comparator
  | .torch => some .torch
  | .lamp => some .lamp
  | .trapdoor => some .trapdoor
  | .noteBlock => some .noteBlock
  | .lever => some .lever
  | .button => some .button
  | .pressurePlate => some .pressurePlate
  | .wire => some .wire
  | .redstoneBlock => some .constant
  | _ => none

theorem type_comparatorGate (w : World) (p : Position) (b : Block) :
    (comparatorGate w p b).type = .comparator := by
  unfold comparatorGate
  dsimp only
  split <;> rfl

/-- The type of a component is told by its material. -/
theorem gateType?_of_component? {b : Block} (h : component? w p b = some n) :
    gateType? b.material = some n.gate.type := by
  unfold component? at h
  dsimp only at h
  cases hm : b.material <;> simp only [hm] at h <;> cases h
  case comparator => rw [type_comparatorGate]; rfl
  all_goals rfl

theorem blocks_of_component? {b : Block} (h : component? w p b = some n) :
    n.blocks = [{ position := p, id := b.id }] := by
  unfold component? at h
  dsimp only at h
  cases hm : b.material <;> simp only [hm] at h <;> cases h <;> rfl

theorem strength_poweredState_le (powered : Bool) :
    (poweredState powered).strength ≤ maxStrength := by
  cases powered <;> decide

/-- A component puts out a signal if the power of its block is one. -/
theorem strength_of_component?_le {b : Block} (hb : b.power ≤ maxStrength)
    (h : component? w p b = some n) : n.state.strength ≤ maxStrength := by
  unfold component? at h
  dsimp only at h
  cases hm : b.material <;> simp only [hm] at h <;> cases h
  case comparator => exact hb
  case wire => exact hb
  case redstoneBlock => exact UInt8.le_refl _
  case lamp => exact UInt8.le_iff_toNat_le.mpr (Nat.zero_le _)
  case trapdoor => exact UInt8.le_iff_toNat_le.mpr (Nat.zero_le _)
  case noteBlock => exact UInt8.le_iff_toNat_le.mpr (Nat.zero_le _)
  all_goals exact strength_poweredState_le b.powered

/-- What a comparator reads from behind is the power of a block. -/
theorem farInput?_le (hw : w.Powered) {b : Block} {level : UInt8}
    (h : farInput? w p b = some level) : level ≤ maxStrength := by
  unfold farInput? at h
  dsimp only at h
  split at h
  · cases h
    exact hw _
  · split at h
    · cases h
      exact hw _
    · cases h
  · cases h

theorem farInput_comparatorGate_le (hw : w.Powered) {b : Block}
    (h : (comparatorGate w p b).hasFarInput = true) :
    (comparatorGate w p b).farInput ≤ maxStrength := by
  unfold comparatorGate at h ⊢
  dsimp only at h ⊢
  split at h
  case h_1 level hlevel => exact farInput?_le hw hlevel
  case h_2 => cases h

theorem mode_comparatorGate (w : World) (p : Position) (b : Block) :
    (comparatorGate w p b).mode = .compare ∨ (comparatorGate w p b).mode = .subtract := by
  have hmode : (comparatorGate w p b).mode = if b.subtract then .subtract else .compare := by
    unfold comparatorGate
    dsimp only
    split <;> rfl
  rw [hmode]
  split
  · exact .inr rfl
  · exact .inl rfl

theorem mode_of_component? {b : Block} (h : component? w p b = some n) :
    n.gate.mode = .compare ∨ n.gate.mode = .subtract := by
  unfold component? at h
  dsimp only at h
  cases hm : b.material <;> simp only [hm] at h <;> cases h
  case comparator => exact mode_comparatorGate w p b
  all_goals exact .inl rfl

theorem isDefined_of_component? {b : Block} (h : component? w p b = some n) :
    n.gate.type.isDefined = true := by
  have htype := gateType?_of_component? h
  cases hm : b.material <;> rw [hm] at htype <;> cases hn : n.gate.type <;>
    simp_all [gateType?, GateType.isDefined]

theorem farInput_of_component?_le (hw : w.Powered) {b : Block} (h : component? w p b = some n)
    (hfar : n.gate.hasFarInput = true) : n.gate.farInput ≤ maxStrength := by
  unfold component? at h
  dsimp only at h
  cases hm : b.material <;> simp only [hm] at h <;> cases h
  case comparator => exact farInput_comparatorGate_le hw hfar
  all_goals cases hfar

/-- Exactly the indicators are outputs. -/
theorem isOutput_of_component? {b : Block} (h : component? w p b = some n) :
    n.isOutput = n.gate.type.isIndicator := by
  unfold component? at h
  dsimp only at h
  cases hm : b.material <;> simp only [hm] at h <;> cases h
  case comparator => rw [type_comparatorGate]; rfl
  all_goals rfl

/-- Components of a powered world are such as the passes can deal with. -/
theorem regular_of_component? (hw : w.Powered) {b : Block} (hb : b.power ≤ maxStrength)
    (h : component? w p b = some n) : n.Regular where
  defined := isDefined_of_component? h
  farInput_le := farInput_of_component?_le hw h
  constant_le := fun _ => strength_of_component?_le hb h
  locked_le := fun _ _ => strength_of_component?_le hb h
  output_indicator := fun hout => (isOutput_of_component? h).symm.trans hout

/-! ## The list of components -/

theorem mem_toList_iff {b : Block} : (p, b) ∈ w.toList ↔ w.blocks[p]? = some b :=
  Std.ExtTreeMap.mem_toList_iff_getElem?_eq_some

theorem get_of_mem_toList {b : Block} (h : (p, b) ∈ w.toList) : w.get p = b := by
  rw [World.get, mem_toList_iff.mp h]
  rfl

/-- The components of a region are those of the stored blocks in it. -/
theorem mem_components {r : Region} : n ∈ components w r ↔
    ∃ p, w.blocks[p]? = some (w.get p) ∧ r.contains p = true ∧ StandsAt w p n := by
  unfold components StandsAt
  rw [List.mem_filterMap]
  constructor
  · rintro ⟨⟨p, b⟩, hmem, hn⟩
    obtain ⟨hmem, hin⟩ := List.mem_filter.mp hmem
    have hget := get_of_mem_toList hmem
    subst hget
    exact ⟨p, mem_toList_iff.mp hmem, hin, hn⟩
  · rintro ⟨p, hp, hin, hn⟩
    exact ⟨(p, w.get p), List.mem_filter.mpr ⟨mem_toList_iff.mpr hp, hin⟩, hn⟩

theorem length_components_le (w : World) (r : Region) : (components w r).length ≤ w.size := by
  unfold components
  calc ((w.toList.filter _).filterMap _).length ≤ (w.toList.filter _).length :=
        List.length_filterMap_le _ _
    _ ≤ w.toList.length := List.length_filter_le _ _
    _ = w.size := Std.ExtTreeMap.length_toList

/-- Every component has the position of its block, and blocks without one are left out. -/
theorem positions_sublist (blocks : List (Position × Block)) :
    ((blocks.filterMap fun (p, b) => component? w p b).flatMap
      fun n => n.blocks.map BlockRef.position).Sublist (blocks.map Prod.fst) := by
  induction blocks with
  | nil => exact List.Sublist.refl _
  | cons pb rest ih =>
      obtain ⟨p, b⟩ := pb
      cases hn : component? w p b with
      | none =>
          rw [List.filterMap_cons_none (by exact hn)]
          exact ih.cons p
      | some n =>
          rw [List.filterMap_cons_some (by exact hn), List.flatMap_cons, blocks_of_component? hn]
          exact ih.cons_cons p

/-- The components stand at different positions. -/
theorem nodup_positions_components (w : World) (r : Region) :
    ((components w r).flatMap fun n => n.blocks.map BlockRef.position).Nodup := by
  have hkeys : (w.toList.map Prod.fst).Nodup := by
    rw [World.toList, Std.ExtTreeMap.map_fst_toList_eq_keys]
    exact Std.ExtTreeMap.nodup_keys
  exact hkeys.sublist ((positions_sublist _).trans (List.filter_sublist.map Prod.fst))

theorem length_blocks_components_le (w : World) (r : Region) :
    ((components w r).flatMap Node.blocks).length ≤ w.size := by
  have hsublist := (positions_sublist (w := w)
    (w.toList.filter fun (p, _) => r.contains p)).trans (List.filter_sublist.map Prod.fst)
  have hlength := hsublist.length_le
  rw [← List.map_flatMap, List.length_map, List.length_map] at hlength
  exact Nat.le_trans hlength (Nat.le_of_eq Std.ExtTreeMap.length_toList)

/-! ## The circuit of the components -/

/-- Every node of the circuit is the component at some position, no two stand at the same one,
and there are no links yet. -/
structure Placed (w : World) (g : Circuit) : Prop where
  wellFormed : g.WellFormed
  stands : ∀ {id n}, g.node? id = some n → ∃ p, StandsAt w p n
  positions_nodup : (g.allBlocks.map BlockRef.position).Nodup
  nodeCount_le : g.nodeCount ≤ w.size
  blocks_le : g.allBlocks.length ≤ w.size
  link?_eq : ∀ i, g.link? i = none

theorem placed_empty (w : World) : Placed w .empty where
  wellFormed := .empty
  stands := nofun
  positions_nodup := List.nodup_nil
  nodeCount_le := Nat.zero_le _
  blocks_le := Nat.zero_le _
  link?_eq := fun _ => rfl

/-- The survey starts with the components and no links. -/
theorem placed_addComponents (w : World) (r : Region) :
    Placed w (addComponents w r .empty) where
  wellFormed := WellFormed.empty.addNodes _
  stands := by
    intro id n hn
    rw [addComponents, node?_addNodes_empty] at hn
    obtain ⟨p, -, -, hp⟩ := mem_components.mp (List.mem_of_getElem? hn)
    exact ⟨p, hp⟩
  positions_nodup := by
    rw [addComponents, Lineage.allBlocks_addNodes, List.map_append, List.map_flatMap]
    exact nodup_positions_components w r
  nodeCount_le := by
    rw [addComponents, nodeCount_addNodes]
    exact Nat.le_trans (Nat.le_of_eq (Nat.zero_add _)) (length_components_le w r)
  blocks_le := by
    rw [addComponents, Lineage.allBlocks_addNodes]
    exact length_blocks_components_le w r
  link?_eq := fun i => link?_addNodes _ _ i

namespace Placed

variable {g : Circuit}

theorem regular_node (h : Placed w g) (hw : w.Powered) {id : NodeId} (hn : g.node? id = some n) :
    n.Regular := by
  obtain ⟨p, hp⟩ := h.stands hn
  exact regular_of_component? hw (hw p) hp

theorem regular (h : Placed w g) (hw : w.Powered) : g.Regular where
  wellFormed := h.wellFormed
  nodes := h.regular_node hw
  source_free := by
    intro i l n hl
    rw [h.link?_eq] at hl
    cases hl

theorem inRange (h : Placed w g) (hw : w.Powered) : g.InRange where
  node := by
    intro id n hn
    obtain ⟨p, hp⟩ := h.stands hn
    exact ⟨strength_of_component?_le (hw p) hp, mode_of_component? hp⟩
  link := by
    intro i l hl
    rw [h.link?_eq] at hl
    cases hl

end Placed

end Redstone.Survey
