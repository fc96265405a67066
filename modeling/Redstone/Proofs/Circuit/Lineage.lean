import Mathlib.Data.List.Perm.Subperm
import Redstone.Proofs.Circuit.WellFormed

/-!
# Lineage of circuits

A circuit descends from another one when it keeps what the outside world knows of it: names
are never given a second time, a node with a role stays with its role and its blocks, no
other node gets a role, and no block is doubled.  Only a foldable gate may have become a
constant.  Lineage is carried from step to step, so that every pass and every sequence of
passes has it as soon as the single edits do.
-/

namespace Redstone

/-- The gate is of a kind whose output can be computed from constant inputs. -/
def Gate.isFoldable (k : Gate) : Bool :=
  k.type == .repeater || k.type == .torch || k.type == .comparator

theorem Gate.isFoldable_iff {k : Gate} :
    k.isFoldable = true ↔ k.type = .repeater ∨ k.type = .torch ∨ k.type = .comparator := by
  simp [Gate.isFoldable, or_assoc]

theorem Gate.isFoldable_of_fold {k : Gate} {s : GateState} {p : Power} {out : UInt8}
    (h : k.fold s p = some out) : k.isFoldable = true := by
  unfold Gate.fold at h
  unfold Gate.isFoldable
  cases htype : k.type <;> simp_all

theorem Gate.exists_fold_of_isFoldable {k : Gate} (h : k.isFoldable = true) (s : GateState)
    (p : Power) : ∃ out, k.fold s p = some out := by
  unfold Gate.isFoldable at h
  unfold Gate.fold
  cases htype : k.type <;> simp_all

theorem Gate.isConstant_of_isFoldable {k : Gate} (h : k.isFoldable = true) :
    k.isConstant = false := by
  unfold Gate.isFoldable at h
  unfold Gate.isConstant
  cases htype : k.type <;> simp_all

theorem Gate.fold_eq_none_of_not_isFoldable {k : Gate} (h : k.isFoldable = false)
    (s : GateState) (p : Power) : k.fold s p = none := by
  cases hfold : k.fold s p with
  | none => rfl
  | some out =>
      rw [Gate.isFoldable_of_fold hfold] at h
      cases h

theorem Node.isRemovable_eq_false_iff {n : Node} :
    n.isRemovable = false ↔ n.isInput = true ∨ n.isOutput = true := by
  cases hin : n.isInput <;> cases hout : n.isOutput <;> simp [Node.isRemovable, hin, hout]

/-- A node takes the place of another one with the same role and the same blocks.  Its gate
is the same, unless a foldable gate has become a constant. -/
structure Node.Continues (n n' : Node) : Prop where
  isInput_eq : n'.isInput = n.isInput
  isOutput_eq : n'.isOutput = n.isOutput
  blocks_eq : n'.blocks = n.blocks
  gate_eq : n'.gate = n.gate ∨ n.gate.isFoldable = true ∧ n'.gate = .constant

namespace Node.Continues

theorem refl (n : Node) : n.Continues n :=
  ⟨rfl, rfl, rfl, .inl rfl⟩

theorem trans {n₁ n₂ n₃ : Node} (h : n₁.Continues n₂) (h' : n₂.Continues n₃) :
    n₁.Continues n₃ where
  isInput_eq := h'.isInput_eq.trans h.isInput_eq
  isOutput_eq := h'.isOutput_eq.trans h.isOutput_eq
  blocks_eq := h'.blocks_eq.trans h.blocks_eq
  gate_eq := by
    rcases h.gate_eq with hsame | ⟨hfold, hconst⟩
    · rcases h'.gate_eq with hsame' | ⟨hfold', hconst'⟩
      · exact .inl (hsame'.trans hsame)
      · exact .inr ⟨hsame ▸ hfold', hconst'⟩
    · rcases h'.gate_eq with hsame' | ⟨-, hconst'⟩
      · exact .inr ⟨hfold, hsame'.trans hconst⟩
      · exact .inr ⟨hfold, hconst'⟩

theorem isRemovable_eq {n n' : Node} (h : n.Continues n') : n'.isRemovable = n.isRemovable := by
  unfold Node.isRemovable
  rw [h.isInput_eq, h.isOutput_eq]

end Node.Continues

namespace Circuit

/-- The blocks that a node stands for, none for a node that is not there. -/
def blocksAt (g : Circuit) (id : NodeId) : List BlockRef :=
  ((g.node? id).map Node.blocks).getD []

/-- All blocks that the circuit stands for, node by node. -/
def allBlocks (g : Circuit) : List BlockRef :=
  g.nodeIds.flatMap g.blocksAt

theorem mem_allBlocks {g : Circuit} {b : BlockRef} :
    b ∈ g.allBlocks ↔ ∃ id n, g.node? id = some n ∧ b ∈ n.blocks := by
  rw [allBlocks, List.mem_flatMap]
  constructor
  · rintro ⟨id, hid, hb⟩
    obtain ⟨n, hn⟩ := contains_iff.mp (mem_nodeIds.mp hid)
    rw [blocksAt, hn] at hb
    exact ⟨id, n, hn, hb⟩
  · rintro ⟨id, n, hn, hb⟩
    refine ⟨id, mem_nodeIds.mpr (contains_of_node? hn), ?_⟩
    rw [blocksAt, hn]
    exact hb

/-- The circuit `g'` descends from the circuit `g`. -/
structure Lineage (g g' : Circuit) : Prop where
  nodeBound_le : g.nodeBound ≤ g'.nodeBound
  contains_old : ∀ {id}, id < g.nodeBound → g'.contains id = true → g.contains id = true
  kept : ∀ {id n}, g.node? id = some n → n.isRemovable = false →
    ∃ n', g'.node? id = some n' ∧ n.Continues n'
  flagged : ∀ {id n'}, g'.node? id = some n' → n'.isRemovable = false →
    ∃ n, g.node? id = some n ∧ n.isRemovable = false
  blocks : g'.allBlocks.Subperm g.allBlocks

namespace Lineage

variable {g g' : Circuit}

theorem refl (g : Circuit) : Lineage g g where
  nodeBound_le := Nat.le_refl _
  contains_old := fun _ h => h
  kept := fun h _ => ⟨_, h, .refl _⟩
  flagged := fun h hrole => ⟨_, h, hrole⟩
  blocks := List.Subperm.refl _

theorem trans {g₁ g₂ g₃ : Circuit} (h : Lineage g₁ g₂) (h' : Lineage g₂ g₃) :
    Lineage g₁ g₃ where
  nodeBound_le := Nat.le_trans h.nodeBound_le h'.nodeBound_le
  contains_old := by
    intro id hid hc
    exact h.contains_old hid (h'.contains_old (Nat.lt_of_lt_of_le hid h.nodeBound_le) hc)
  kept := by
    intro id n hn hrole
    obtain ⟨n₂, hn₂, hcont⟩ := h.kept hn hrole
    obtain ⟨n₃, hn₃, hcont'⟩ := h'.kept hn₂ (hcont.isRemovable_eq.trans hrole)
    exact ⟨n₃, hn₃, hcont.trans hcont'⟩
  flagged := by
    intro id n hn hrole
    obtain ⟨n₂, hn₂, hrole₂⟩ := h'.flagged hn hrole
    exact h.flagged hn₂ hrole₂
  blocks := h'.blocks.trans h.blocks

/-- A descendant names no other blocks. -/
theorem mem_allBlocks (h : Lineage g g') {b : BlockRef} (hb : b ∈ g'.allBlocks) :
    b ∈ g.allBlocks :=
  h.blocks.subset hb

/-- No two blocks of a descendant are at one position, if this is so at the start of the line. -/
theorem positions_nodup (h : Lineage g g') (hnodup : (g.allBlocks.map BlockRef.position).Nodup) :
    (g'.allBlocks.map BlockRef.position).Nodup := by
  obtain ⟨blocks, hperm, hsublist⟩ := h.blocks
  exact (hperm.map BlockRef.position).nodup_iff.mp (hnodup.sublist (hsublist.map _))

/-- A node that is in the first and in the last circuit of a line is in all between. -/
theorem contains_between {g₁ g₂ g₃ : Circuit} (h : Lineage g₁ g₂) (h' : Lineage g₂ g₃)
    {id : NodeId} (hfirst : g₁.contains id = true) (hlast : g₃.contains id = true) :
    g₂.contains id = true :=
  h'.contains_old (Nat.lt_of_lt_of_le (lt_nodeBound_of_contains hfirst) h.nodeBound_le) hlast

theorem allBlocks_congr (hbound : g'.nodeBound = g.nodeBound)
    (hcontains : ∀ id, g'.contains id = g.contains id)
    (hblocks : ∀ id, g'.blocksAt id = g.blocksAt id) : g'.allBlocks = g.allBlocks := by
  unfold allBlocks
  rw [nodeIds_congr hbound hcontains]
  exact List.flatMap_congr fun id _ => hblocks id

/-- Changing nodes in place, each into one that continues it. -/
theorem of_continues (hbound : g'.nodeBound = g.nodeBound)
    (hcontains : ∀ id, g'.contains id = g.contains id)
    (hcont : ∀ {id n n'}, g.node? id = some n → g'.node? id = some n' → n.Continues n') :
    Lineage g g' where
  nodeBound_le := Nat.le_of_eq hbound.symm
  contains_old := by
    intro id _ hc
    rw [← hcontains]
    exact hc
  kept := by
    intro id n hn _
    have hc : g'.contains id = true := by
      rw [hcontains]
      exact contains_of_node? hn
    obtain ⟨n', hn'⟩ := contains_iff.mp hc
    exact ⟨n', hn', hcont hn hn'⟩
  flagged := by
    intro id n' hn' hrole
    have hc : g.contains id = true := by
      rw [← hcontains]
      exact contains_of_node? hn'
    obtain ⟨n, hn⟩ := contains_iff.mp hc
    exact ⟨n, hn, (hcont hn hn').isRemovable_eq.symm.trans hrole⟩
  blocks := by
    have hsame : g'.allBlocks = g.allBlocks := by
      refine allBlocks_congr hbound hcontains fun id => ?_
      unfold blocksAt
      cases hn : g.node? id with
      | none =>
          have hnone : g'.node? id = none := by
            rw [← contains_eq_false_iff, hcontains, contains_eq_false_iff]
            exact hn
          rw [hnone]
      | some n =>
          have hc : g'.contains id = true := by
            rw [hcontains]
            exact contains_of_node? hn
          obtain ⟨n', hn'⟩ := contains_iff.mp hc
          rw [hn', Option.map_some, Option.map_some, (hcont hn hn').blocks_eq]
    rw [hsame]

/-- Changing links only. -/
theorem of_node?_eq (hbound : g'.nodeBound = g.nodeBound)
    (hnode : ∀ id, g'.node? id = g.node? id) : Lineage g g' := by
  refine of_continues hbound (fun id => ?_) ?_
  · rw [Bool.eq_iff_iff, contains_iff, contains_iff, hnode]
  · intro id n n' hn hn'
    rw [hnode, hn] at hn'
    cases hn'
    exact .refl n

theorem removeLinks (g : Circuit) (ids : List LinkId) : Lineage g (g.removeLinks ids) :=
  of_node?_eq (nodeBound_removeLinks ids) (node?_removeLinks ids)

theorem addLink (g : Circuit) (l : Link) : Lineage g (g.addLink l) :=
  of_node?_eq (nodeBound_addLink l) (node?_addLink l)

theorem modifyNode (g : Circuit) (id : NodeId) {f : Node → Node}
    (hf : ∀ n, g.node? id = some n → n.Continues (f n)) : Lineage g (g.modifyNode id f) := by
  refine of_continues (g.nodeBound_modifyNode id f) (fun j => g.contains_modifyNode id j f) ?_
  intro j n n' hn hn'
  rw [node?_modifyNode] at hn'
  split at hn'
  case isTrue h =>
    subst h
    rw [hn] at hn'
    cases hn'
    exact hf n hn
  case isFalse =>
    rw [hn] at hn'
    cases hn'
    exact .refl n

theorem allBlocks_addNode (g : Circuit) (n : Node) :
    (g.addNode n).allBlocks = g.allBlocks ++ n.blocks := by
  unfold allBlocks
  rw [nodeIds_addNode, List.flatMap_append]
  congr 1
  · apply List.flatMap_congr
    intro id hid
    have hne := Nat.ne_of_lt (lt_nodeBound_of_contains (mem_nodeIds.mp hid))
    simp [blocksAt, hne]
  · simp [blocksAt]

theorem allBlocks_addNodes (g : Circuit) (nodes : List Node) :
    (g.addNodes nodes).allBlocks = g.allBlocks ++ nodes.flatMap Node.blocks := by
  induction nodes generalizing g with
  | nil => exact (List.append_nil _).symm
  | cons n rest ih =>
      rw [addNodes_cons, ih, allBlocks_addNode, List.flatMap_cons, List.append_assoc]

/-- Adding a node without a role and without blocks. -/
theorem addNode (g : Circuit) {n : Node} (hrole : n.isRemovable = true) (hblocks : n.blocks = []) :
    Lineage g (g.addNode n) where
  nodeBound_le := by
    rw [nodeBound_addNode]
    exact Nat.le_succ _
  contains_old := by
    intro id hid hc
    rw [contains_addNode] at hc
    simpa [Nat.ne_of_lt hid] using hc
  kept := by
    intro id m hm _
    exact ⟨m, node?_addNode_of_node? hm n, .refl m⟩
  flagged := by
    intro id m hm hflag
    rw [node?_addNode] at hm
    split at hm
    · cases hm
      rw [hrole] at hflag
      cases hflag
    · exact ⟨m, hm, hflag⟩
  blocks := by
    rw [allBlocks_addNode, hblocks, List.append_nil]

/-- The blocks of a node and of the others. -/
theorem flatMap_perm_cons_erase {ids : List NodeId} {j : NodeId} (hmem : j ∈ ids)
    (f : NodeId → List BlockRef) : (ids.flatMap f).Perm (f j ++ (ids.erase j).flatMap f) := by
  have hperm := (List.perm_cons_erase hmem).flatMap_right f
  rwa [List.flatMap_cons] at hperm

theorem allBlocks_perm_of_contains {id : NodeId} (hc : g.contains id = true) :
    g.allBlocks.Perm (g.blocksAt id ++ (g.nodeIds.erase id).flatMap g.blocksAt) :=
  flatMap_perm_cons_erase (mem_nodeIds.mpr hc) g.blocksAt

theorem allBlocks_removeNode (id : NodeId) :
    (g.removeNode id).allBlocks = (g.nodeIds.erase id).flatMap g.blocksAt := by
  unfold allBlocks
  rw [nodeIds_removeNode]
  apply List.flatMap_congr
  intro j hj
  have hne : id ≠ j := fun h => (g.nodeIds_nodup.mem_erase_iff.mp hj).1 h.symm
  unfold blocksAt
  rw [node?_removeNode, if_neg hne]

/-- Removing a node without a role. -/
theorem removeNode (g : Circuit) {id : NodeId}
    (hrole : ∀ n, g.node? id = some n → n.isRemovable = true) : Lineage g (g.removeNode id) where
  nodeBound_le := Nat.le_of_eq (nodeBound_removeNode id).symm
  contains_old := by
    intro j _ hc
    rw [contains_removeNode, Bool.and_eq_true] at hc
    exact hc.1
  kept := by
    intro j n hn hflag
    refine ⟨n, node?_removeNode_eq_some_iff.mpr ⟨?_, hn⟩, .refl n⟩
    rintro rfl
    rw [hrole n hn] at hflag
    cases hflag
  flagged := by
    intro j n hn hflag
    exact ⟨n, (node?_removeNode_eq_some_iff.mp hn).2, hflag⟩
  blocks := by
    cases hc : g.contains id with
    | false =>
        rw [removeNode_of_not_contains hc]
    | true =>
        rw [allBlocks_removeNode]
        have hsub := (List.sublist_append_right (g.blocksAt id)
          ((g.nodeIds.erase id).flatMap g.blocksAt)).subperm
        exact hsub.trans (allBlocks_perm_of_contains hc).symm.subperm

section Absorb

variable {id into : NodeId} {n m : Node}

/-- The blocks of the removed node now stand behind those of the other one. -/
theorem allBlocks_absorb_perm (hn : g.node? id = some n) (hm : g.node? into = some m)
    (hne : id ≠ into) :
    ((g.modifyNode into fun m => { m with blocks := m.blocks ++ n.blocks }).removeNode
      id).allBlocks.Perm g.allBlocks := by
  let merged := g.modifyNode into fun m => { m with blocks := m.blocks ++ n.blocks }
  have hids : merged.nodeIds = g.nodeIds :=
    nodeIds_congr (g.nodeBound_modifyNode into _) (fun j => g.contains_modifyNode into j _)
  have hmem : into ∈ g.nodeIds.erase id :=
    g.nodeIds_nodup.mem_erase_iff.mpr ⟨hne.symm, mem_nodeIds.mpr (contains_of_node? hm)⟩
  have hinto : merged.blocksAt into = m.blocks ++ n.blocks := by
    change ((merged.node? into).map Node.blocks).getD [] = _
    rw [show merged.node? into = _ from node?_modifyNode .., if_pos rfl, hm]
    rfl
  -- apart from the two nodes, all blocks stand where they stood
  have hrest : ((g.nodeIds.erase id).erase into).flatMap merged.blocksAt =
      ((g.nodeIds.erase id).erase into).flatMap g.blocksAt := by
    refine List.flatMap_congr fun j hj => ?_
    have hj' : into ≠ j := fun h => ((g.nodeIds_nodup.erase id).mem_erase_iff.mp hj).1 h.symm
    unfold blocksAt
    rw [show merged.node? j = _ from node?_modifyNode .., if_neg hj']
  have hblocks : g.blocksAt id = n.blocks ∧ g.blocksAt into = m.blocks := by
    simp [blocksAt, hn, hm]
  change (merged.removeNode id).allBlocks.Perm _
  rw [allBlocks_removeNode, hids]
  calc ((g.nodeIds.erase id).flatMap merged.blocksAt).Perm _ :=
        flatMap_perm_cons_erase hmem merged.blocksAt
    _ = (m.blocks ++ n.blocks) ++ ((g.nodeIds.erase id).erase into).flatMap g.blocksAt := by
      rw [hinto, hrest]
    _ |>.Perm (n.blocks ++ (m.blocks ++
          ((g.nodeIds.erase id).erase into).flatMap g.blocksAt)) := by
      rw [← List.append_assoc]
      exact List.perm_append_comm.append_right _
    _ |>.Perm (n.blocks ++ (g.nodeIds.erase id).flatMap g.blocksAt) := by
      rw [← hblocks.2]
      exact (flatMap_perm_cons_erase hmem g.blocksAt).symm.append_left _
    _ |>.Perm g.allBlocks := by
      rw [← hblocks.1]
      exact (allBlocks_perm_of_contains (contains_of_node? hn)).symm

/-- A node without a role takes over the blocks of another one, which is removed. -/
theorem absorb (hn : g.node? id = some n) (hm : g.node? into = some m) (hne : id ≠ into)
    (hrole : n.isRemovable = true) (hrole' : m.isRemovable = true) :
    Lineage g ((g.modifyNode into fun m => { m with blocks := m.blocks ++ n.blocks }).removeNode
      id) where
  nodeBound_le :=
    Nat.le_of_eq ((nodeBound_removeNode id).trans (g.nodeBound_modifyNode into _)).symm
  contains_old := by
    intro j _ hc
    rw [contains_removeNode, Bool.and_eq_true, contains_modifyNode] at hc
    exact hc.1
  kept := by
    intro j k hk hflag
    have hid : id ≠ j := by
      rintro rfl
      cases hn.symm.trans hk
      exact Bool.false_ne_true (hflag.symm.trans hrole)
    have hinto : into ≠ j := by
      rintro rfl
      cases hm.symm.trans hk
      exact Bool.false_ne_true (hflag.symm.trans hrole')
    refine ⟨k, node?_removeNode_eq_some_iff.mpr ⟨hid, ?_⟩, .refl k⟩
    rw [node?_modifyNode, if_neg hinto, hk]
  flagged := by
    intro j k hk hflag
    have hk := (node?_removeNode_eq_some_iff.mp hk).2
    rw [node?_modifyNode] at hk
    split at hk
    case isTrue hj =>
      subst hj
      rw [hm] at hk
      cases hk
      exact absurd (hflag.symm.trans hrole') Bool.false_ne_true
    case isFalse => exact ⟨k, hk, hflag⟩
  blocks := (allBlocks_absorb_perm hn hm hne).subperm

end Absorb

end Lineage

end Circuit

end Redstone
