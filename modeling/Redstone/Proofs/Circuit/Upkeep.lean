import Mathlib.Logic.Relation
import Redstone.Proofs.Circuit.Lineage

/-!
# Upkeep of circuits

All that optimization ever does to the nodes of a circuit comes down to a few edits: links change,
a node gets another state, a node without a role comes or goes, a node without a role hands its
blocks over to another one, or a foldable gate becomes a constant.  A circuit that is reached by such
edits descends from the one at the start, and only the last of them changes a gate.
-/

namespace Redstone.Circuit

/-- One edit of the nodes of a circuit.  Gates may be folded only if `folds` holds. -/
inductive Upkeep (folds : Prop) : Circuit → Circuit → Prop
  | links {g g' : Circuit} (hbound : g'.nodeBound = g.nodeBound)
      (hnode : ∀ id, g'.node? id = g.node? id) : Upkeep folds g g'
  | restate (g : Circuit) (id : NodeId) (f : Node → GateState) :
      Upkeep folds g (g.modifyNode id fun n => { n with state := f n })
  | addNode (g : Circuit) {n : Node} (hrole : n.isRemovable = true) (hblocks : n.blocks = []) :
      Upkeep folds g (g.addNode n)
  | removeNode (g : Circuit) {id : NodeId}
      (hrole : ∀ n, g.node? id = some n → n.isRemovable = true) : Upkeep folds g (g.removeNode id)
  | absorb {g : Circuit} {id into : NodeId} {n m : Node} (hn : g.node? id = some n)
      (hm : g.node? into = some m) (hne : id ≠ into) (hrole : n.isRemovable = true)
      (hrole' : m.isRemovable = true) :
      Upkeep folds g
        ((g.modifyNode into fun m => { m with blocks := m.blocks ++ n.blocks }).removeNode id)
  | fold {g : Circuit} {id : NodeId} {n : Node} (hfolds : folds) (hn : g.node? id = some n)
      (hfoldable : n.gate.isFoldable = true) (s : GateState) :
      Upkeep folds g (g.modifyNode id fun n => { n with gate := .constant, state := s })

/-- A circuit is reached by edits of its nodes. -/
abbrev Upkept (folds : Prop) : Circuit → Circuit → Prop :=
  Relation.ReflTransGen (Upkeep folds)

variable {folds : Prop} {g g' : Circuit}

/-! ## What an edit does -/

namespace Upkeep

theorem mono {folds' : Prop} (hfolds : folds → folds') (h : Upkeep folds g g') :
    Upkeep folds' g g' := by
  cases h with
  | links hbound hnode => exact .links hbound hnode
  | restate id f => exact .restate g id f
  | addNode hrole hblocks => exact .addNode g hrole hblocks
  | removeNode hrole => exact .removeNode g hrole
  | absorb hn hm hne hrole hrole' => exact .absorb hn hm hne hrole hrole'
  | fold hf hn hfoldable s => exact .fold (hfolds hf) hn hfoldable s

/-- Every edit leads to a descendant. -/
theorem lineage (h : Upkeep folds g g') : Lineage g g' := by
  cases h with
  | links hbound hnode => exact .of_node?_eq hbound hnode
  | restate id f => exact .modifyNode g id fun n _ => ⟨rfl, rfl, rfl, .inl rfl⟩
  | addNode hrole hblocks => exact .addNode g hrole hblocks
  | removeNode hrole => exact .removeNode g hrole
  | absorb hn hm hne hrole hrole' => exact .absorb hn hm hne hrole hrole'
  | fold _ hn hfoldable s =>
      refine .modifyNode g _ fun m hm => ?_
      rw [hn] at hm
      cases hm
      exact ⟨rfl, rfl, rfl, .inr ⟨hfoldable, rfl⟩⟩

/-- The gate of a node that stays is the same, unless gates may be folded. -/
theorem gate_eq (h : Upkeep folds g g') {id : NodeId} {n n' : Node} (hn : g.node? id = some n)
    (hn' : g'.node? id = some n') : n'.gate = n.gate ∨ folds := by
  cases h with
  | links _ hnode =>
      rw [hnode, hn] at hn'
      cases hn'
      exact .inl rfl
  | restate j f =>
      rw [node?_modifyNode, hn] at hn'
      split at hn' <;> cases hn' <;> exact .inl rfl
  | addNode =>
      cases (node?_addNode_of_node? hn _).symm.trans hn'
      exact .inl rfl
  | removeNode =>
      cases hn.symm.trans (node?_removeNode_eq_some_iff.mp hn').2
      exact .inl rfl
  | absorb =>
      have hmerged := (node?_removeNode_eq_some_iff.mp hn').2
      rw [node?_modifyNode, hn] at hmerged
      split at hmerged <;> cases hmerged <;> exact .inl rfl
  | fold hfolds => exact .inr hfolds

end Upkeep

/-! ## What edits do one after the other -/

namespace Upkept

theorem lineage (h : Upkept folds g g') : Lineage g g' := by
  induction h with
  | refl => exact .refl g
  | tail _ hstep ih => exact ih.trans hstep.lineage

theorem mono {folds' : Prop} (hfolds : folds → folds') (h : Upkept folds g g') :
    Upkept folds' g g' :=
  Relation.ReflTransGen.mono (fun _ _ hstep => Upkeep.mono hfolds hstep) _ _ h

/-- Without folding, a node keeps its gate as long as it stays. -/
theorem gate_eq (h : Upkept False g g') {id : NodeId} {n n' : Node} (hn : g.node? id = some n)
    (hn' : g'.node? id = some n') : n'.gate = n.gate := by
  induction h generalizing n' with
  | refl =>
      rw [hn] at hn'
      cases hn'
      rfl
  | tail hpath hstep ih =>
      -- names are not given again, so the node has been there all the time
      obtain ⟨m, hm⟩ := contains_iff.mp (lineage hpath |>.contains_between hstep.lineage
        (contains_of_node? hn) (contains_of_node? hn'))
      exact ((hstep.gate_eq hm hn').resolve_right not_false).trans (ih hm)

/-- A node without a role does not get one. -/
theorem isRemovable (h : Upkept folds g g') {id : NodeId} {n n' : Node} (hn : g.node? id = some n)
    (hrole : n.isRemovable = true) (hn' : g'.node? id = some n') : n'.isRemovable = true := by
  cases hrole' : n'.isRemovable with
  | true => rfl
  | false =>
      obtain ⟨m, hm, hflag⟩ := h.lineage.flagged hn' hrole'
      rw [hn] at hm
      cases hm
      rw [hrole] at hflag
      cases hflag

variable {g₀ : Circuit}

theorem edit (h : Upkept folds g₀ g) (hstep : Upkeep folds g g') : Upkept folds g₀ g' :=
  h.tail hstep

theorem links (h : Upkept folds g₀ g) (hbound : g'.nodeBound = g.nodeBound)
    (hnode : ∀ id, g'.node? id = g.node? id) : Upkept folds g₀ g' :=
  h.edit (.links hbound hnode)

theorem addNode (h : Upkept folds g₀ g) (n : Node) (hrole : n.isRemovable = true)
    (hblocks : n.blocks = []) : Upkept folds g₀ (g.addNode n) :=
  h.edit (.addNode g hrole hblocks)

theorem removeLinks (h : Upkept folds g₀ g) (ids : List LinkId) :
    Upkept folds g₀ (g.removeLinks ids) :=
  h.links (nodeBound_removeLinks ids) (node?_removeLinks ids)

theorem setSource (h : Upkept folds g₀ g) (i : LinkId) (source : NodeId) :
    Upkept folds g₀ (g.setSource i source) :=
  h.links (nodeBound_setSource i source) (node?_setSource i source)

theorem addLink (h : Upkept folds g₀ g) (l : Link) : Upkept folds g₀ (g.addLink l) :=
  h.links (nodeBound_addLink l) (node?_addLink l)

end Upkept

end Redstone.Circuit
