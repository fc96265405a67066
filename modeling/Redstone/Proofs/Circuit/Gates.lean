import Mathlib.Data.Finset.Card
import Redstone.Proofs.Circuit.Lineage

/-!
# Gates that come and go

Most revisions bring no gates into a circuit but constants.  Under such a revision the number of
nodes that are no constants does not grow, and when no gate is left that could be folded, it stays
so.
-/

namespace Redstone.Circuit

variable {g g₁ g₂ : Circuit}

/-- Every node of `g₂` is a constant, or it is in `g₁`, too, with the same gate. -/
def GatesWithin (g₁ g₂ : Circuit) : Prop :=
  ∀ id n₂, g₂.node? id = some n₂ → n₂.gate = .constant ∨
    ∃ n₁, g₁.node? id = some n₁ ∧ n₂.gate = n₁.gate

namespace GatesWithin

theorem refl (g : Circuit) : GatesWithin g g :=
  fun _ n hn => .inr ⟨n, hn, rfl⟩

/-- Gates that stay over one revision and then over another stay over both. -/
theorem trans {g₃ : Circuit} (h : GatesWithin g₁ g₂) (h' : GatesWithin g₂ g₃) :
    GatesWithin g₁ g₃ := by
  intro id n₃ hn₃
  rcases h' id n₃ hn₃ with hconst | ⟨n₂, hn₂, hgate⟩
  · exact .inl hconst
  · rw [hgate]
    exact h id n₂ hn₂

theorem of_node?_eq (hnode : ∀ id, g₂.node? id = g₁.node? id) : GatesWithin g₁ g₂ :=
  fun id n₂ hn₂ => .inr ⟨n₂, (hnode id).symm.trans hn₂, rfl⟩

theorem removeLinks (h : GatesWithin g₁ g₂) (ids : List LinkId) :
    GatesWithin g₁ (g₂.removeLinks ids) :=
  h.trans (of_node?_eq (node?_removeLinks ids))

theorem setSource (h : GatesWithin g₁ g₂) (i : LinkId) (source : NodeId) :
    GatesWithin g₁ (g₂.setSource i source) :=
  h.trans (of_node?_eq (node?_setSource i source))

theorem addLink (h : GatesWithin g₁ g₂) (l : Link) : GatesWithin g₁ (g₂.addLink l) :=
  h.trans (of_node?_eq (node?_addLink l))

/-- Constants may be added as they please. -/
theorem addConstant (h : GatesWithin g₁ g₂) (strength : UInt8) :
    GatesWithin g₁ (g₂.addNode (.constant strength)) := by
  refine h.trans fun id n hn => ?_
  rw [node?_addNode] at hn
  split at hn
  · cases hn
    exact .inl rfl
  · exact .inr ⟨n, hn, rfl⟩

/-- A node may be changed as long as its gate is not. -/
theorem modifyNode (h : GatesWithin g₁ g₂) (id : NodeId) {f : Node → Node}
    (hgate : ∀ n, (f n).gate = n.gate) : GatesWithin g₁ (g₂.modifyNode id f) := by
  refine h.trans fun j m hm => .inr ?_
  rw [node?_modifyNode] at hm
  split at hm
  · obtain ⟨n, hn, rfl⟩ := Option.map_eq_some_iff.mp hm
    exact ⟨n, hn, hgate n⟩
  · exact ⟨m, hm, rfl⟩

theorem removeNode (h : GatesWithin g₁ g₂) (id : NodeId) :
    GatesWithin g₁ (g₂.removeNode id) := by
  exact h.trans fun j m hm => .inr ⟨m, (node?_removeNode_eq_some_iff.mp hm).2, rfl⟩

end GatesWithin

/-! ## Inert circuits -/

/-- No gate is left that could be folded. -/
def Inert (g : Circuit) : Prop :=
  ∀ id n, g.node? id = some n → n.gate.isFoldable = false

/-- What cannot be folded is not made foldable by constants that are added. -/
theorem Inert.of_gatesWithin (h : g₁.Inert) (hgates : GatesWithin g₁ g₂) : g₂.Inert := by
  intro id n₂ hn₂
  rcases hgates id n₂ hn₂ with hconst | ⟨n₁, hn₁, hgate⟩
  · rw [hconst]
    rfl
  · rw [hgate]
    exact h id n₁ hn₁

/-! ## Nodes that are no constants -/

/-- The nodes that are no constants. -/
def variableNodes (g : Circuit) : Finset NodeId :=
  g.nodeIds.toFinset.filter fun id => (g.node? id).any fun n => !n.gate.isConstant

theorem mem_variableNodes {id : NodeId} : id ∈ g.variableNodes ↔
    ∃ n, g.node? id = some n ∧ n.gate.isConstant = false := by
  rw [variableNodes, Finset.mem_filter, List.mem_toFinset, mem_nodeIds, Option.any_eq_true]
  constructor
  · rintro ⟨-, n, hn, hconst⟩
    exact ⟨n, hn, by simpa using hconst⟩
  · rintro ⟨n, hn, hconst⟩
    exact ⟨contains_of_node? hn, n, hn, by simpa using hconst⟩

theorem card_variableNodes_le (g : Circuit) : g.variableNodes.card ≤ g.nodeIds.length :=
  (Finset.card_filter_le _ _).trans (List.toFinset_card_le _)

/-- No node comes to be variable. -/
theorem variableNodes_subset (h : GatesWithin g₁ g₂) : g₂.variableNodes ⊆ g₁.variableNodes := by
  intro id hid
  obtain ⟨n₂, hn₂, hvariable⟩ := mem_variableNodes.mp hid
  rcases h id n₂ hn₂ with hconst | ⟨n₁, hn₁, hgate⟩
  · rw [hconst] at hvariable
    cases hvariable
  · exact mem_variableNodes.mpr ⟨n₁, hn₁, hgate ▸ hvariable⟩

end Redstone.Circuit
