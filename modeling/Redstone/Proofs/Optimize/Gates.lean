import Redstone.Proofs.Circuit.Gates
import Redstone.Proofs.Optimize.SteadyStates

/-!
# Passes that bring constants only

From the folding of constants on, no pass brings a gate into the circuit that is no constant.
-/

namespace Redstone.Optimize

open Circuit

variable {g : Circuit}

/-- A folded node is a constant, and no other gate is touched. -/
theorem gatesWithin_makeConstant {id : NodeId} {n : Node} (hn : g.node? id = some n) (s : UInt8) :
    GatesWithin g (makeConstant g id s) := by
  intro j m hm
  rw [node?_makeConstant hn] at hm
  split at hm
  · cases hm
    exact .inl rfl
  · exact .inr ⟨m, hm, rfl⟩

/-! ## Unreachable outputs -/

/-- A settled output keeps its gate, and what feeds it now is a constant. -/
theorem gatesWithin_removeUnreachable (g : Circuit) :
    GatesWithin g (Pass.removeUnreachable g).1 :=
  Pass.removeUnreachable_keeps (P := GatesWithin g) (fun hg => hg.removeLinks _)
    (fun hg => hg.modifyNode _ fun _ => rfl) (fun hg => (hg.addConstant _).addLink _) (.refl g)

/-! ## Shared constants, duplicates and orphans -/

theorem gatesWithin_shareConstants (g : Circuit) : GatesWithin g (shareConstants g).circuit :=
  shareConstants_keeps (P := GatesWithin g) (fun hg => hg.setSource _ _)
    (fun hg _ _ => hg.addConstant _) (fun hg _ _ => hg.removeNode _) (.refl g)

/-- The node that is left of two duplicates has the gate that it had before. -/
theorem gatesWithin_merge {g₀ : Circuit} (h : GatesWithin g₀ g) (twin into : NodeId) :
    GatesWithin g₀ (merge g twin into) := by
  refine merge_keeps (P := GatesWithin g₀) (fun {_ i} hg => hg.setSource i into)
    (fun {_ i} hg => hg.removeLinks [i]) (fun hg => GatesWithin.removeNode ?_ twin) h
  exact hg.modifyNode into fun _ => rfl

theorem gatesWithin_mergeDuplicates (g : Circuit) : GatesWithin g (mergeDuplicates g).circuit :=
  mergeDuplicates_keeps (P := GatesWithin g) (fun hg _ => gatesWithin_merge hg _ _) (.refl g)

theorem gatesWithin_pruneOrphans (g : Circuit) : GatesWithin g (pruneOrphans g).circuit :=
  pruneOrphans_keeps (P := GatesWithin g) (fun hg _ _ _ => hg.removeNode _) (.refl g)

end Redstone.Optimize
