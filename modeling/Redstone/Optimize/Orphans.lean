import Redstone.Optimize.Revision

/-!
# Orphans

A node without outputs that has no role for the outside world does nothing and is
removed.  Its sources may thereby lose their last output, so that the sweep is
repeated until it finds no orphan.
-/

namespace Redstone.Optimize

/-- The node has no outputs and no role for the outside world. -/
def isOrphan (g : Circuit) (id : NodeId) : Bool :=
  (g.node? id).any Node.isRemovable && (g.outputs id).isEmpty

/-- Removes the node, if it is an orphan. -/
def pruneNode (id : NodeId) (g : Circuit) : Revision :=
  if isOrphan g id then .once (g.removeNode id) else .unchanged g

/-- Removes orphans, node by node from the last one on. -/
def pruneSweep (g : Circuit) : Revision :=
  Revision.sweep pruneNode g.nodeIds.reverse g

/-- Removes orphans until there are none.  Every sweep but the last one removes a
node, so there are no more sweeps than nodes and one. -/
def pruneOrphans (g : Circuit) : Revision :=
  Revision.untilStable pruneSweep (g.nodeBound + 1) g

end Redstone.Optimize
