import Redstone.Circuit.Power
import Redstone.Optimize.Revision

/-!
# Dead links

A link whose loss is not below the greatest strength that its source can put out
never carries power.  A constant puts out its own strength, and a subtracting
comparator at most what its constant side inputs leave over.
-/

namespace Redstone.Optimize

/-- What a constant side input brings, zero for any other link. -/
def constantSide (g : Circuit) (l : Link) : UInt8 :=
  match g.node? l.source with
  | some n =>
      if l.channel = .side ∧ n.gate.isConstant then attenuate n.state.strength l.loss else 0
  | none => 0

/-- The strongest of the constant side inputs of a node. -/
def sideFloor (g : Circuit) (id : NodeId) : UInt8 :=
  (g.inLinks id).foldl (fun s l => max s (constantSide g l)) 0

/-- A bound of the strength that a node can put out. -/
def maxOutput (g : Circuit) (id : NodeId) : UInt8 :=
  match g.node? id with
  | none => maxStrength
  | some n =>
      match n.gate.type with
      | .constant => n.state.strength
      | .comparator =>
          if n.gate.mode = .subtract then maxStrength - sideFloor g id else maxStrength
      | _ => maxStrength

/-- The links from a node that never carry power. -/
def deadLinks (g : Circuit) (id : NodeId) : List LinkId :=
  let limit := maxOutput g id
  (g.outputs id).filter fun i => (g.link? i).any fun l => limit ≤ l.loss

/-- Removes the dead links from a node. -/
def pruneLinksAt (id : NodeId) (g : Circuit) : Revision :=
  let dead := deadLinks g id
  { circuit := g.removeLinks dead, changes := dead.length }

/-- Removes the dead links, node by node. -/
def pruneDeadLinks (g : Circuit) : Revision :=
  Revision.sweep pruneLinksAt g.nodeIds g

end Redstone.Optimize
