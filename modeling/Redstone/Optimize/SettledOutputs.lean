import Redstone.Circuit.Power
import Redstone.Optimize.Revision

/-!
# Settled outputs

An output whose sources are all constant never changes.  It takes the state that
it settles to and is fed by a single constant of its own, so that the sources
behind it are no longer needed.
-/

namespace Redstone.Optimize

/-- The node is fed by a single link to its main input without loss. -/
def isSettled (g : Circuit) (id : NodeId) : Bool :=
  match g.inLinks id with
  | [l] => l.channel == .main && l.loss == 0
  | _ => false

/-- Feeds a node from a new constant. -/
def feedConstant (g : Circuit) (id : NodeId) (strength : UInt8) : Circuit :=
  (g.addNode (.constant strength)).addLink
    { source := g.nodeBound, target := id, channel := .main, loss := 0 }

/-- Gives the node the state that it settles to. -/
def settleNode (g : Circuit) (id : NodeId) : Circuit :=
  g.modifyNode id fun n => { n with state := n.gate.settle n.state (g.inputPower id) }

/-- Replaces the sources of a node by one constant, or by none if they bring no
power to its main input. -/
def refeed (g : Circuit) (id : NodeId) (main : UInt8) : Circuit :=
  let bare := g.removeLinks (g.inputs id)
  if 0 < main then feedConstant bare id main else bare

/-- Settles an output that has sources, all of them constant. -/
def settleOutput (id : NodeId) (g : Circuit) : Revision :=
  match g.node? id with
  | none => .unchanged g
  | some n =>
      if !n.isOutput || !g.hasConstantInputs id || (g.inputs id).isEmpty then .unchanged g
      else if isSettled g id then .unchanged (settleNode g id)
      else .once (refeed (settleNode g id) id (g.inputPower id).main)

/-- Settles the outputs, node by node. -/
def settleOutputs (g : Circuit) : Revision :=
  Revision.sweep settleOutput g.nodeIds g

end Redstone.Optimize
