import Redstone.Circuit.Power
import Redstone.Optimize.Revision

/-!
# Folded constants

A gate whose sources are all constant puts out a constant itself.  It is turned
into one and loses its links; this may make further gates constant, so that the
sweep is repeated until it finds none.
-/

namespace Redstone.Optimize

/-- Turns a node into a constant without sources. -/
def makeConstant (g : Circuit) (id : NodeId) (strength : UInt8) : Circuit :=
  (g.modifyNode id fun n => { n with gate := .constant, state := .ofStrength strength }).removeLinks
    (g.inputs id)

/-- Folds a node, if all of its sources are constants and its output can be
computed. -/
def foldNode (id : NodeId) (g : Circuit) : Revision :=
  match g.node? id with
  | none => .unchanged g
  | some n =>
      if n.gate.isConstant || !g.hasConstantInputs id then .unchanged g
      else match n.gate.fold n.state (g.inputPower id) with
        | none => .unchanged g
        | some strength => .once (makeConstant g id strength)

/-- Folds nodes, each looked at once in increasing order. -/
def foldSweep (g : Circuit) : Revision :=
  Revision.sweep foldNode g.nodeIds g

/-- Folds until no node can be folded.  Every sweep but the last one folds a node,
so there are no more sweeps than nodes and one. -/
def foldConstants (g : Circuit) : Revision :=
  Revision.untilStable foldSweep (g.nodeBound + 1) g

end Redstone.Optimize
