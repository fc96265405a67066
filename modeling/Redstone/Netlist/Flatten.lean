import Redstone.Netlist.Basic

/-!
# From circuits to netlists

The nodes of a circuit are numbered in the order of their names, and links are
renamed accordingly.  A netlist holds losses up to fifteen only, so a circuit
with a greater loss has no netlist; nor has one with more nodes than a forward
link can tell apart.
-/

namespace Redstone

/-- Why a circuit has no netlist. -/
inductive FlattenError where
  | tooManyNodes (count : Nat)
  | excessiveLoss (link : Link)
deriving DecidableEq, Repr

/-- The wording of a flattening error. -/
def FlattenError.message : FlattenError → String
  | tooManyNodes count =>
      "too many nodes: " ++ toString count ++ " > " ++ toString ForwardLink.maxNodes
  | excessiveLoss link =>
      "link " ++ link.text ++ ": weight " ++ toString link.loss.toNat ++ " not clamped"

namespace Circuit

/-- The number of a node in the netlist: its place among the nodes `ids`. -/
def netIndex (ids : List NodeId) (id : NodeId) : UInt32 :=
  UInt32.ofNat (ids.idxOf id)

/-- An input of a node of the netlist. -/
def flattenLink (ids : List NodeId) (l : Link) : Except FlattenError NetInput :=
  if maxStrength < l.loss then .error (.excessiveLoss l)
  else .ok { channel := l.channel, loss := l.loss, source := netIndex ids l.source }

/-- A node of the netlist, without forward links. -/
def flattenNode (g : Circuit) (ids : List NodeId) (id : NodeId) (n : Node) :
    Except FlattenError NetNode := do
  let inputs ← (g.inLinks id).mapM (flattenLink ids)
  return { n with inputs, outputs := (g.successors id).map (netIndex ids) }

/-- The netlist of a circuit. -/
def flatten (g : Circuit) : Except FlattenError Netlist := do
  let ids := g.nodeIds
  if ForwardLink.maxNodes < ids.length then throw (.tooManyNodes ids.length)
  let nodes ← g.nodes.mapM fun (id, n) => g.flattenNode ids id n
  return Netlist.relink { nodes := nodes.toArray }

end Circuit

end Redstone
