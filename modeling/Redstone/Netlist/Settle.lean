import Redstone.Netlist.Basic

/-!
# Settling netlists

A round evaluates every node once, in the order of numbers, and each node sees
the states that the nodes before it have taken in the same round.  A netlist is
settled when a round changes nothing.  Delays are ignored, so that a clock never
settles.
-/

namespace Redstone.Netlist

/-- The state that a node takes next. -/
def nextState (n : Netlist) (node : NetNode) : GateState :=
  node.gate.settle node.state (powerOf n.strength node.inputs)

/-- Evaluates node `index`. -/
def update (n : Netlist) (index : Nat) : Netlist :=
  match n.nodes[index]? with
  | none => n
  | some node =>
      let state := n.nextState node
      if state = node.state then n
      else { nodes := n.nodes.setIfInBounds index { node with state } }

/-- Evaluates every node once. -/
def round (n : Netlist) : Netlist :=
  (List.range n.size).foldl update n

/-- Runs rounds until one changes nothing, but at most the given number.  The
second result tells whether a round without a change was reached. -/
def settle : Nat → Netlist → Netlist × Bool
  | 0, n => (n, false)
  | rounds + 1, n =>
      let next := n.round
      if next = n then (next, true) else settle rounds next

/-- Gives the input nodes strengths from a list, which is used again from its
start when it is too short. -/
def driveInputs (n : Netlist) (strengths : List UInt8) : Netlist :=
  let inputs := (List.range n.size).filter fun i => n.nodes[i]?.any fun node => node.isInput
  { nodes := inputs.zipIdx.foldl
      (fun nodes (i, k) =>
        nodes.modify i fun node =>
          { node with state := .ofStrength (strengths.getD (k % strengths.length) 0) })
      n.nodes }

end Redstone.Netlist
