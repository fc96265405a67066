import Redstone.Circuit.Basic

/-!
# Input power

The power at the inputs of a node is the strongest of the signals that reach each
channel, after the losses on their links.  It is computed from any assignment of
strengths to the nodes; `inputPower` takes the strengths stored in the circuit.
-/

namespace Redstone

/-- A signal arrives on a channel. -/
def Power.receive (p : Power) (channel : Channel) (strength : UInt8) : Power :=
  match channel with
  | .side => { p with side := max p.side strength }
  | _ => { p with main := max p.main strength }

namespace Circuit

/-- The strength that a node puts out, zero for a node that is not there. -/
def strength (g : Circuit) (id : NodeId) : UInt8 :=
  ((g.node? id).map fun n => n.state.strength).getD 0

/-- The power that links bring when node `id` puts out the strength `σ id`. -/
def powerOf (σ : NodeId → UInt8) (links : List Link) : Power :=
  links.foldl (fun p l => p.receive l.channel (attenuate (σ l.source) l.loss)) {}

/-- The power at a node when node `id` puts out the strength `σ id`. -/
def powerUnder (g : Circuit) (σ : NodeId → UInt8) (id : NodeId) : Power :=
  powerOf σ (g.inLinks id)

/-- The power at a node in the present state of the circuit. -/
def inputPower (g : Circuit) (id : NodeId) : Power :=
  g.powerUnder g.strength id

/-- All sources of the node are constants. -/
def hasConstantInputs (g : Circuit) (id : NodeId) : Bool :=
  (g.inLinks id).all fun l => (g.node? l.source).any fun n => n.gate.isConstant

end Circuit

end Redstone
