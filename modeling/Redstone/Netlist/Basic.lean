import Redstone.Circuit.Power
import Redstone.Netlist.ForwardLink

/-!
# Netlists

A netlist is a circuit in its final form: the nodes are numbered without gaps,
and each one carries its inputs, the nodes it feeds, and its links packed for the
way forward.  The forward links are built from the inputs by `relink`.
-/

namespace Redstone

/-- A link into a node of a netlist. -/
structure NetInput where
  channel : Channel
  loss : UInt8
  source : UInt32
deriving DecidableEq, Repr, Inhabited

/-- The written form of an input. -/
def NetInput.text (i : NetInput) : String :=
  toString i.source.toNat ++ ":" ++ Link.labelText i.channel i.loss

/-- A node of a netlist. -/
structure NetNode extends Node where
  inputs : List NetInput := []
  outputs : List UInt32 := []
  links : List ForwardLink := []
deriving DecidableEq, Repr, Inhabited

/-- A netlist. -/
structure Netlist where
  nodes : Array NetNode
deriving DecidableEq, Repr, Inhabited

namespace Netlist

/-- The netlist without nodes. -/
def empty : Netlist where
  nodes := #[]

/-- The number of nodes. -/
def size (n : Netlist) : Nat :=
  n.nodes.size

/-- The number of links. -/
def linkCount (n : Netlist) : Nat :=
  n.nodes.foldl (fun count node => count + node.inputs.length) 0

/-- The written form of the size of a netlist. -/
def summary (n : Netlist) : String :=
  "#nodes=" ++ toString n.size ++ " #links=" ++ toString n.linkCount

/-- All inputs, each with the number of the node it belongs to. -/
def wires (n : Netlist) : List (Nat × NetInput) :=
  n.nodes.toList.zipIdx.flatMap fun (node, index) => node.inputs.map (index, ·)

/-- The forward link for an input of node `index`. -/
def forward (index : Nat) (input : NetInput) : ForwardLink :=
  .pack (UInt32.ofNat index) (input.channel == .side) input.loss

/-- The forward links of every node, in the order of their targets. -/
def forwardLinks (n : Netlist) : Array (List ForwardLink) :=
  n.wires.foldr
    (fun (index, input) lists => lists.modify input.source.toNat (forward index input :: ·))
    (Array.replicate n.size [])

/-- Rebuilds all forward links from the inputs. -/
def relink (n : Netlist) : Netlist :=
  let lists := n.forwardLinks
  { nodes := n.nodes.mapIdx fun index node => { node with links := lists.getD index [] } }

/-- The node that stands for a position: the first one in the order of numbers. -/
def lookup (n : Netlist) (p : Position) : Option Nat :=
  n.nodes.toList.findIdx? fun node => node.blocks.any fun b => b.position == p

/-- The strength that a node puts out, zero for a number without a node. -/
def strength (n : Netlist) (index : Nat) : UInt8 :=
  (n.nodes[index]?.map fun node => node.state.strength).getD 0

/-- The power that inputs bring when node number `i` puts out the strength `σ i`. -/
def powerOf (σ : Nat → UInt8) (inputs : List NetInput) : Power :=
  inputs.foldl (fun p i => p.receive i.channel (attenuate (σ i.source.toNat) i.loss)) {}

/-- The power at a node in the present state of the netlist, if there is such a
node. -/
def inputPower? (n : Netlist) (index : Nat) : Option Power :=
  n.nodes[index]?.map fun node => powerOf n.strength node.inputs

/-- A number that no node has. -/
structure IndexError where
  index : Nat
  size : Nat
deriving DecidableEq, Repr

/-- The wording of an index error. -/
def IndexError.message (e : IndexError) : String :=
  "runtime error: index out of range [" ++ toString e.index ++ "] with length " ++
    toString e.size

/-- The power at a node. -/
def inputPower (n : Netlist) (index : Nat) : Except IndexError Power :=
  match n.inputPower? index with
  | some p => .ok p
  | none => .error { index, size := n.size }

/-- Changes the state of a node. -/
def setState (n : Netlist) (index : Nat) (s : GateState) : Except IndexError Netlist :=
  if index < n.size then
    .ok { nodes := n.nodes.modify index fun node => { node with state := s } }
  else .error { index, size := n.size }

/-- The states of all nodes. -/
def states (n : Netlist) : List GateState :=
  n.nodes.toList.map fun node => node.state

end Netlist

end Redstone
