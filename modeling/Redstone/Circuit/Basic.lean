import Redstone.Gate.Logic
import Redstone.Space.Position
import Redstone.Text.Quoted
import Redstone.Text.Truth

/-!
# Circuits

A circuit is a directed multigraph of gates.  Nodes and links are named by their
place in two arrays, and a removed node or link leaves its place empty, so that
a name is never given twice.  Every link is also listed at both of its ends, in
the order in which it came there.

The view of a circuit consists of `node?`, `link?`, `inputs` and `outputs`.
-/

namespace Redstone

/-- The input of a gate at which a link ends.  `undefined e` is the code `2 + e`;
it is another main input. -/
inductive Channel where
  | main
  | side
  | undefined (excess : Fin 254)
deriving DecidableEq, Repr, Inhabited

namespace Channel

/-- The stored code of a channel. -/
def code : Channel → UInt8
  | main => 0
  | side => 1
  | undefined e => UInt8.ofNat (2 + e.val)

/-- The channel with the given code. -/
def ofCode (c : UInt8) : Channel :=
  if c = 0 then main
  else if c = 1 then side
  else undefined ⟨c.toNat - 2, by have := c.toNat_lt; omega⟩

theorem code_ofCode (c : UInt8) : (ofCode c).code = c := by
  unfold ofCode
  split
  · simp_all [code]
  split
  · simp_all [code]
  have hzero : c.toNat ≠ 0 := fun h => by simp_all [← UInt8.toNat_inj]
  have hone : c.toNat ≠ 1 := fun h => by simp_all [← UInt8.toNat_inj]
  have hsum : 2 + (c.toNat - 2) = c.toNat := by omega
  simp [code, hsum]

theorem ofCode_code (c : Channel) : ofCode c.code = c := by
  cases c with
  | undefined e =>
      have hcode : (undefined e).code.toNat = e.val + 2 := by
        have := e.isLt
        simp [code]
        omega
      have hzero : (undefined e).code ≠ 0 := fun h => by simp [h] at hcode
      have hone : (undefined e).code ≠ 1 := fun h => by simp [h] at hcode
      simp [ofCode, hzero, hone, hcode]
  | _ => rfl

/-- The name of a channel. -/
def name : Channel → String
  | side => "side"
  | _ => "default"

end Channel

/-- The block of the world that a node stands for. -/
structure BlockRef where
  position : Position
  id : UInt32
deriving DecidableEq, Repr, Inhabited

/-- The written form of a block reference. -/
def BlockRef.text (b : BlockRef) : String :=
  b.position.text ++ "#" ++ Text.hex b.id.toNat

/-- A node of a circuit: a gate with its state, the blocks it stands for, and its
role for the outside world. -/
structure Node where
  gate : Gate
  blocks : List BlockRef := []
  state : GateState := {}
  isInput : Bool := false
  isOutput : Bool := false
deriving DecidableEq, Repr, Inhabited

namespace Node

/-- The node has no role for the outside world. -/
def isRemovable (n : Node) : Bool :=
  !n.isInput && !n.isOutput

/-- A constant source without blocks. -/
def constant (strength : UInt8) : Node :=
  { gate := .constant, state := .ofStrength strength }

/-- The written form of a node. -/
def text (n : Node) : String :=
  n.gate.text ++ Text.inBraces ("ss=" ++ toString n.state.strength.toNat ++
    ",in=" ++ Truth.text n.isInput ++ ",out=" ++ Truth.text n.isOutput)

end Node

/-- The name of a node.  It is a number where a word of 32 bits would do: the two agree while fewer
than `2 ^ 32` names have been given.  No name is above the number of calls that have been made on a
circuit, which `Redstone.Proofs.Circuit.Sessions` proves of every sequence of calls. -/
abbrev NodeId := Nat

/-- The name of a link, with the same limit as the name of a node. -/
abbrev LinkId := Nat

/-- The written form of a node's name. -/
def NodeId.text (id : NodeId) : String :=
  "n" ++ toString id

/-- A link from one node to an input of another, and the strength lost on it. -/
structure Link where
  source : NodeId
  target : NodeId
  channel : Channel
  loss : UInt8
deriving DecidableEq, Repr, Inhabited

namespace Link

/-- The written form of a channel with a loss. -/
def labelText (channel : Channel) (loss : UInt8) : String :=
  channel.name ++ ":" ++ toString loss.toNat

/-- The written form of the attributes of a link. -/
def label (l : Link) : String :=
  labelText l.channel l.loss

/-- The written form of a link. -/
def text (l : Link) : String :=
  NodeId.text l.source ++ "->" ++ NodeId.text l.target ++ "[" ++ l.label ++ "]"

end Link

/-- A node with the links that end and that start at it. -/
structure Slot where
  node : Node
  inputs : List LinkId := []
  outputs : List LinkId := []
deriving DecidableEq, Repr, Inhabited

/-- A circuit. -/
structure Circuit where
  slots : Array (Option Slot)
  links : Array (Option Link)
  nodeCount : Nat
  linkCount : Nat
deriving DecidableEq, Repr

namespace Circuit

/-- The circuit without nodes. -/
def empty : Circuit where
  slots := #[]
  links := #[]
  nodeCount := 0
  linkCount := 0

instance : Inhabited Circuit := ⟨empty⟩
instance : EmptyCollection Circuit := ⟨empty⟩

/-- A bound of all node names that have been given. -/
def nodeBound (g : Circuit) : Nat :=
  g.slots.size

/-- A bound of all link names that have been given. -/
def linkBound (g : Circuit) : Nat :=
  g.links.size

/-- The slot of a node, unless it has been removed. -/
def slot? (g : Circuit) (id : NodeId) : Option Slot :=
  g.slots[id]?.join

/-- The node with the given name, unless it has been removed. -/
def node? (g : Circuit) (id : NodeId) : Option Node :=
  (g.slot? id).map Slot.node

/-- The link with the given name, unless it has been removed. -/
def link? (g : Circuit) (id : LinkId) : Option Link :=
  g.links[id]?.join

/-- The node is in the circuit. -/
def contains (g : Circuit) (id : NodeId) : Bool :=
  (g.slot? id).isSome

/-- The links that end at a node. -/
def inputs (g : Circuit) (id : NodeId) : List LinkId :=
  ((g.slot? id).map Slot.inputs).getD []

/-- The links that start at a node. -/
def outputs (g : Circuit) (id : NodeId) : List LinkId :=
  ((g.slot? id).map Slot.outputs).getD []

/-- The nodes of the circuit in increasing order. -/
def nodeIds (g : Circuit) : List NodeId :=
  (List.range g.slots.size).filter fun id => (g.slot? id).isSome

/-- The links of the circuit in increasing order. -/
def linkIds (g : Circuit) : List LinkId :=
  (List.range g.links.size).filter fun id => (g.link? id).isSome

/-- The nodes of the circuit with their names, in increasing order. -/
def nodes (g : Circuit) : List (NodeId × Node) :=
  g.nodeIds.filterMap fun id => (g.node? id).map (id, ·)

/-- The links that end at a node, with their attributes. -/
def inLinks (g : Circuit) (id : NodeId) : List Link :=
  (g.inputs id).filterMap g.link?

/-- The links that start at a node, with their attributes. -/
def outLinks (g : Circuit) (id : NodeId) : List Link :=
  (g.outputs id).filterMap g.link?

/-- The nodes that a node has links to, each once, in the order of its links. -/
def successors (g : Circuit) (id : NodeId) : List NodeId :=
  ((g.outLinks id).map Link.target).eraseDups

/-- The written form of the size of a circuit. -/
def summary (g : Circuit) : String :=
  "#nodes=" ++ toString g.nodeCount ++ " #links=" ++ toString g.linkCount

end Circuit

end Redstone
