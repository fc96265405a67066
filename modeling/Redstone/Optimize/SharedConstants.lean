import Redstone.DisjointSets
import Redstone.Optimize.Revision

/-!
# Shared constants

Constants of one strength that feed one connected part of the circuit are merged.
Constants themselves do not connect parts: each part gets a constant of its own
for each strength.
-/

namespace Redstone.Optimize

/-- The node is a constant without a role for the outside world. -/
def isSharable (n : Node) : Bool :=
  n.gate.isConstant && n.isRemovable

/-- The connected parts of the circuit, where links from sharable constants do not
connect. -/
def components (g : Circuit) : DisjointSets :=
  (g.linkIds.filterMap g.link?).foldl
    (fun s l =>
      if (g.node? l.source).any isSharable then s else s.union l.source l.target)
    (DisjointSets.discrete g.nodeBound)

/-- A connected part and a strength. -/
abbrev Demand := Nat × UInt8

/-- The state of the sharing: the circuit and the constant that serves each
demand. -/
structure Sharing where
  circuit : Circuit
  servers : List (Demand × NodeId)

/-- The sharing of one constant: whether it serves a demand, and whether some of
its links have been moved away. -/
structure Share extends Sharing where
  serves : Bool
  moved : Bool

/-- Lets a link start at another constant. -/
def Share.move (s : Share) (i : LinkId) (server : NodeId) : Share :=
  { s with circuit := s.circuit.setSource i server, moved := true }

/-- Finds the constant for one link of constant `id`.  The first demand without a
server is served by the constant itself, any further one by a new constant. -/
def shareLink (part : NodeId → Nat) (id : NodeId) (strength : UInt8) (s : Share) (i : LinkId) :
    Share :=
  match s.circuit.link? i with
  | none => s
  | some l =>
      let demand : Demand := (part l.target, strength)
      match s.servers.lookup demand with
      | some server => if server = id then s else s.move i server
      | none =>
          if s.serves then
            let server := s.circuit.nodeBound
            Share.move
              { s with
                circuit := s.circuit.addNode (.constant strength)
                servers := (demand, server) :: s.servers }
              i server
          else { s with servers := (demand, id) :: s.servers, serves := true }

/-- Finds the constants for all links of constant `id`, which is removed when all
of its links have been moved away.  The second result counts removals. -/
def shareConstant (part : NodeId → Nat) (id : NodeId) (strength : UInt8) (s : Sharing) :
    Sharing × Nat :=
  let share := (s.circuit.outputs id).foldl (shareLink part id strength)
    { s with serves := false, moved := false }
  if share.moved && (share.circuit.outputs id).isEmpty then
    ({ circuit := share.circuit.removeNode id, servers := share.servers }, 1)
  else (share.toSharing, 0)

/-- Shares the constant `id`, if it is one. -/
def shareNode (part : NodeId → Nat) (acc : Sharing × Nat) (id : NodeId) : Sharing × Nat :=
  match acc.1.circuit.node? id with
  | none => acc
  | some n =>
      if isSharable n then
        let (s, removed) := shareConstant part id n.state.strength acc.1
        (s, acc.2 + removed)
      else acc

/-- Merges constants of equal strength within each connected part. -/
def shareConstants (g : Circuit) : Revision :=
  let parts := components g
  let (s, removed) := g.nodeIds.foldl (shareNode parts.root) ({ circuit := g, servers := [] }, 0)
  { circuit := s.circuit, changes := removed }

end Redstone.Optimize
