import Redstone.Optimize.Revision

/-!
# Analog buses

An analog bus carries a signal strength over repeaters, which by themselves only
know on and off: a comparator feeds fifteen repeaters, one for each strength, and
they all feed another comparator in such a way that the strength comes out
unchanged.  One comparator does the same.
-/

namespace Redstone.Optimize

/-- The number of repeaters of a bus: one for each strength but zero. -/
def busWidth : Nat := maxStrength.toNat

/-- One line of a bus: a link into a repeater and the link out of it. -/
structure BusLine where
  repeater : NodeId
  inLoss : UInt8
  target : NodeId
  channel : Channel
  outLoss : UInt8
deriving DecidableEq, Repr

/-- The losses of a line add up to what its strength needs. -/
def BusLine.isTuned (line : BusLine) : Bool :=
  line.inLoss.toNat + line.outLoss.toNat + 1 == busWidth

/-- The link leads into a repeater of delay one that has no other input, has one
output, and may be removed. -/
def busLine? (g : Circuit) (id : LinkId) : Option BusLine := do
  let l ← g.link? id
  let n ← g.node? l.target
  if l.channel = .main ∧ n.gate = .repeater 1 false ∧ n.isRemovable ∧
      (g.inputs l.target).length = 1 then
    match g.outputs l.target with
    | [out] => do
        let m ← g.link? out
        return {
          repeater := l.target
          inLoss := l.loss
          target := m.target
          channel := m.channel
          outLoss := m.loss }
    | _ => none
  else none

/-- The lines of the bus that starts at `source`: fifteen of them, all tuned, no
two with the same loss, all to one channel of one other comparator. -/
def busLines? (g : Circuit) (source : NodeId) : Option (List BusLine) := do
  let lines ← (g.outputs source).mapM (busLine? g)
  let first ← lines.head?
  let target ← g.node? first.target
  if lines.length = busWidth ∧
      lines.all (fun line =>
        line.isTuned && line.target == first.target && line.channel == first.channel) ∧
      (lines.map BusLine.inLoss).Nodup ∧
      first.target ≠ source ∧ target.gate.isComparator then
    some lines
  else none

/-- Replaces the lines of a bus by one comparator. -/
def replaceBus (g : Circuit) (source : NodeId) (lines : List BusLine) (first : BusLine) :
    Circuit :=
  let bare := lines.foldl (fun g line => g.removeNode line.repeater) g
  let bus := bare.nodeBound
  let added := bare.addNode
    { gate := .comparator .compare false
      state := .ofStrength (((g.node? source).map fun n => n.state.strength).getD 0) }
  (added.addLink { source, target := bus, channel := .main, loss := 0 }).addLink
    { source := bus, target := first.target, channel := first.channel, loss := 0 }

/-- Collapses the bus that starts at a node, if there is one. -/
def collapseBus (source : NodeId) (g : Circuit) : Revision :=
  match busLines? g source with
  | some (first :: rest) => .once (replaceBus g source (first :: rest) first)
  | _ => .unchanged g

/-- Collapses the bus that starts at a node, if the node is a comparator. -/
def collapseBusAt (id : NodeId) (g : Circuit) : Revision :=
  if (g.node? id).any fun n => n.gate.isComparator then collapseBus id g else .unchanged g

/-- Collapses all buses. -/
def collapseBuses (g : Circuit) : Revision :=
  Revision.sweep collapseBusAt g.nodeIds g

end Redstone.Optimize
