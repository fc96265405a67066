import Redstone.Block.Id
import Redstone.Circuit.Edit
import Redstone.World.Basic

/-!
# Finding components

Every block that can carry, switch or use a signal becomes a node.  The blocks of
a region are taken in scanning order, and the nodes are added in that order.
-/

namespace Redstone.Survey

/-- The state of a component that is either at full strength or off. -/
def poweredState (powered : Bool) : GateState :=
  if powered then .ofStrength maxStrength else {}

/-- The diode at `p` puts out into another diode. -/
def facesDiode (w : World) (p : Position) (b : Block) : Bool :=
  (w.get (p.step b.facing)).material.isDiode

/-- The level of the container that a comparator at `p` reads: directly behind it,
or behind one solid block. -/
def farInput? (w : World) (p : Position) (b : Block) : Option UInt8 :=
  let back := b.facing.opposite
  let behind := w.get (p.step back)
  match behind.material with
  | .container => some behind.power
  | .solid =>
      let beyond := w.get ((p.step back).step back)
      if beyond.material = .container then some beyond.power else none
  | _ => none

/-- The gate of a comparator block. -/
def comparatorGate (w : World) (p : Position) (b : Block) : Gate :=
  let gate := Gate.comparator (if b.subtract then .subtract else .compare) (facesDiode w p b)
  match farInput? w p b with
  | some level => { gate with farInput := level, hasFarInput := true }
  | none => gate

/-- The node for the block `b` at position `p`, if it is a component. -/
def component? (w : World) (p : Position) (b : Block) : Option Node :=
  let blocks : List BlockRef := [{ position := p, id := b.id }]
  match b.material with
  | .repeater => some
      { gate := .repeater (if b.delay = 0 then 1 else b.delay) (facesDiode w p b)
        blocks
        state := { poweredState b.powered with locked := b.locked } }
  | .comparator => some { gate := comparatorGate w p b, blocks, state := .ofStrength b.power }
  | .torch => some { gate := .plain .torch, blocks, state := poweredState b.powered }
  | .lamp => some
      { gate := .plain .lamp, blocks, state := { powered := b.powered }, isOutput := true }
  | .trapdoor => some
      { gate := .plain .trapdoor, blocks, state := { powered := b.powered }, isOutput := true }
  | .noteBlock => some
      { gate := { type := .noteBlock, instrument := b.instrument, note := b.note }
        blocks
        state := { powered := b.powered }
        isOutput := true }
  | .lever => some
      { gate := .plain .lever, blocks, state := poweredState b.powered, isInput := true }
  | .button => some
      { gate := .plain .button, blocks, state := poweredState b.powered, isInput := true }
  | .pressurePlate => some
      { gate := .plain .pressurePlate, blocks, state := poweredState b.powered, isInput := true }
  | .wire => some { gate := .plain .wire, blocks, state := .ofStrength b.power }
  | .redstoneBlock => some { gate := .constant, blocks, state := .ofStrength maxStrength }
  | _ => none

/-- The nodes for the components of a region.  A world lists its blocks in scanning
order, and so the nodes come in that order, too. -/
def components (w : World) (r : Region) : List Node :=
  (w.toList.filter fun (p, _) => r.contains p).filterMap fun (p, b) => component? w p b

/-- Adds the components of a region to a circuit. -/
def addComponents (w : World) (r : Region) (g : Circuit) : Circuit :=
  g.addNodes (components w r)

end Redstone.Survey
