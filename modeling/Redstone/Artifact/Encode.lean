import Redstone.Artifact.Digest
import Redstone.Artifact.Format

/-!
# Writing artifacts

The bytes of a netlist.  Each list is written behind its length.  The digest is a
parameter of the encoding; artifacts use BLAKE2b-256.
-/

namespace Redstone.Artifact

/-- A list behind its length. -/
def encodeList {α : Type} (item : α → Bytes) (items : List α) : Bytes :=
  wordBytes (UInt32.ofNat items.length) ++ items.flatMap item

/-- The bytes of a coordinate. -/
def encodeCoordinate (c : Int32) : Bytes :=
  wordBytes c.toUInt32

/-- The bytes of a block reference. -/
def encodeBlock (b : BlockRef) : Bytes :=
  encodeCoordinate b.position.x ++ encodeCoordinate b.position.y ++
    encodeCoordinate b.position.z ++ wordBytes b.id

/-- The bytes of an input. -/
def encodeInput (i : NetInput) : Bytes :=
  i.channel.code :: i.loss :: wordBytes i.source

/-- The bytes of a node. -/
def encodeNode (n : NetNode) : Bytes :=
  [ n.gate.type.code, (Flags.ofNode n).toByte, n.gate.delay, n.gate.farInput
  , n.gate.instrument, n.gate.note, n.state.strength ] ++
    encodeList encodeBlock n.blocks ++
    encodeList encodeInput n.inputs ++
    encodeList wordBytes n.outputs

/-- The header and the nodes of a netlist. -/
def encodeBody (n : Netlist) : Bytes :=
  wordBytes magic ++ wordBytes version ++ encodeList encodeNode n.nodes.toList

/-- The artifact of a netlist with the given digest. -/
def encodeWith (digest : Bytes → Bytes) (n : Netlist) : Bytes :=
  let body := encodeBody n
  body ++ digest body

/-- The artifact of a netlist. -/
def encode (n : Netlist) : Bytes :=
  encodeWith Blake2b.digest n

end Redstone.Artifact
