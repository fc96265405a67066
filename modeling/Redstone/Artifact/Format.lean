import Redstone.Netlist.Basic

/-!
# The artifact format

An artifact is the binary form of a netlist: a header, one record a node, and a
digest of everything before it.  Numbers are written with the highest byte first.
This module holds the constants of the format and the bytes of its numbers.
-/

namespace Redstone.Artifact

/-- The first word of an artifact. -/
def magic : UInt32 := 0x72706700

/-- The version of the format. -/
def version : UInt32 := 1

/-- The word that four bytes write. -/
def word (a b c d : UInt8) : UInt32 :=
  (a.toUInt32 <<< 24) ||| (b.toUInt32 <<< 16) ||| (c.toUInt32 <<< 8) ||| d.toUInt32

/-- The four bytes of a word. -/
def wordBytes (w : UInt32) : Bytes :=
  [(w >>> 24).toUInt8, (w >>> 16).toUInt8, (w >>> 8).toUInt8, w.toUInt8]

/-- The flags of a node record. -/
structure Flags where
  facingDiode : Bool
  hasFarInput : Bool
  isInput : Bool
  isOutput : Bool
  powered : Bool
  locked : Bool
  subtract : Bool
deriving DecidableEq, Repr

namespace Flags

/-- A flag with the given value. -/
def bit (b : Bool) (value : UInt8) : UInt8 :=
  if b then value else 0

/-- The byte of the flags, from the low end. -/
def toByte (f : Flags) : UInt8 :=
  bit f.facingDiode 0x01 ||| bit f.hasFarInput 0x02 ||| bit f.isInput 0x04 |||
    bit f.isOutput 0x08 ||| bit f.powered 0x10 ||| bit f.locked 0x20 ||| bit f.subtract 0x40

/-- The flags of a byte.  The highest bit is not used. -/
def ofByte (b : UInt8) : Flags where
  facingDiode := b &&& 0x01 != 0
  hasFarInput := b &&& 0x02 != 0
  isInput := b &&& 0x04 != 0
  isOutput := b &&& 0x08 != 0
  powered := b &&& 0x10 != 0
  locked := b &&& 0x20 != 0
  subtract := b &&& 0x40 != 0

/-- The flags of a node. -/
def ofNode (n : NetNode) : Flags where
  facingDiode := n.gate.facingDiode
  hasFarInput := n.gate.hasFarInput
  isInput := n.isInput
  isOutput := n.isOutput
  powered := n.state.powered
  locked := n.state.locked
  subtract := n.gate.mode == .subtract

end Flags

end Redstone.Artifact
