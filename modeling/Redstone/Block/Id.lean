import Redstone.Block.Basic
import Redstone.Text.Quoted

/-!
# Block ids

The state of a block is packed into the low 28 bits of a word, field by field.
A property that is wider than its field loses its high bits.  Unpacking refuses
words that no known block packs into.
-/

namespace Redstone.Block

/-- The bits of `v` under the mask, moved up by `shift`. -/
def packField (v mask : UInt8) (shift : UInt32) : UInt32 :=
  (v &&& mask).toUInt32 <<< shift

/-- A flag at bit position `n`. -/
def packFlag (b : Bool) (n : UInt32) : UInt32 :=
  if b then 1 <<< n else 0

/-- The bits of a word above `shift`, under the mask. -/
def field (id : UInt32) (mask : UInt8) (shift : UInt32) : UInt8 :=
  ((id >>> shift) &&& mask.toUInt32).toUInt8

/-- The flag at bit position `n`. -/
def flag (id n : UInt32) : Bool :=
  id &&& (1 <<< n) != 0

/-- The word that packs the block: from the low end five bits of material, three
of facing, three of delay, the flags locked, powered and subtract, four bits of
power, five of instrument and five of note. -/
def id (b : Block) : UInt32 :=
  packField b.material.code 0x1F 0 |||
    packField b.facing.code 0x7 5 |||
    packField b.delay 0x7 8 |||
    packFlag b.locked 11 |||
    packFlag b.powered 12 |||
    packFlag b.subtract 13 |||
    packField b.power 0xF 14 |||
    packField b.instrument 0x1F 18 |||
    packField b.note 0x1F 23

/-- The material code of a word. -/
def materialField (id : UInt32) : UInt8 := field id 0x1F 0

/-- The facing code of a word. -/
def facingField (id : UInt32) : UInt8 := field id 0x7 5

/-- Why a word does not unpack to a block. -/
inductive IdError where
  | unknownMaterial (id : UInt32)
  | excessBits (id : UInt32)
  | unknownFacing (id : UInt32)
deriving DecidableEq, Repr

/-- The wording of an unpacking error. -/
def IdError.message : IdError → String
  | unknownMaterial id =>
      "invalid block type " ++ toString (materialField id).toNat ++ " in ID " ++ Text.hex id.toNat
  | excessBits id => "invalid block ID " ++ Text.hex id.toNat
  | unknownFacing id =>
      "invalid facing " ++ toString (facingField id).toNat ++ " in ID " ++ Text.hex id.toNat

/-- The block that a word packs.  The material is checked first, then the unused
bits, then the facing. -/
def ofId (id : UInt32) : Except IdError Block :=
  if Material.container.code < materialField id then .error (.unknownMaterial id)
  else if id >>> 28 != 0 then .error (.excessBits id)
  else if Direction.east.code < facingField id then .error (.unknownFacing id)
  else .ok
    { material := Material.ofCode (materialField id)
      facing := Direction.ofCode (facingField id)
      delay := field id 0x7 8
      locked := flag id 11
      powered := flag id 12
      subtract := flag id 13
      power := field id 0xF 14
      instrument := field id 0x1F 18
      note := field id 0x1F 23 }

end Redstone.Block
