import Redstone.Text.Bytes
import Redstone.Text.Quoted

/-!
# Block materials

What a block is made of, as a one-byte code.  A code beyond the known materials
can be stored all the same and has a constructor of its own; such a block plays
no part in any circuit.
-/

namespace Redstone

/-- The material of a block.  `undefined e` is the code `14 + e`. -/
inductive Material where
  | air
  | solid
  | wire
  | repeater
  | comparator
  | torch
  | lamp
  | lever
  | button
  | pressurePlate
  | trapdoor
  | noteBlock
  | redstoneBlock
  | container
  | undefined (excess : Fin 242)
deriving DecidableEq, Repr, Inhabited

namespace Material

/-- The stored code of a material. -/
def code : Material → UInt8
  | air => 0
  | solid => 1
  | wire => 2
  | repeater => 3
  | comparator => 4
  | torch => 5
  | lamp => 6
  | lever => 7
  | button => 8
  | pressurePlate => 9
  | trapdoor => 10
  | noteBlock => 11
  | redstoneBlock => 12
  | container => 13
  | undefined e => UInt8.ofNat (14 + e.val)

/-- The material with the given code. -/
def ofCode (c : UInt8) : Material :=
  match h : c.toNat with
  | 0 => air
  | 1 => solid
  | 2 => wire
  | 3 => repeater
  | 4 => comparator
  | 5 => torch
  | 6 => lamp
  | 7 => lever
  | 8 => button
  | 9 => pressurePlate
  | 10 => trapdoor
  | 11 => noteBlock
  | 12 => redstoneBlock
  | 13 => container
  | n + 14 => undefined ⟨n, by have := c.toNat_lt; omega⟩

theorem code_ofCode (c : UInt8) : (ofCode c).code = c := by
  apply UInt8.toNat_inj.mp
  have hlt := c.toNat_lt
  unfold ofCode
  split <;> simp_all [code]
  omega

theorem ofCode_code (m : Material) : ofCode m.code = m := by
  cases m with
  | undefined e =>
      have hcode : (undefined e).code.toNat = e.val + 14 := by
        have := e.isLt
        simp [code]
        omega
      unfold ofCode
      split <;> simp_all
  | _ => rfl

/-- The known materials. -/
def all : List Material :=
  [air, solid, wire, repeater, comparator, torch, lamp, lever, button, pressurePlate,
    trapdoor, noteBlock, redstoneBlock, container]

/-- The name of a known material, as it is written in world files. -/
def name? : Material → Option String
  | air => some "air"
  | solid => some "solid"
  | wire => some "wire"
  | repeater => some "repeater"
  | comparator => some "comparator"
  | torch => some "torch"
  | lamp => some "lamp"
  | lever => some "lever"
  | button => some "button"
  | pressurePlate => some "pressure_plate"
  | trapdoor => some "trapdoor"
  | noteBlock => some "note_block"
  | redstoneBlock => some "redstone_block"
  | container => some "container"
  | undefined _ => none

/-- The name of a material; an unknown code is written in braces. -/
def name (m : Material) : String :=
  m.name?.getD (Text.inBraces ("BlockType " ++ toString m.code.toNat))

instance : ToString Material := ⟨name⟩

/-- The material with the given name. -/
def ofName? (word : Bytes) : Option Material :=
  all.find? fun m => m.name?.any word.spells

/-- Repeaters and comparators pass signals in one direction only. -/
def isDiode : Material → Bool
  | repeater => true
  | comparator => true
  | _ => false

end Material

end Redstone
