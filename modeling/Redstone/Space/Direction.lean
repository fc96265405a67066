import Redstone.Text.Bytes
import Redstone.Text.Quoted

/-!
# Block face directions

The six faces of a block, as one-byte codes.  A code beyond the six faces can be
stored in a block all the same, so it has a constructor of its own: such a
direction names no face and moves nothing.
-/

namespace Redstone

/-- A block face direction.  `undefined e` is the code `6 + e`, which names no
face. -/
inductive Direction where
  | down
  | up
  | north
  | south
  | west
  | east
  | undefined (excess : Fin 250)
deriving DecidableEq, Repr, Inhabited

namespace Direction

/-- The stored code of a direction. -/
def code : Direction → UInt8
  | down => 0
  | up => 1
  | north => 2
  | south => 3
  | west => 4
  | east => 5
  | undefined e => UInt8.ofNat (6 + e.val)

/-- The direction with the given code. -/
def ofCode (c : UInt8) : Direction :=
  match h : c.toNat with
  | 0 => down
  | 1 => up
  | 2 => north
  | 3 => south
  | 4 => west
  | 5 => east
  | n + 6 => undefined ⟨n, by have := c.toNat_lt; omega⟩

theorem code_ofCode (c : UInt8) : (ofCode c).code = c := by
  apply UInt8.toNat_inj.mp
  have hlt := c.toNat_lt
  unfold ofCode
  split <;> simp_all [code]
  omega

theorem ofCode_code (d : Direction) : ofCode d.code = d := by
  cases d with
  | undefined e =>
      have hcode : (undefined e).code.toNat = e.val + 6 := by
        have := e.isLt
        simp [code]
        omega
      unfold ofCode
      split <;> simp_all
  | _ => rfl

/-- The six faces, in the order in which neighbours are examined. -/
def all : List Direction := [down, up, north, south, west, east]

/-- The name of a face, as it is written in world files. -/
def name? : Direction → Option String
  | down => some "down"
  | up => some "up"
  | north => some "north"
  | south => some "south"
  | west => some "west"
  | east => some "east"
  | undefined _ => none

/-- The name of a direction; a code without a face is written in braces. -/
def name (d : Direction) : String :=
  d.name?.getD (Text.inBraces ("Direction " ++ toString d.code.toNat))

instance : ToString Direction := ⟨name⟩

/-- The face with the given name. -/
def ofName? (word : Bytes) : Option Direction :=
  all.find? fun d => d.name?.any word.spells

/-- The face across the block.  A code without a face is taken to west. -/
def opposite : Direction → Direction
  | down => up
  | up => down
  | north => south
  | south => north
  | west => east
  | east => west
  | undefined _ => west

/-- Everything but up and down counts as horizontal. -/
def isHorizontal : Direction → Bool
  | down => false
  | up => false
  | _ => true

/-- A quarter turn clockwise, seen from above.  Only the four compass directions
turn. -/
def clockwise : Direction → Direction
  | north => east
  | east => south
  | south => west
  | west => north
  | d => d

/-- The direction opposite to the clockwise turn. -/
def counterclockwise (d : Direction) : Direction :=
  d.clockwise.opposite

end Direction

end Redstone
