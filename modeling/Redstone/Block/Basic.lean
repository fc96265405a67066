import Redstone.Block.Material
import Redstone.Space.Direction
import Redstone.Text.Truth

/-!
# Blocks

A block is its material together with the properties that any material may use.
Which of them mean something depends on the material: `facing` is the output side
of a diode and the support of a torch or switch, `power` is the level of a wire,
of a comparator's output or of a container, and `subtract` is the mode of a
comparator.
-/

namespace Redstone

/-- The state of a block. -/
structure Block where
  material : Material := .air
  facing : Direction := .down
  delay : UInt8 := 0
  locked : Bool := false
  powered : Bool := false
  subtract : Bool := false
  power : UInt8 := 0
  instrument : UInt8 := 0
  note : UInt8 := 0
deriving DecidableEq, Repr, Inhabited

namespace Block

/-- The block of empty space. -/
def air : Block := {}

/-- A block as it is placed when nothing but its material is given. -/
def placed (m : Material) : Block :=
  match m with
  | .repeater => { material := m, delay := 1, facing := .north }
  | .comparator => { material := m, facing := .north }
  | _ => { material := m, facing := .down }

/-- The properties that belong to the material, between brackets. -/
def properties (b : Block) : String :=
  let facing := "facing=" ++ b.facing.name
  let powered := "powered=" ++ Truth.text b.powered
  let power := "power=" ++ toString b.power.toNat
  match b.material with
  | .repeater =>
      "[" ++ facing ++ ",delay=" ++ toString b.delay.toNat ++
        ",locked=" ++ Truth.text b.locked ++ "," ++ powered ++ "]"
  | .comparator =>
      "[" ++ facing ++ ",mode=" ++ (if b.subtract then "subtract" else "compare") ++
        "," ++ power ++ "]"
  | .torch | .lever | .button | .pressurePlate => "[" ++ facing ++ "," ++ powered ++ "]"
  | .wire | .container => "[" ++ power ++ "]"
  | .lamp | .trapdoor => "[" ++ powered ++ "]"
  | .noteBlock =>
      "[instrument=" ++ toString b.instrument.toNat ++ ",note=" ++ toString b.note.toNat ++
        "," ++ powered ++ "]"
  | _ => ""

/-- The written form of a block. -/
def text (b : Block) : String :=
  b.material.name ++ b.properties

instance : ToString Block := ⟨text⟩

end Block

end Redstone
