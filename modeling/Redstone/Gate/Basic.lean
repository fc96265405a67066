import Redstone.Text.Quoted
import Redstone.Text.Superscript

/-!
# Gates

A gate is a logic element: its type and the attributes that fix its behaviour.
Two gates with equal fields behave identically for identical inputs.  The
changing part of a gate, what it puts out, is its state.
-/

namespace Redstone

/-- The type of a logic element.  `undefined e` is the code `11 + e`. -/
inductive GateType where
  | repeater
  | torch
  | comparator
  | lamp
  | button
  | lever
  | pressurePlate
  | trapdoor
  | wire
  | constant
  | noteBlock
  | undefined (excess : Fin 245)
deriving DecidableEq, Repr, Inhabited

namespace GateType

/-- The stored code of a gate type. -/
def code : GateType → UInt8
  | repeater => 0
  | torch => 1
  | comparator => 2
  | lamp => 3
  | button => 4
  | lever => 5
  | pressurePlate => 6
  | trapdoor => 7
  | wire => 8
  | constant => 9
  | noteBlock => 10
  | undefined e => UInt8.ofNat (11 + e.val)

/-- The gate type with the given code. -/
def ofCode (c : UInt8) : GateType :=
  match h : c.toNat with
  | 0 => repeater
  | 1 => torch
  | 2 => comparator
  | 3 => lamp
  | 4 => button
  | 5 => lever
  | 6 => pressurePlate
  | 7 => trapdoor
  | 8 => wire
  | 9 => constant
  | 10 => noteBlock
  | n + 11 => undefined ⟨n, by have := c.toNat_lt; omega⟩

theorem code_ofCode (c : UInt8) : (ofCode c).code = c := by
  apply UInt8.toNat_inj.mp
  have hlt := c.toNat_lt
  unfold ofCode
  split <;> simp_all [code]
  omega

theorem ofCode_code (t : GateType) : ofCode t.code = t := by
  cases t with
  | undefined e =>
      have hcode : (undefined e).code.toNat = e.val + 11 := by
        have := e.isLt
        simp [code]
        omega
      unfold ofCode
      split <;> simp_all
  | _ => rfl

/-- The name of a gate type; an unknown code is written in braces. -/
def name (t : GateType) : String :=
  match t with
  | repeater => "Repeater"
  | torch => "Torch"
  | comparator => "Comparator"
  | lamp => "Lamp"
  | button => "Button"
  | lever => "Lever"
  | pressurePlate => "PressurePlate"
  | trapdoor => "Trapdoor"
  | wire => "Wire"
  | constant => "Constant"
  | noteBlock => "NoteBlock"
  | undefined _ => Text.inBraces ("NodeType " ++ toString t.code.toNat)

end GateType

/-- What a comparator does with its side input.  `undefined e` is the code
`2 + e`; it compares. -/
inductive Mode where
  | compare
  | subtract
  | undefined (excess : Fin 254)
deriving DecidableEq, Repr, Inhabited

namespace Mode

/-- The stored code of a mode. -/
def code : Mode → UInt8
  | compare => 0
  | subtract => 1
  | undefined e => UInt8.ofNat (2 + e.val)

/-- The mode with the given code. -/
def ofCode (c : UInt8) : Mode :=
  match h : c.toNat with
  | 0 => compare
  | 1 => subtract
  | n + 2 => undefined ⟨n, by have := c.toNat_lt; omega⟩

/-- The name of a mode. -/
def name : Mode → String
  | subtract => "subtract"
  | _ => "compare"

end Mode

/-- A logic element without its state.  The delay belongs to repeaters, the mode
and the far input to comparators, the instrument and the note to note blocks. -/
structure Gate where
  type : GateType
  delay : UInt8 := 0
  facingDiode : Bool := false
  mode : Mode := .compare
  farInput : UInt8 := 0
  hasFarInput : Bool := false
  instrument : UInt8 := 0
  note : UInt8 := 0
deriving DecidableEq, Repr, Inhabited

namespace Gate

/-- A repeater. -/
def repeater (delay : UInt8) (facingDiode : Bool) : Gate :=
  { type := .repeater, delay, facingDiode }

/-- A comparator without a far input. -/
def comparator (mode : Mode) (facingDiode : Bool) : Gate :=
  { type := .comparator, mode, facingDiode }

/-- A gate that has nothing but its type. -/
def plain (type : GateType) : Gate :=
  { type }

/-- A source of constant strength. -/
def constant : Gate := plain .constant

/-- The gate is a source of constant strength. -/
def isConstant (k : Gate) : Bool :=
  k.type == .constant

/-- The gate is a comparator. -/
def isComparator (k : Gate) : Bool :=
  k.type == .comparator

/-- The written form of a gate: delays and far inputs are raised, a minus sign
marks subtraction. -/
def text (k : Gate) : String :=
  match k.type with
  | .repeater => k.type.name ++ Text.superscript k.delay.toNat
  | .comparator =>
      k.type.name ++ (if k.mode = .subtract then "-" else "") ++
        (if k.hasFarInput then Text.superscript k.farInput.toNat else "")
  | .noteBlock =>
      k.type.name ++ "[" ++ toString k.instrument.toNat ++ ":" ++ toString k.note.toNat ++ "]"
  | _ => k.type.name

end Gate

/-- The state of a gate: whether it is powered, whether it is a locked repeater,
and the signal strength that it puts out. -/
structure GateState where
  powered : Bool := false
  locked : Bool := false
  strength : UInt8 := 0
deriving DecidableEq, Repr, Inhabited

/-- The state of a gate that puts out the given strength. -/
def GateState.ofStrength (strength : UInt8) : GateState :=
  { powered := 0 < strength, strength }

end Redstone
