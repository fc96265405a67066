import Redstone.Block.Basic
import Redstone.Space.Region
import Std.Data.ExtTreeMap

/-!
# Worlds

A world keeps the blocks that are not air, ordered by position, and the ticks
that have been scheduled, in the order of their requests.  Two worlds with the
same block at every position and the same ticks are equal.
-/

namespace Redstone

/-- The priority of a scheduled tick, highest first.  `undefined e` is the code
`4 + e`. -/
inductive TickPriority where
  | highest
  | higher
  | high
  | normal
  | undefined (excess : Fin 252)
deriving DecidableEq, Repr, Inhabited

namespace TickPriority

/-- The stored code of a priority. -/
def code : TickPriority → UInt8
  | highest => 0
  | higher => 1
  | high => 2
  | normal => 3
  | undefined e => UInt8.ofNat (4 + e.val)

/-- The priority with the given code. -/
def ofCode (c : UInt8) : TickPriority :=
  match h : c.toNat with
  | 0 => highest
  | 1 => higher
  | 2 => high
  | 3 => normal
  | n + 4 => undefined ⟨n, by have := c.toNat_lt; omega⟩

/-- The name of a priority; an unknown code is written in braces. -/
def name (p : TickPriority) : String :=
  match p with
  | highest => "highest"
  | higher => "higher"
  | high => "high"
  | normal => "normal"
  | undefined _ => Text.inBraces ("TickPriority " ++ toString p.code.toNat)

end TickPriority

/-- A scheduled block tick. -/
structure Tick where
  position : Position
  delay : Int64
  priority : TickPriority
deriving DecidableEq, Repr

/-- The earlier tick comes first; of two ticks with one delay, the one of higher
priority. -/
def Tick.precedes (s t : Tick) : Bool :=
  s.delay < t.delay || (s.delay == t.delay && s.priority.code ≤ t.priority.code)

/-- A world: its blocks other than air, and the scheduled ticks. -/
structure World where
  blocks : Std.ExtTreeMap Position Block Position.scanOrder
  pending : List Tick

namespace World

/-- The world without blocks and ticks. -/
def empty : World where
  blocks := ∅
  pending := []

instance : Inhabited World := ⟨empty⟩
instance : EmptyCollection World := ⟨empty⟩

/-- The block at a position. -/
def get (w : World) (p : Position) : Block :=
  w.blocks[p]?.getD .air

/-- Places a block.  Placing air clears the position. -/
def set (w : World) (p : Position) (b : Block) : World :=
  if b.material = .air then { w with blocks := w.blocks.erase p }
  else { w with blocks := w.blocks.insert p b }

/-- A placed block is kept at its position, unless it is air, and every other
position stays as it is. -/
theorem getElem?_set (w : World) (p q : Position) (b : Block) :
    (w.set p b).blocks[q]? =
      if p = q then (if b.material = .air then none else some b) else w.blocks[q]? := by
  unfold set
  by_cases hair : b.material = .air <;> by_cases hq : p = q
  · simp [hair, hq]
  · simp [hair, hq, Std.ExtTreeMap.getElem?_erase]
  · simp [hair, hq]
  · simp [hair, hq, Std.ExtTreeMap.getElem?_insert]

/-- Placing the block would change the world: a block other than the present one
is placed, or a present block is cleared. -/
def changedBy (w : World) (p : Position) (b : Block) : Bool :=
  match w.blocks[p]? with
  | some old => old != b
  | none => b.material != .air

/-- The number of blocks other than air. -/
def size (w : World) : Nat :=
  w.blocks.size

/-- The blocks other than air with their positions, in scanning order. -/
def toList (w : World) : List (Position × Block) :=
  w.blocks.toList

/-- The smallest region that holds all blocks, if there are any. -/
def extent (w : World) : Option Region :=
  Region.hull w.blocks.keys

/-- Requests a tick. -/
def schedule (w : World) (t : Tick) : World :=
  { w with pending := w.pending ++ [t] }

/-- A tick is scheduled at the position. -/
def isPending (w : World) (p : Position) : Bool :=
  w.pending.any fun t => t.position == p

/-- The scheduled ticks in the order in which they fall due.  Ticks that fall due
together keep the order of their requests. -/
def ticks (w : World) : List Tick :=
  w.pending.mergeSort Tick.precedes

end World

end Redstone
