import Redstone.Space.Direction

/-!
# Block positions

Positions are triples of 32-bit coordinates.  Stepping over the edge of the
coordinate range comes back in at the other side.  Positions are ordered by
layer (`y`), then by row (`z`), then by column (`x`), which is the order in which
regions are scanned.
-/

namespace Redstone

/-- The position of a block. -/
structure Position where
  x : Int32
  y : Int32
  z : Int32
deriving DecidableEq, Repr, Inhabited

namespace Position

/-- The written form of a position. -/
def text (p : Position) : String :=
  "(" ++ toString p.x.toInt ++ "," ++ toString p.y.toInt ++ "," ++ toString p.z.toInt ++ ")"

instance : ToString Position := ⟨text⟩

/-- The next position in direction `d`. -/
def step (p : Position) : Direction → Position
  | .down => { p with y := p.y - 1 }
  | .up => { p with y := p.y + 1 }
  | .north => { p with z := p.z - 1 }
  | .south => { p with z := p.z + 1 }
  | .west => { p with x := p.x - 1 }
  | .east => { p with x := p.x + 1 }
  | .undefined _ => p

/-- The scanning order: by `y`, then by `z`, then by `x`. -/
def scanOrder (p q : Position) : Ordering :=
  (compare p.y q.y).then ((compare p.z q.z).then (compare p.x q.x))

theorem scanOrder_eq_compareLex :
    scanOrder = compareLex (compareOn y) (compareLex (compareOn z) (compareOn x)) := rfl

instance : Std.TransCmp scanOrder := by
  rw [scanOrder_eq_compareLex]
  infer_instance

instance : Std.LawfulEqCmp scanOrder where
  eq_of_compare {p q} h := by
    simp only [scanOrder, Ordering.then_eq_eq, Std.compare_eq_iff_eq] at h
    cases p
    cases q
    simp_all

end Position

end Redstone
