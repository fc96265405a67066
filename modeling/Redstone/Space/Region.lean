import Redstone.Space.Position

/-!
# Regions

A region is a box of positions with both corners included.  Its positions are
listed in scanning order; a box whose corners are out of order has none.
-/

namespace Redstone

/-- The box between two corners, both included. -/
structure Region where
  min : Position
  max : Position
deriving DecidableEq, Repr, Inhabited

namespace Region

/-- The written form of a region. -/
def text (r : Region) : String :=
  r.min.text ++ "-" ++ r.max.text

instance : ToString Region := ⟨text⟩

/-- The corners are in order on every axis. -/
def isValid (r : Region) : Bool :=
  r.min.x ≤ r.max.x && r.min.y ≤ r.max.y && r.min.z ≤ r.max.z

/-- The position lies between the corners on every axis. -/
def contains (r : Region) (p : Position) : Bool :=
  r.min.x ≤ p.x && p.x ≤ r.max.x &&
    r.min.y ≤ p.y && p.y ≤ r.max.y &&
    r.min.z ≤ p.z && p.z ≤ r.max.z

/-- The coordinates from `lo` to `hi`, both included, in increasing order. -/
def span (lo hi : Int32) : List Int32 :=
  (List.range (hi.toInt + 1 - lo.toInt).toNat).map fun k : Nat => Int32.ofInt (lo.toInt + k)

/-- All positions of the region: layer by layer, row by row, from west to east. -/
def positions (r : Region) : List Position :=
  (span r.min.y r.max.y).flatMap fun y =>
    (span r.min.z r.max.z).flatMap fun z =>
      (span r.min.x r.max.x).map fun x => { x, y, z }

/-- The region that holds one position. -/
def single (p : Position) : Region :=
  { min := p, max := p }

/-- The smallest region that holds `r` and `p`. -/
def extend (r : Region) (p : Position) : Region where
  min := { x := Min.min r.min.x p.x, y := Min.min r.min.y p.y, z := Min.min r.min.z p.z }
  max := { x := Max.max r.max.x p.x, y := Max.max r.max.y p.y, z := Max.max r.max.z p.z }

/-- The smallest region that holds all the positions, if there are any. -/
def hull : List Position → Option Region
  | [] => none
  | p :: rest => some (rest.foldl extend (single p))

theorem mem_span {lo hi c : Int32} : c ∈ span lo hi ↔ lo ≤ c ∧ c ≤ hi := by
  rw [Int32.le_iff_toInt_le, Int32.le_iff_toInt_le, span, List.mem_map]
  have hlo := lo.le_toInt
  have hhi := hi.toInt_lt
  constructor
  · rintro ⟨k, hk, rfl⟩
    rw [List.mem_range] at hk
    rw [Int32.toInt_ofInt_of_le (by omega) (by omega)]
    omega
  · rintro ⟨h₁, h₂⟩
    refine ⟨(c.toInt - lo.toInt).toNat, ?_, ?_⟩
    · rw [List.mem_range]
      omega
    · rw [Int.toNat_of_nonneg (by omega), show lo.toInt + (c.toInt - lo.toInt) = c.toInt by omega,
        Int32.ofInt_toInt]

theorem mem_positions {r : Region} {p : Position} : p ∈ r.positions ↔ r.contains p = true := by
  cases p
  simp [positions, contains, mem_span, and_assoc, and_left_comm, and_comm]

end Region

end Redstone
