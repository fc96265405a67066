import Redstone.Proofs.Survey.Components

/-!
# Moving a world

All blocks of a world are moved by the same offset.  Coordinates wrap around, so that moving is
one-to-one and keeps neighbours, whatever the offset is.  A region is moved by its corners; it holds
the moved positions, in the same order, as long as neither of its corners wraps around.
-/

namespace Redstone

/-- How far blocks are moved along each axis. -/
structure Offset where
  x : Int
  y : Int
  z : Int
deriving DecidableEq, Repr

/-! ## Positions -/

namespace Position

/-- The position moved by `v`.  Coordinates wrap around. -/
def translate (v : Offset) (p : Position) : Position where
  x := p.x + Int32.ofInt v.x
  y := p.y + Int32.ofInt v.y
  z := p.z + Int32.ofInt v.z

/-- The position can be moved by `v` without wrapping around. -/
structure Fits (v : Offset) (p : Position) : Prop where
  x : (p.translate v).x.toInt = p.x.toInt + v.x
  y : (p.translate v).y.toInt = p.y.toInt + v.y
  z : (p.translate v).z.toInt = p.z.toInt + v.z

variable {v : Offset} {p q : Position}

theorem translate_inj : p.translate v = q.translate v ↔ p = q := by
  cases p
  cases q
  simp [translate]

@[simp] theorem translate_beq : (p.translate v == q.translate v) = (p == q) := by
  rw [Bool.eq_iff_iff, beq_iff_eq, beq_iff_eq, translate_inj]

@[simp] theorem translate_bne : (p.translate v != q.translate v) = (p != q) :=
  congrArg not translate_beq

/-- Moving keeps positions apart. -/
theorem scanOrder_translate_eq_iff :
    scanOrder (p.translate v) (q.translate v) = .eq ↔ scanOrder p q = .eq := by
  rw [Std.LawfulEqCmp.compare_eq_iff_eq, Std.LawfulEqCmp.compare_eq_iff_eq, translate_inj]

theorem scanOrder_translate_beq_eq :
    (scanOrder (p.translate v) (q.translate v) == .eq) = (scanOrder p q == .eq) := by
  rw [Bool.eq_iff_iff, beq_iff_eq, beq_iff_eq, scanOrder_translate_eq_iff]

/-- Moving keeps neighbours. -/
@[simp] theorem step_translate (d : Direction) :
    (p.translate v).step d = (p.step d).translate v := by
  have hup (a b : Int32) : a + b + 1 = a + 1 + b := by
    rw [Int32.add_assoc, Int32.add_comm b, Int32.add_assoc]
  have hdown (a b : Int32) : a + b - 1 = a - 1 + b := by
    rw [Int32.sub_eq_add_neg, Int32.sub_eq_add_neg, Int32.add_assoc, Int32.add_comm b,
      Int32.add_assoc]
  cases d <;> simp only [step, translate, hup, hdown]

end Position

/-! ## Regions -/

namespace Region

/-- The region with both corners moved by `v`. -/
def translate (v : Offset) (r : Region) : Region where
  min := r.min.translate v
  max := r.max.translate v

/-- The region can be moved by `v` without wrapping around. -/
structure Fits (v : Offset) (r : Region) : Prop where
  min : r.min.Fits v
  max : r.max.Fits v

variable {v : Offset} {r : Region}

theorem span_translate {lo hi : Int32} {d : Int}
    (hlo : (lo + Int32.ofInt d).toInt = lo.toInt + d)
    (hhi : (hi + Int32.ofInt d).toInt = hi.toInt + d) :
    span (lo + Int32.ofInt d) (hi + Int32.ofInt d) = (span lo hi).map (· + Int32.ofInt d) := by
  have hlength : hi.toInt + d + 1 - (lo.toInt + d) = hi.toInt + 1 - lo.toInt := by omega
  unfold span
  rw [hlo, hhi, hlength, List.map_map]
  refine List.map_congr_left fun k _ => ?_
  have hcoordinate : lo.toInt + d + k = lo.toInt + k + d := by omega
  rw [hcoordinate, Int32.ofInt_add]
  rfl

theorem Fits.positions_translate (h : r.Fits v) :
    (r.translate v).positions = r.positions.map (Position.translate v) := by
  have hx := span_translate h.min.x h.max.x
  have hy := span_translate h.min.y h.max.y
  have hz := span_translate h.min.z h.max.z
  change ((span (r.min.y + Int32.ofInt v.y) (r.max.y + Int32.ofInt v.y)).flatMap fun y =>
    (span (r.min.z + Int32.ofInt v.z) (r.max.z + Int32.ofInt v.z)).flatMap fun z =>
      (span (r.min.x + Int32.ofInt v.x) (r.max.x + Int32.ofInt v.x)).map fun x =>
        ({ x, y, z } : Position)) = _
  rw [hx, hy, hz]
  simp only [positions, List.map_flatMap, List.flatMap_map, List.map_map]
  rfl

theorem Fits.isValid_translate (h : r.Fits v) : (r.translate v).isValid = r.isValid := by
  have hle {a b : Int32} {d : Int} (ha : (a + Int32.ofInt d).toInt = a.toInt + d)
      (hb : (b + Int32.ofInt d).toInt = b.toInt + d) :
      (a + Int32.ofInt d ≤ b + Int32.ofInt d) ↔ a ≤ b := by
    rw [Int32.le_iff_toInt_le, Int32.le_iff_toInt_le, ha, hb]
    omega
  unfold isValid
  exact congrArg₂ (· && ·) (congrArg₂ (· && ·) (decide_eq_decide.mpr (hle h.min.x h.max.x))
    (decide_eq_decide.mpr (hle h.min.y h.max.y))) (decide_eq_decide.mpr (hle h.min.z h.max.z))

end Region

/-! ## Worlds -/

namespace World

/-- The world with every block and every tick moved by `v`. -/
def translate (v : Offset) (w : World) : World where
  blocks := Std.ExtTreeMap.ofList (w.toList.map fun (p, b) => (p.translate v, b)) Position.scanOrder
  pending := w.pending.map fun t => { t with position := t.position.translate v }

variable {v : Offset} {w : World}

@[simp] theorem get_translate (p : Position) :
    (w.translate v).get (p.translate v) = w.get p := by
  have hblock : (w.translate v).blocks[p.translate v]? = w.blocks[p]? := by
    cases hp : w.blocks[p]? with
    | none =>
        refine Std.ExtTreeMap.getElem?_ofList_of_contains_eq_false ?_
        rw [List.map_map, Bool.eq_false_iff, ne_eq, List.contains_iff_mem, List.mem_map]
        -- a block at the moved position has come from `p` itself
        rintro ⟨⟨q, b⟩, hq, heq⟩
        cases Position.translate_inj.mp heq
        rw [Survey.mem_toList_iff.mp hq] at hp
        cases hp
    | some b =>
        refine Std.ExtTreeMap.getElem?_ofList_of_mem Std.ReflCmp.compare_self ?_
          (List.mem_map_of_mem (Survey.mem_toList_iff.mpr hp))
        rw [List.pairwise_map]
        exact w.blocks.distinct_keys_toList.imp fun hne heq =>
          hne (Position.scanOrder_translate_eq_iff.mp heq)
  unfold get
  rw [hblock]

end World

end Redstone
