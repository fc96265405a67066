import Redstone.Space.Region

/-!
# Regions as sets of positions

A region lists its positions once each, in scanning order.  The hull of some positions is the
smallest region that holds all of them, so it does not depend on their order.
-/

namespace Redstone

namespace Position

/-- One position comes before another one when a region is scanned: it is in a lower layer, or in
the same layer in a row further north, or in the same row further west. -/
def Precedes (p q : Position) : Prop :=
  p.y < q.y ∨ p.y = q.y ∧ (p.z < q.z ∨ p.z = q.z ∧ p.x < q.x)

theorem scanOrder_eq_lt_iff {p q : Position} : scanOrder p q = .lt ↔ p.Precedes q := by
  simp [scanOrder, Precedes, Ordering.then_eq_lt, Std.compare_eq_lt]

theorem Precedes.asymm {p q : Position} (h : p.Precedes q) (h' : q.Precedes p) : False := by
  have hswap : scanOrder q p = (scanOrder p q).swap := Std.OrientedCmp.eq_swap
  rw [scanOrder_eq_lt_iff.mpr h, scanOrder_eq_lt_iff.mpr h'] at hswap
  cases hswap

theorem Precedes.ne {p q : Position} (h : p.Precedes q) : p ≠ q := by
  rintro rfl
  exact h.asymm h

end Position

namespace Region

theorem min_le_and (a b : Int32) : Min.min a b ≤ a ∧ Min.min a b ≤ b :=
  ⟨Std.min_le_left, Std.min_le_right⟩

theorem le_max_and (a b : Int32) : a ≤ Max.max a b ∧ b ≤ Max.max a b := by
  change a ≤ (if a ≤ b then b else a) ∧ b ≤ (if a ≤ b then b else a)
  split
  case isTrue h => exact ⟨h, Int32.le_refl b⟩
  case isFalse h => exact ⟨Int32.le_refl a, (Int32.le_total a b).resolve_left h⟩

theorem isValid_of_contains {r : Region} {p : Position} (h : r.contains p = true) :
    r.isValid = true := by
  simp only [contains, Bool.and_eq_true, decide_eq_true_eq] at h
  obtain ⟨⟨⟨⟨⟨hx, hx'⟩, hy⟩, hy'⟩, hz⟩, hz'⟩ := h
  simp [isValid, Int32.le_trans hx hx', Int32.le_trans hy hy', Int32.le_trans hz hz']

theorem contains_single (p : Position) : (single p).contains p = true := by
  simp [contains, single]

theorem contains_extend_self (r : Region) (p : Position) : (r.extend p).contains p = true := by
  simp [contains, extend, (min_le_and _ _).2, (le_max_and _ _).2]

theorem contains_extend {r : Region} {q : Position} (h : r.contains q = true) (p : Position) :
    (r.extend p).contains q = true := by
  simp only [contains, Bool.and_eq_true, decide_eq_true_eq] at h
  obtain ⟨⟨⟨⟨⟨hx, hx'⟩, hy⟩, hy'⟩, hz⟩, hz'⟩ := h
  have hlow {a b c : Int32} (h : a ≤ b) : decide (Min.min a c ≤ b) = true :=
    decide_eq_true (Int32.le_trans (min_le_and a c).1 h)
  have hhigh {a b c : Int32} (h : a ≤ b) : decide (a ≤ Max.max b c) = true :=
    decide_eq_true (Int32.le_trans h (le_max_and b c).1)
  simp only [contains, extend, Bool.and_eq_true]
  exact ⟨⟨⟨⟨⟨hlow hx, hhigh hx'⟩, hlow hy⟩, hhigh hy'⟩, hlow hz⟩, hhigh hz'⟩

/-- The hull of some positions holds all of them. -/
theorem contains_of_hull {ps : List Position} {r : Region} (h : hull ps = some r) {p : Position}
    (hp : p ∈ ps) : r.contains p = true := by
  -- a region never shrinks, so it holds a position from the time when that extends it
  have hfold (ps : List Position) (r : Region) :
      (∀ q, r.contains q = true → (ps.foldl extend r).contains q = true) ∧
        ∀ q ∈ ps, (ps.foldl extend r).contains q = true := by
    induction ps generalizing r with
    | nil => exact ⟨fun _ hq => hq, fun _ hq => absurd hq List.not_mem_nil⟩
    | cons p ps ih =>
        refine ⟨fun q hq => (ih (r.extend p)).1 q (contains_extend hq p), fun q hq => ?_⟩
        rcases List.mem_cons.mp hq with rfl | hq
        · exact (ih (r.extend q)).1 q (contains_extend_self r q)
        · exact (ih (r.extend p)).2 q hq
  cases ps with
  | nil => cases h
  | cons first rest =>
      cases h
      rcases List.mem_cons.mp hp with rfl | hp
      · exact (hfold rest (single p)).1 p (contains_single p)
      · exact (hfold rest (single first)).2 p hp

/-! ## The smallest region -/

/-- The corners of one region lie between those of another one. -/
structure Within (r r' : Region) : Prop where
  min_x : r'.min.x ≤ r.min.x
  min_y : r'.min.y ≤ r.min.y
  min_z : r'.min.z ≤ r.min.z
  max_x : r.max.x ≤ r'.max.x
  max_y : r.max.y ≤ r'.max.y
  max_z : r.max.z ≤ r'.max.z

theorem Within.contains {r r' : Region} (h : r.Within r') {q : Position}
    (hq : r.contains q = true) : r'.contains q = true := by
  simp only [Region.contains, Bool.and_eq_true, decide_eq_true_eq] at hq ⊢
  obtain ⟨⟨⟨⟨⟨hx, hx'⟩, hy⟩, hy'⟩, hz⟩, hz'⟩ := hq
  exact ⟨⟨⟨⟨⟨Int32.le_trans h.min_x hx, Int32.le_trans hx' h.max_x⟩, Int32.le_trans h.min_y hy⟩,
    Int32.le_trans hy' h.max_y⟩, Int32.le_trans h.min_z hz⟩, Int32.le_trans hz' h.max_z⟩

theorem Within.antisymm {r r' : Region} (h : r.Within r') (h' : r'.Within r) : r = r' := by
  obtain ⟨⟨x, y, z⟩, ⟨x', y', z'⟩⟩ := r
  obtain ⟨⟨a, b, c⟩, ⟨a', b', c'⟩⟩ := r'
  cases Int32.le_antisymm h.min_x h'.min_x
  cases Int32.le_antisymm h.min_y h'.min_y
  cases Int32.le_antisymm h.min_z h'.min_z
  cases Int32.le_antisymm h.max_x h'.max_x
  cases Int32.le_antisymm h.max_y h'.max_y
  cases Int32.le_antisymm h.max_z h'.max_z
  rfl

theorem within_single {r : Region} {p : Position} (h : r.contains p = true) :
    (single p).Within r := by
  simp only [contains, Bool.and_eq_true, decide_eq_true_eq] at h
  obtain ⟨⟨⟨⟨⟨hx, hx'⟩, hy⟩, hy'⟩, hz⟩, hz'⟩ := h
  exact ⟨hx, hy, hz, hx', hy', hz'⟩

theorem Within.extend {r r' : Region} (h : r.Within r') {p : Position}
    (hp : r'.contains p = true) : (r.extend p).Within r' := by
  have hmin {a b c : Int32} (ha : c ≤ a) (hb : c ≤ b) : c ≤ Min.min a b := by
    change c ≤ if a ≤ b then a else b
    split <;> assumption
  have hmax {a b c : Int32} (ha : a ≤ c) (hb : b ≤ c) : Max.max a b ≤ c := by
    change (if a ≤ b then b else a) ≤ c
    split <;> assumption
  have hpoint := within_single hp
  exact ⟨hmin h.min_x hpoint.min_x, hmin h.min_y hpoint.min_y, hmin h.min_z hpoint.min_z,
    hmax h.max_x hpoint.max_x, hmax h.max_y hpoint.max_y, hmax h.max_z hpoint.max_z⟩

/-- The hull of some positions lies within every region that holds all of them. -/
theorem within_of_hull {ps : List Position} {r r' : Region} (h : hull ps = some r)
    (hps : ∀ p ∈ ps, r'.contains p = true) : r.Within r' := by
  have hfold (ps : List Position) (hps : ∀ p ∈ ps, r'.contains p = true) (r : Region)
      (hr : r.Within r') : (ps.foldl Region.extend r).Within r' := by
    induction ps generalizing r with
    | nil => exact hr
    | cons p ps ih =>
        exact ih (fun q hq => hps q (List.mem_cons_of_mem _ hq)) _
          (hr.extend (hps p List.mem_cons_self))
  cases ps with
  | nil => cases h
  | cons first rest =>
      cases h
      exact hfold rest (fun q hq => hps q (List.mem_cons_of_mem _ hq)) _
        (within_single (hps first List.mem_cons_self))

/-- The hull does not depend on the order of the positions, nor on how often one is listed. -/
theorem hull_congr {ps qs : List Position} (h : ∀ p, p ∈ ps ↔ p ∈ qs) : hull ps = hull qs := by
  cases ps with
  | nil =>
      cases qs with
      | nil => rfl
      | cons q qs => exact absurd ((h q).mpr List.mem_cons_self) List.not_mem_nil
  | cons p ps =>
      cases qs with
      | nil => exact absurd ((h p).mp List.mem_cons_self) List.not_mem_nil
      | cons q qs =>
          refine congrArg some (Within.antisymm ?_ ?_)
          · exact within_of_hull rfl fun x hx => contains_of_hull rfl ((h x).mp hx)
          · exact within_of_hull rfl fun x hx => contains_of_hull rfl ((h x).mpr hx)

/-! ## Scanning order -/

theorem pairwise_span (lo hi : Int32) : (span lo hi).Pairwise (· < ·) := by
  have hlo := lo.le_toInt
  have hhi := hi.toInt_lt
  rw [span, List.pairwise_map]
  refine List.pairwise_lt_range.imp_of_mem fun hj hk hlt => ?_
  rw [List.mem_range] at hj hk
  rw [Int32.lt_iff_toInt_lt, Int32.toInt_ofInt_of_le (by omega) (by omega),
    Int32.toInt_ofInt_of_le (by omega) (by omega)]
  omega

/-- The positions of a region come in scanning order. -/
theorem pairwise_positions (r : Region) : r.positions.Pairwise Position.Precedes := by
  rw [positions, List.pairwise_flatMap]
  refine ⟨fun y _ => ?_, (pairwise_span _ _).imp fun hlt p hp q hq => ?_⟩
  · rw [List.pairwise_flatMap]
    refine ⟨fun z _ => ?_, (pairwise_span _ _).imp fun hlt p hp q hq => ?_⟩
    · rw [List.pairwise_map]
      exact (pairwise_span _ _).imp fun hlt => .inr ⟨rfl, .inr ⟨rfl, hlt⟩⟩
    · obtain ⟨_, -, rfl⟩ := List.mem_map.mp hp
      obtain ⟨_, -, rfl⟩ := List.mem_map.mp hq
      exact .inr ⟨rfl, .inl hlt⟩
  · obtain ⟨_, -, hp⟩ := List.mem_flatMap.mp hp
    obtain ⟨_, -, hq⟩ := List.mem_flatMap.mp hq
    obtain ⟨_, -, rfl⟩ := List.mem_map.mp hp
    obtain ⟨_, -, rfl⟩ := List.mem_map.mp hq
    exact .inl hlt

end Region

end Redstone
