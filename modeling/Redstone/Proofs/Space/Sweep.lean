import Redstone.Proofs.Space.Region

/-!
# Sweeping a region

A region is swept by three counters, one inside the other.  A counter starts at the lower corner and
is raised by one until it is equal to the upper corner; nothing else ends it, and it is tested only
after its body has run.  Raising the last coordinate of the 32-bit range leads back to the first.

Between corners in order no counter is raised past its end, also where that is the last coordinate
of the range.  The sweep comes to an end, and what it has visited are the positions of the region.
-/

namespace Redstone

/-- A counter that runs from the given value to `hi`, with all that its body visits on the way. -/
inductive Counts {α : Type} (body : Int32 → List α → Prop) (hi : Int32) :
    Int32 → List α → Prop where
  | last {visited : List α} (here : body hi visited) : Counts body hi hi visited
  | next {c : Int32} {visited later : List α} (hc : c ≠ hi) (here : body c visited)
      (rest : Counts body hi (c + 1) later) : Counts body hi c (visited ++ later)

namespace Region

/-- The positions that a sweep of the region visits, from its start to its end.  Only a region whose
corners are in order is swept at all. -/
def Sweeps (r : Region) (visited : List Position) : Prop :=
  if r.isValid then
    Counts (fun y =>
      Counts (fun z =>
        Counts (fun x visited => visited = [{ x, y, z }]) r.max.x r.min.x) r.max.z r.min.z)
      r.max.y r.min.y visited
  else visited = []

/-! ## One counter -/

theorem toInt_succ_of_lt {lo hi : Int32} (h : lo < hi) : (lo + 1).toInt = lo.toInt + 1 := by
  rw [Int32.lt_iff_toInt_lt] at h
  have hlo := lo.le_toInt
  have hhi := hi.toInt_lt
  rw [Int32.toInt_add, Int32.toInt_one]
  exact Int.bmod_eq_of_le (by omega) (by omega)

theorem span_self (c : Int32) : span c c = [c] := by
  rw [span, show (c.toInt + 1 - c.toInt).toNat = 1 by omega]
  simp

/-- Below its end, a counter goes on with the next coordinate. -/
theorem span_of_lt {lo hi : Int32} (h : lo < hi) : span lo hi = lo :: span (lo + 1) hi := by
  have hsucc := toInt_succ_of_lt h
  rw [Int32.lt_iff_toInt_lt] at h
  have hlength : (hi.toInt + 1 - lo.toInt).toNat = (hi.toInt + 1 - (lo + 1).toInt).toNat + 1 := by
    omega
  rw [span, span, hlength, List.range_succ_eq_map, List.map_cons, List.map_map]
  refine List.cons_eq_cons.mpr ⟨by simp, List.map_congr_left fun k _ => ?_⟩
  rw [Function.comp_apply, hsucc, Nat.succ_eq_add_one]
  congr 1
  omega

/-- A counter that starts at or below its end takes each coordinate up to there once and stops. -/
theorem counts_iff {α : Type} {body : Int32 → List α → Prop} {f : Int32 → List α}
    (hbody : ∀ c visited, body c visited ↔ visited = f c) {lo hi : Int32} (h : lo ≤ hi)
    (visited : List α) : Counts body hi lo visited ↔ visited = (span lo hi).flatMap f := by
  -- induction on the number of times that the counter is still raised
  induction hk : (hi.toInt - lo.toInt).toNat generalizing lo visited with
  | zero =>
      have heq : lo = hi := by
        rw [Int32.le_iff_toInt_le] at h
        exact Int32.toInt_inj.mp (by omega)
      subst heq
      rw [span_self, List.flatMap_singleton, ← hbody]
      constructor
      · rintro (⟨here⟩ | ⟨hc, -, -⟩)
        · exact here
        · exact absurd rfl hc
      · exact .last
  | succ k ih =>
      rw [Int32.le_iff_toInt_le] at h
      have hlt : lo < hi := Int32.lt_iff_toInt_lt.mpr (by omega)
      have hsucc := toInt_succ_of_lt hlt
      have hne : lo ≠ hi := by
        rintro rfl
        omega
      have hle : lo + 1 ≤ hi := Int32.le_iff_toInt_le.mpr (by omega)
      have hrest := ih hle
      rw [span_of_lt hlt, List.flatMap_cons]
      constructor
      · rintro (- | ⟨-, here, rest⟩)
        · exact absurd rfl hne
        · rw [(hbody _ _).mp here, (hrest _ (by omega)).mp rest]
      · rintro rfl
        exact .next hne ((hbody _ _).mpr rfl) ((hrest _ (by omega)).mpr rfl)

/-! ## The three counters -/

theorem isValid_iff {r : Region} :
    r.isValid = true ↔ r.min.x ≤ r.max.x ∧ r.min.y ≤ r.max.y ∧ r.min.z ≤ r.max.z := by
  simp [isValid, and_assoc]

theorem positions_eq_nil_iff {r : Region} : r.positions = [] ↔ r.isValid = false := by
  rw [← Bool.not_eq_true, List.eq_nil_iff_forall_not_mem]
  constructor
  · intro hnone hvalid
    obtain ⟨hx, hy, hz⟩ := isValid_iff.mp hvalid
    have hmin : r.contains r.min = true := by simp [contains, hx, hy, hz]
    exact hnone r.min (mem_positions.mpr hmin)
  · intro hvalid p hp
    exact hvalid (isValid_of_contains (mem_positions.mp hp))

/-- A sweep ends, and it visits the positions of the region. -/
theorem sweeps_iff {r : Region} {visited : List Position} :
    r.Sweeps visited ↔ visited = r.positions := by
  unfold Sweeps
  split
  case isFalse hvalid =>
    rw [positions_eq_nil_iff.mpr (Bool.eq_false_iff.mpr hvalid)]
  case isTrue hvalid =>
    obtain ⟨hx, hy, hz⟩ := isValid_iff.mp hvalid
    have hrow (y z : Int32) := counts_iff (f := fun x : Int32 => [({ x, y, z } : Position)])
      (fun _ _ => Iff.rfl) hx
    have hlayer (y : Int32) := counts_iff (hrow y) hz
    rw [counts_iff hlayer hy, positions]
    simp only [List.map_eq_flatMap]

theorem nodup_positions (r : Region) : r.positions.Nodup :=
  r.pairwise_positions.imp Position.Precedes.ne

/-- **A sweep is exact.**  For every region, also one with corners at the ends of the range of
coordinates or out of order, the sweep ends after finitely many steps, and it has visited the
positions of the region: each position that the region contains once and no other one, layer by
layer, row by row and from west to east.  It visits nothing if and only if the corners are out of
order. -/
theorem sweep_is_exact (r : Region) :
    (∀ visited, r.Sweeps visited ↔ visited = r.positions) ∧
      (∀ p, r.positions.count p = if r.contains p then 1 else 0) ∧
      r.positions.Pairwise Position.Precedes ∧ (r.positions = [] ↔ r.isValid = false) := by
  refine ⟨fun visited => sweeps_iff, fun p => ?_, r.pairwise_positions, positions_eq_nil_iff⟩
  rw [r.nodup_positions.count]
  simp only [mem_positions]

/-- The last two columns of the coordinate range: the sweep stops at the end of it. -/
example : (Region.mk ⟨2147483646, -2147483648, 0⟩ ⟨2147483647, -2147483648, 0⟩).positions =
    [⟨2147483646, -2147483648, 0⟩, ⟨2147483647, -2147483648, 0⟩] := by decide

end Region

end Redstone
