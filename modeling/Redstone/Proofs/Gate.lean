import Redstone.Gate.Logic

/-!
# Laws of gates

Signals only get weaker on a link, and no gate puts out more than the strongest signal as
long as its inputs and its far input do not exceed it.  A gate that has been evaluated once
stays as it is when it is evaluated again with the same power.
-/

namespace Redstone

theorem le_max_iff {a b c : UInt8} : c ≤ max a b ↔ c ≤ a ∨ c ≤ b := by
  change c ≤ (if a ≤ b then b else a) ↔ _
  split <;> grind

theorem max_le_iff {a b c : UInt8} : max a b ≤ c ↔ a ≤ c ∧ b ≤ c := by
  change (if a ≤ b then b else a) ≤ c ↔ _
  split <;> grind

theorem eq_of_forall_le_iff {a b : UInt8} (h : ∀ c : UInt8, 0 < c → (c ≤ a ↔ c ≤ b)) : a = b := by
  have hab : a ≤ b := by
    by_cases ha : 0 < a
    · exact (h a ha).mp (UInt8.le_refl a)
    · grind
  have hba : b ≤ a := by
    by_cases hb : 0 < b
    · exact (h b hb).mpr (UInt8.le_refl b)
    · grind
  exact UInt8.le_antisymm hab hba

/-! ## Losses -/

theorem toNat_attenuate (s loss : UInt8) :
    (attenuate s loss).toNat = s.toNat - loss.toNat := by
  unfold attenuate
  split
  case isTrue h =>
    have := UInt8.le_iff_toNat_le.mp h
    rw [UInt8.toNat_zero]
    omega
  case isFalse h =>
    have hle : loss ≤ s := by grind
    exact UInt8.toNat_sub_of_le s loss hle

theorem le_attenuate_iff {c s loss : UInt8} (hc : 0 < c) :
    c ≤ attenuate s loss ↔ c.toNat + loss.toNat ≤ s.toNat := by
  have hpos := UInt8.lt_iff_toNat_lt.mp hc
  rw [UInt8.toNat_zero] at hpos
  rw [UInt8.le_iff_toNat_le, toNat_attenuate]
  omega

theorem attenuate_le (s loss : UInt8) : attenuate s loss ≤ s := by
  rw [UInt8.le_iff_toNat_le, toNat_attenuate]
  omega

/-- A stronger signal on a link with a smaller loss arrives stronger. -/
theorem attenuate_mono {s t loss loss' : UInt8} (hs : s ≤ t) (hloss : loss' ≤ loss) :
    attenuate s loss ≤ attenuate t loss' := by
  rw [UInt8.le_iff_toNat_le] at hs hloss ⊢
  rw [toNat_attenuate, toNat_attenuate]
  omega

theorem attenuate_zero (s : UInt8) : attenuate s 0 = s := by
  apply UInt8.toNat_inj.mp
  rw [toNat_attenuate, UInt8.toNat_zero]
  omega

/-- A signal does not cross a link that takes at least its strength. -/
theorem attenuate_eq_zero {s loss : UInt8} (h : s ≤ loss) : attenuate s loss = 0 := by
  unfold attenuate
  rw [if_pos h]

/-- For a signal, a loss beyond the greatest strength is as good as the greatest strength. -/
theorem attenuate_min {s loss : UInt8} (h : s ≤ maxStrength) :
    attenuate s (min loss maxStrength) = attenuate s loss := by
  change attenuate s (if loss ≤ maxStrength then loss else maxStrength) = _
  split
  · rfl
  case isFalse hgt =>
    rw [attenuate_eq_zero h, attenuate_eq_zero (by grind)]

/-! ## Outputs -/

theorem digital_le (on : Bool) : digital on ≤ maxStrength := by
  cases on <;> decide

namespace Gate

variable {k : Gate} {p : Power}

theorem effectiveMain_le (hfar : k.hasFarInput = true → k.farInput ≤ maxStrength)
    (hmain : p.main ≤ maxStrength) : k.effectiveMain p.main ≤ maxStrength := by
  unfold effectiveMain
  split
  case isTrue h =>
    rw [Bool.and_eq_true] at h
    exact hfar h.1
  case isFalse => exact hmain

theorem comparatorOutput_le (hfar : k.hasFarInput = true → k.farInput ≤ maxStrength)
    (hmain : p.main ≤ maxStrength) : k.comparatorOutput p ≤ maxStrength := by
  have hle := effectiveMain_le hfar hmain
  unfold comparatorOutput
  unfold maxStrength at hle ⊢
  dsimp only
  split <;> split <;> grind

/-- A subtracting comparator puts out at most what its side input leaves over. -/
theorem comparatorOutput_subtract_le (hmode : k.mode = .subtract)
    (hfar : k.hasFarInput = true → k.farInput ≤ maxStrength) (hmain : p.main ≤ maxStrength)
    {side : UInt8} (hside : side ≤ p.side) :
    k.comparatorOutput p ≤ maxStrength - side := by
  have hle := effectiveMain_le hfar hmain
  unfold comparatorOutput
  rw [hmode]
  unfold maxStrength at hle ⊢
  dsimp only
  split <;> grind

/-- What a gate puts out after its evaluation depends on its strength before, but on nothing
else of its state. -/
theorem settle_strength_congr {s t : GateState} (h : s.strength = t.strength) :
    (k.settle s p).strength = (k.settle t p).strength := by
  unfold settle
  split <;> simp [h]

/-- Evaluating a gate twice with the same power is the same as evaluating it once. -/
theorem settle_settle (k : Gate) (s : GateState) (p : Power) :
    k.settle (k.settle s p) p = k.settle s p := by
  cases htype : k.type with
  | repeater =>
      unfold settle
      simp only [htype]
      split <;> rfl
  | _ =>
      unfold settle
      simp only [htype]

theorem settle_of_isConstant (h : k.isConstant = true) (s : GateState) (p : Power) :
    k.settle s p = s := by
  have htype : k.type = .constant := by simpa [isConstant] using h
  simp [settle, htype]

/-- Where folding gives an output, a gate that is neither locked by its state nor by its side
input is evaluated to the same output. -/
theorem settle_strength_of_fold {s t : GateState} (hlocked : k.type = .repeater → s.locked = false)
    (hside : k.type = .repeater → p.side = 0) {out : UInt8} (hfold : k.fold s p = some out) :
    (k.settle t p).strength = out := by
  unfold fold at hfold
  unfold settle
  cases htype : k.type with
  | repeater =>
      simp only [htype, hlocked htype, Bool.false_eq_true, if_false, Option.some.injEq] at hfold
      simp [hside htype, hfold]
  | comparator =>
      simp only [htype, Option.some.injEq] at hfold
      exact hfold
  | torch =>
      simp only [htype, Option.some.injEq] at hfold
      exact hfold
  | _ => simp [htype] at hfold

theorem fold_le (hfar : k.hasFarInput = true → k.farInput ≤ maxStrength)
    (hmain : p.main ≤ maxStrength) {s : GateState}
    (hlocked : k.type = .repeater → s.locked = true → s.strength ≤ maxStrength)
    {out : UInt8} (hfold : k.fold s p = some out) : out ≤ maxStrength := by
  unfold fold at hfold
  cases htype : k.type with
  | repeater =>
      simp only [htype, Option.some.injEq] at hfold
      rw [← hfold]
      split
      case isTrue hlock => exact hlocked htype hlock
      case isFalse => exact digital_le _
  | comparator =>
      simp only [htype, Option.some.injEq] at hfold
      rw [← hfold]
      exact comparatorOutput_le hfar hmain
  | torch =>
      simp only [htype, Option.some.injEq] at hfold
      rw [← hfold]
      exact digital_le _
  | _ => simp [htype] at hfold

theorem settle_le (hfar : k.hasFarInput = true → k.farInput ≤ maxStrength)
    (hmain : p.main ≤ maxStrength) {s : GateState} (hs : s.strength ≤ maxStrength) :
    (k.settle s p).strength ≤ maxStrength := by
  unfold settle
  cases htype : k.type with
  | repeater =>
      simp only
      split
      · exact hs
      · exact digital_le _
  | comparator => exact comparatorOutput_le hfar hmain
  | torch => exact digital_le _
  | lamp => exact hmain
  | trapdoor => exact hmain
  | noteBlock => exact hmain
  | wire => exact hmain
  | _ => exact hs

end Gate

end Redstone
