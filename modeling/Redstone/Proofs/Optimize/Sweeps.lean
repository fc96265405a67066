import Redstone.Optimize.Revision
import Redstone.Proofs.Circuit.Refinement

/-!
# Sweeps

What every step of a sweep keeps is kept by the sweep and by its repetition.  In particular a
pass refines its circuit as soon as its steps do.
-/

namespace Redstone

namespace Revision

variable {α : Type} {P : Circuit → Prop}

theorem circuit_foldl_andThen_keeps {step : α → Circuit → Revision} {items : List α}
    (hstep : ∀ item ∈ items, ∀ g, P g → P (step item g).circuit) {r : Revision}
    (h : P r.circuit) :
    P (items.foldl (fun r item => r.andThen (step item)) r).circuit := by
  induction items generalizing r with
  | nil => exact h
  | cons item rest ih =>
      refine ih (fun next hnext => hstep next (List.mem_cons_of_mem _ hnext)) ?_
      exact hstep item List.mem_cons_self r.circuit h

theorem sweep_keeps {step : α → Circuit → Revision} {items : List α}
    (hstep : ∀ item ∈ items, ∀ g, P g → P (step item g).circuit) {g : Circuit} (h : P g) :
    P (sweep step items g).circuit :=
  circuit_foldl_andThen_keeps hstep (r := unchanged g) h

theorem untilStable_keeps {step : Circuit → Revision}
    (hstep : ∀ g, P g → P (step g).circuit) (fuel : Nat) {g : Circuit} (h : P g) :
    P (untilStable step fuel g).circuit := by
  induction fuel generalizing g with
  | zero => exact h
  | succ fuel ih =>
      unfold untilStable
      dsimp only
      split
      · exact hstep g h
      · exact ih (hstep g h)

/-! ## Sweeps without a change -/

theorem unchanged_andThen (g : Circuit) (step : Circuit → Revision) :
    (unchanged g).andThen step = step g := by
  simp [andThen, unchanged]

theorem andThen_assoc (r : Revision) (step step' : Circuit → Revision) :
    (r.andThen step).andThen step' = r.andThen fun g => (step g).andThen step' := by
  simp [andThen, Nat.add_assoc]

theorem foldl_andThen (step : α → Circuit → Revision) (items : List α) (r : Revision) :
    items.foldl (fun r item => r.andThen (step item)) r = r.andThen (sweep step items) := by
  induction items generalizing r with
  | nil => rfl
  | cons item items ih =>
      have hcons (g : Circuit) :
          sweep step (item :: items) g = (step item g).andThen (sweep step items) := by
        rw [sweep, List.foldl_cons, ih, unchanged_andThen]
      rw [List.foldl_cons, ih, andThen_assoc, funext hcons]

theorem sweep_cons (step : α → Circuit → Revision) (item : α) (items : List α) (g : Circuit) :
    sweep step (item :: items) g = (step item g).andThen (sweep step items) := by
  rw [sweep, List.foldl_cons, foldl_andThen, unchanged_andThen]

theorem sweep_append (step : α → Circuit → Revision) (items later : List α) (g : Circuit) :
    sweep step (items ++ later) g = (sweep step items g).andThen (sweep step later) := by
  rw [sweep, List.foldl_append, foldl_andThen]
  rfl

/-- If no step changes the circuit without counting it, a sweep that counts nothing has left the
circuit as it was, and none of its steps has anything to do. -/
theorem sweep_changes_eq_zero {step : α → Circuit → Revision}
    (hsame : ∀ item g, (step item g).changes = 0 → (step item g).circuit = g) {items : List α}
    {g : Circuit} (h : (sweep step items g).changes = 0) :
    (sweep step items g).circuit = g ∧ ∀ item ∈ items, (step item g).changes = 0 := by
  induction items with
  | nil => exact ⟨rfl, nofun⟩
  | cons item items ih =>
      rw [sweep_cons] at h ⊢
      obtain ⟨hfirst, hrest⟩ := Nat.add_eq_zero_iff.mp h
      rw [hsame item g hfirst] at hrest
      obtain ⟨hcircuit, hitems⟩ := ih hrest
      refine ⟨?_, fun next hnext => ?_⟩
      · change (sweep step items (step item g).circuit).circuit = g
        rw [hsame item g hfirst, hcircuit]
      · rcases List.mem_cons.mp hnext with rfl | hnext
        · exact hfirst
        · exact hitems next hnext

/-- A sweep leaves the circuit alone if all of its steps do. -/
theorem sweep_of_unchanged {step : α → Circuit → Revision} {items : List α} {g : Circuit}
    (h : ∀ item ∈ items, step item g = unchanged g) : sweep step items g = unchanged g := by
  induction items with
  | nil => rfl
  | cons item items ih =>
      rw [sweep_cons, h item List.mem_cons_self, unchanged_andThen]
      exact ih fun next hnext => h next (List.mem_cons_of_mem _ hnext)

/-- Steps that pay for their changes with a measure of the circuit make up a sweep that does. -/
theorem sweep_pays {step : α → Circuit → Revision} {m : Circuit → Nat}
    (hstep : ∀ item g, (step item g).changes + m (step item g).circuit ≤ m g)
    (items : List α) (g : Circuit) :
    (sweep step items g).changes + m (sweep step items g).circuit ≤ m g := by
  induction items generalizing g with
  | nil => exact Nat.le_of_eq (Nat.zero_add _)
  | cons item items ih =>
      rw [sweep_cons]
      have hpaid := hstep item g
      have hrest := ih (step item g).circuit
      change (step item g).changes + (sweep step items (step item g).circuit).changes +
        m (sweep step items (step item g).circuit).circuit ≤ m g
      omega

/-- If the changes of every step are what a measure of the circuit falls by, so are those of the
sweep. -/
theorem sweep_changes_add {step : α → Circuit → Revision} {m : Circuit → Nat}
    (hstep : ∀ item g, (step item g).changes + m (step item g).circuit = m g)
    (items : List α) (g : Circuit) :
    (sweep step items g).changes + m (sweep step items g).circuit = m g := by
  induction items generalizing g with
  | nil => exact Nat.zero_add _
  | cons item items ih =>
      rw [sweep_cons]
      have hfirst := hstep item g
      have hrest := ih (step item g).circuit
      change (step item g).changes + (sweep step items (step item g).circuit).changes +
        m (sweep step items (step item g).circuit).circuit = m g
      omega

/-! ## Loops -/

/-- A loop that repeats a revision until it makes no change comes to an end with the revision
`r`.  It has no bound; from a circuit where it goes on forever it leads nowhere. -/
inductive Loops (step : Circuit → Revision) : Circuit → Revision → Prop
  | done {g : Circuit} (h : (step g).changes = 0) : Loops step g (step g)
  | again {g : Circuit} {r : Revision} (h : (step g).changes ≠ 0)
      (hrest : Loops step (step g).circuit r) :
      Loops step g { circuit := r.circuit, changes := (step g).changes + r.changes }

/-- A bounded repetition is a loop, if the changes are paid for with a measure that is below the
bound. -/
theorem loops_untilStable {step : Circuit → Revision} {m : Circuit → Nat}
    (hstep : ∀ g, (step g).changes + m (step g).circuit ≤ m g) {fuel : Nat} {g : Circuit}
    (hfuel : m g < fuel) : Loops step g (untilStable step fuel g) := by
  induction fuel generalizing g with
  | zero => exact absurd hfuel (Nat.not_lt_zero _)
  | succ fuel ih =>
      unfold untilStable
      dsimp only
      split
      case isTrue hzero => exact .done hzero
      case isFalse hchanged =>
        have hpaid := hstep g
        exact .again hchanged (ih (by omega))

namespace Loops

variable {step : Circuit → Revision} {g : Circuit} {r : Revision}

theorem keeps (h : Loops step g r) (hstep : ∀ g, P g → P (step g).circuit) (hg : P g) :
    P r.circuit := by
  induction h with
  | done => exact hstep _ hg
  | again _ _ ih => exact ih (hstep _ hg)

/-- At the end of a loop the revision has nothing to do. -/
theorem changes_eq_zero (h : Loops step g r)
    (hsame : ∀ g, (step g).changes = 0 → (step g).circuit = g) :
    (step r.circuit).changes = 0 := by
  induction h with
  | done hzero =>
      rw [hsame _ hzero]
      exact hzero
  | again _ _ ih => exact ih

/-- If the changes of a revision are what a measure of the circuit falls by, so are those of the
loop. -/
theorem changes_add (h : Loops step g r) {m : Circuit → Nat}
    (hstep : ∀ g, (step g).changes + m (step g).circuit = m g) :
    r.changes + m r.circuit = m g := by
  induction h with
  | @done g _ => exact hstep g
  | @again g r _ _ ih =>
      have hfirst := hstep g
      change (step g).changes + r.changes + m r.circuit = m g
      omega

end Loops

/-- A repeated revision has nothing to do in the end, if its changes are paid for with a measure
that is below its fuel. -/
theorem untilStable_changes_eq_zero {step : Circuit → Revision} {m : Circuit → Nat}
    (hsame : ∀ g, (step g).changes = 0 → (step g).circuit = g)
    (hstep : ∀ g, (step g).changes + m (step g).circuit ≤ m g)
    {fuel : Nat} {g : Circuit} (hfuel : m g < fuel) :
    (step (untilStable step fuel g).circuit).changes = 0 :=
  (loops_untilStable hstep hfuel).changes_eq_zero hsame

/-- A revision that has nothing to do is not made, however often it may be repeated. -/
theorem untilStable_of_changes_eq_zero {step : Circuit → Revision} {g : Circuit}
    (hzero : (step g).changes = 0) (hsame : (step g).circuit = g) (fuel : Nat) :
    untilStable step (fuel + 1) g = unchanged g := by
  unfold untilStable
  dsimp only
  rw [if_pos hzero]
  exact congrArg₂ Revision.mk hsame hzero

end Revision

namespace Circuit

/-- A sweep refines the circuit if every step does. -/
theorem Refines.sweep {α : Type} {step : α → Circuit → Revision} {items : List α}
    (hstep : ∀ item g, g.Regular → Refines g (step item g).circuit) {g : Circuit}
    (h : g.Regular) : Refines g (Revision.sweep step items g).circuit := by
  refine Revision.sweep_keeps (P := Refines g) (fun item _ g' hg' => ?_) (.refl h)
  exact hg'.trans (hstep item g' hg'.regular)

/-- A repeated revision refines the circuit if the revision does. -/
theorem Refines.untilStable {step : Circuit → Revision}
    (hstep : ∀ g, g.Regular → Refines g (step g).circuit) (fuel : Nat) {g : Circuit}
    (h : g.Regular) : Refines g (Revision.untilStable step fuel g).circuit := by
  refine Revision.untilStable_keeps (P := Refines g) (fun g' hg' => ?_) fuel (.refl h)
  exact hg'.trans (hstep g' hg'.regular)

end Circuit

end Redstone
