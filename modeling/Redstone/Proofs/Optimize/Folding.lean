import Mathlib.Data.Finset.Basic
import Mathlib.Logic.Equiv.Basic
import Mathlib.Order.Bounds.Basic
import Redstone.Proofs.Optimize.Exhaustion

/-!
# What folding comes to

Folding looks at one node after the other and changes the circuit on the way, so that what is
folded early makes more nodes constant.  What it comes to in the end does not depend on the way:
the constants are then the least set that contains the old constants, and every gate that can be
folded and has all of its sources in the set.  A gate on a loop is never in it.
-/

namespace Redstone

/-- The link with other names for its ends. -/
def Link.rename (π : NodeId → NodeId) (l : Link) : Link :=
  { l with source := π l.source, target := π l.target }

namespace Circuit

/-! ## The least set -/

/-- A set of nodes that contains the constants, and every gate that can be folded and has all of
its sources in the set. -/
structure ClosedUnderFolding (g : Circuit) (S : Set NodeId) : Prop where
  constant : ∀ {id n}, g.node? id = some n → n.gate.isConstant = true → id ∈ S
  gate : ∀ {id n}, g.node? id = some n → n.gate.isFoldable = true →
    (∀ i l, g.link? i = some l → l.target = id → l.source ∈ S) → id ∈ S

/-- What the node puts out is fixed: it is a constant, or it can be folded and what its sources
put out is fixed. -/
inductive Fixed (g : Circuit) : NodeId → Prop
  | constant {id : NodeId} {n : Node} (hn : g.node? id = some n)
      (hconst : n.gate.isConstant = true) : Fixed g id
  | gate {id : NodeId} {n : Node} (hn : g.node? id = some n) (hfoldable : n.gate.isFoldable = true)
      (hsources : ∀ i l, g.link? i = some l → l.target = id → Fixed g l.source) : Fixed g id

theorem isLeast_fixed (g : Circuit) :
    IsLeast {S : Set NodeId | g.ClosedUnderFolding S} {id | g.Fixed id} := by
  refine ⟨⟨fun hn hconst => .constant hn hconst, fun hn hfoldable hsources =>
    .gate hn hfoldable hsources⟩, fun S hS id hid => ?_⟩
  induction hid with
  | constant hn hconst => exact hS.constant hn hconst
  | gate hn hfoldable _ ih => exact hS.gate hn hfoldable ih

/-- There is a constant of this name. -/
def ConstantAt (g : Circuit) (id : NodeId) : Prop :=
  ∃ n, g.node? id = some n ∧ n.gate.isConstant = true

/-- What the node puts out is fixed, though it is no constant yet. -/
def NewlyFixed (g : Circuit) (id : NodeId) : Prop :=
  g.Fixed id ∧ ¬g.ConstantAt id

theorem strength_congr {g g' : Circuit} {id id' : NodeId} (h : g'.node? id' = g.node? id) :
    g'.strength id' = g.strength id := by
  unfold strength
  rw [h]

/-! ## Renamed circuits -/

/-- The second circuit is the first one with other names for its nodes and links. -/
structure Renames (π : Equiv.Perm NodeId) (ρ : Equiv.Perm LinkId) (g g₂ : Circuit) : Prop where
  node?_eq : ∀ id, g₂.node? (π id) = g.node? id
  link?_eq : ∀ i, g₂.link? (ρ i) = (g.link? i).map (Link.rename π)

namespace Renames

variable {π : Equiv.Perm NodeId} {ρ : Equiv.Perm LinkId} {g g₂ : Circuit} {id : NodeId}

theorem refl (g : Circuit) : Renames (.refl _) (.refl _) g g where
  node?_eq := fun _ => rfl
  link?_eq := fun i => by
    cases hl : g.link? i with
    | none => exact hl
    | some l => exact hl

theorem symm (h : Renames π ρ g g₂) : Renames π.symm ρ.symm g₂ g where
  node?_eq := fun id => by
    rw [← h.node?_eq, Equiv.apply_symm_apply]
  link?_eq := fun i => by
    have hlink := h.link?_eq (ρ.symm i)
    rw [Equiv.apply_symm_apply] at hlink
    rw [hlink, Option.map_map]
    cases g.link? (ρ.symm i) with
    | none => rfl
    | some l => simp [Link.rename]

/-- The links to a node under its other name. -/
theorem exists_link? (h : Renames π ρ g g₂) {i : LinkId} {l₂ : Link}
    (hl₂ : g₂.link? i = some l₂) (htarget : l₂.target = π id) :
    ∃ j l, g.link? j = some l ∧ l.target = id ∧ l₂ = l.rename π := by
  have hlink := h.link?_eq (ρ.symm i)
  rw [Equiv.apply_symm_apply, hl₂] at hlink
  obtain ⟨l, hl, heq⟩ := Option.map_eq_some_iff.mp hlink.symm
  refine ⟨_, l, hl, ?_, heq.symm⟩
  rw [← heq] at htarget
  exact π.injective htarget

theorem constantAt_iff (h : Renames π ρ g g₂) : g₂.ConstantAt (π id) ↔ g.ConstantAt id := by
  unfold ConstantAt
  rw [h.node?_eq]

theorem fixed (h : Renames π ρ g g₂) (hfixed : g.Fixed id) : g₂.Fixed (π id) := by
  induction hfixed with
  | constant hn hconst => exact .constant ((h.node?_eq _).trans hn) hconst
  | gate hn hfoldable _ ih =>
      refine .gate ((h.node?_eq _).trans hn) hfoldable fun i l₂ hl₂ htarget => ?_
      obtain ⟨j, l, hl, hend, rfl⟩ := h.exists_link? hl₂ htarget
      exact ih j l hl hend

theorem fixed_iff (h : Renames π ρ g g₂) : g₂.Fixed (π id) ↔ g.Fixed id := by
  refine ⟨fun hfixed => ?_, h.fixed⟩
  have hback := h.symm.fixed hfixed
  rw [Equiv.symm_apply_apply] at hback
  exact hback

theorem newlyFixed_iff (h : Renames π ρ g g₂) : g₂.NewlyFixed (π id) ↔ g.NewlyFixed id := by
  unfold NewlyFixed
  rw [h.fixed_iff, h.constantAt_iff]

theorem powerUnder_eq (h : Renames π ρ g g₂) (hwf : g.WellFormed) (hwf₂ : g₂.WellFormed)
    {σ σ₂ : NodeId → UInt8}
    (hσ : ∀ i l, g.link? i = some l → l.target = id → σ₂ (π l.source) = σ l.source) :
    g₂.powerUnder σ₂ (π id) = g.powerUnder σ id := by
  apply powerUnder_congr hwf₂ hwf
  intro side s _
  constructor
  · rintro ⟨i, l₂, hl₂, htarget, hside, hle⟩
    obtain ⟨j, l, hl, hend, rfl⟩ := h.exists_link? hl₂ htarget
    exact ⟨j, l, hl, hend, hside, hσ j l hl hend ▸ hle⟩
  · rintro ⟨i, l, hl, htarget, hside, hle⟩
    refine ⟨ρ i, l.rename π, ?_, congrArg π htarget, hside, ?_⟩
    · rw [h.link?_eq, hl]
      rfl
    · rw [← hσ i l hl htarget] at hle
      exact hle

end Renames

end Circuit

namespace Optimize

open Circuit

variable {g g' : Circuit} {id : NodeId}

/-! ## Folding under way -/

/-- The node has been turned into a constant. -/
def Turned (g g' : Circuit) (id : NodeId) : Prop :=
  g'.ConstantAt id ∧ ¬g.ConstantAt id

/-- The circuit `g'` comes from `g` by folding some nodes.  The sources of such a node are
constants by then, so that its strength follows from theirs for good. -/
structure Folding (g g' : Circuit) : Prop where
  wellFormed_start : g.WellFormed
  wellFormed : g'.WellFormed
  kept : ∀ {id}, ¬Turned g g' id → g'.node? id = g.node? id
  turned : ∀ {id}, Turned g g' id → ∃ n s, g.node? id = some n ∧
    n.gate.fold n.state (g.powerUnder g'.strength id) = some s ∧
    g'.node? id = some { n with gate := .constant, state := .ofStrength s }
  grounded : ∀ {id i l}, Turned g g' id → g.link? i = some l → l.target = id →
    g'.ConstantAt l.source
  sound : ∀ {id}, g'.ConstantAt id → g.Fixed id
  link?_eq_some_iff : ∀ {i l}, g'.link? i = some l ↔ g.link? i = some l ∧ ¬Turned g g' l.target

namespace Folding

theorem start (h : g.WellFormed) : Folding g g where
  wellFormed_start := h
  wellFormed := h
  kept := fun _ => rfl
  turned := fun hturned => absurd hturned.1 hturned.2
  grounded := fun hturned => absurd hturned.1 hturned.2
  sound := fun ⟨_, hn, hconst⟩ => .constant hn hconst
  link?_eq_some_iff := ⟨fun hl => ⟨hl, fun hturned => hturned.2 hturned.1⟩, fun hl => hl.1⟩

theorem constantAt (h : Folding g g') (hconst : g.ConstantAt id) : g'.ConstantAt id := by
  obtain ⟨n, hn, hgate⟩ := hconst
  exact ⟨n, (h.kept fun hturned => hturned.2 ⟨n, hn, hgate⟩).trans hn, hgate⟩

theorem powerUnder_eq (h : Folding g g') (hid : ¬Turned g g' id) (σ : NodeId → UInt8) :
    g'.powerUnder σ id = g.powerUnder σ id := by
  apply powerUnder_congr h.wellFormed h.wellFormed_start
  intro side s _
  constructor
  · rintro ⟨i, l, hl, hrest⟩
    exact ⟨i, l, (h.link?_eq_some_iff.mp hl).1, hrest⟩
  · rintro ⟨i, l, hl, htarget, hrest⟩
    exact ⟨i, l, h.link?_eq_some_iff.mpr ⟨hl, htarget ▸ hid⟩, htarget, hrest⟩

section MakeConstant

variable {n : Node} {s : UInt8} {j : NodeId}

theorem constantAt_makeConstant_iff (hn : g'.node? id = some n) :
    (Optimize.makeConstant g' id s).ConstantAt j ↔ id = j ∨ g'.ConstantAt j := by
  unfold ConstantAt
  rw [node?_makeConstant hn]
  by_cases hj : id = j
  · simp only [hj, if_true, true_or, iff_true]
    exact ⟨_, rfl, rfl⟩
  · rw [if_neg hj, or_iff_right hj]

theorem turned_makeConstant_iff (h : Folding g g') (hn : g'.node? id = some n)
    (hvariable : ¬g'.ConstantAt id) :
    Turned g (Optimize.makeConstant g' id s) j ↔ id = j ∨ Turned g g' j := by
  unfold Turned
  rw [constantAt_makeConstant_iff hn, or_and_right]
  refine or_congr_left (and_iff_left_of_imp ?_)
  rintro rfl hold
  exact hvariable (h.constantAt hold)

/-- A new constant is none of the old ones, which keep their strengths. -/
theorem strength_makeConstant (hn : g'.node? id = some n) (hvariable : ¬g'.ConstantAt id)
    (hj : g'.ConstantAt j) : (Optimize.makeConstant g' id s).strength j = g'.strength j := by
  refine strength_congr ?_
  rw [node?_makeConstant hn, if_neg]
  rintro rfl
  exact hvariable hj

/-- What one more constant does: it keeps its sources' strengths, as it is none of them. -/
theorem makeConstant (h : Folding g g') (hn : g'.node? id = some n)
    (hinputs : g'.hasConstantInputs id = true)
    (hfold : n.gate.fold n.state (g'.inputPower id) = some s) :
    Folding g (makeConstant g' id s) := by
  have hfoldable := Gate.isFoldable_of_fold hfold
  -- the node was no constant, so that what has been turned before is other nodes
  have hvariable : ¬g'.ConstantAt id := by
    rintro ⟨m, hm, hconst⟩
    cases hn.symm.trans hm
    rw [Gate.isConstant_of_isFoldable hfoldable] at hconst
    cases hconst
  have hid : ¬Turned g g' id := fun hturned => hvariable hturned.1
  have hn₀ : g.node? id = some n := (h.kept hid).symm.trans hn
  have hsources {i : LinkId} {l : Link} (hl : g.link? i = some l) (htarget : l.target = id) :
      g'.ConstantAt l.source :=
    (hasConstantInputs_iff h.wellFormed).mp hinputs i l
      (h.link?_eq_some_iff.mpr ⟨hl, htarget ▸ hid⟩) htarget
  have hturned {j : NodeId} := h.turned_makeConstant_iff (s := s) (j := j) hn hvariable
  exact {
    wellFormed_start := h.wellFormed_start
    wellFormed := wellFormed_makeConstant h.wellFormed
    kept := by
      intro j hj
      rw [hturned, not_or] at hj
      rw [node?_makeConstant hn, if_neg hj.1]
      exact h.kept hj.2
    turned := by
      intro j hj
      rcases hturned.mp hj with rfl | hold
      · refine ⟨n, s, hn₀, ?_, by rw [node?_makeConstant hn, if_pos rfl]⟩
        -- the node has the sources that it had at the start, and they are constants by now
        rw [← h.powerUnder_eq hid, ← hfold]
        refine congrArg _ (powerUnder_congr_strength h.wellFormed fun i l hl htarget => ?_)
        exact strength_makeConstant hn hvariable
          (hsources (h.link?_eq_some_iff.mp hl).1 htarget)
      · obtain ⟨m, t, hm, hfold', hm'⟩ := h.turned hold
        have hne : id ≠ j := by
          rintro rfl
          exact hid hold
        refine ⟨m, t, hm, ?_, by rw [node?_makeConstant hn, if_neg hne, hm']⟩
        -- what an older constant was folded from are constants, too
        rw [← hfold']
        refine congrArg _ (powerUnder_congr_strength h.wellFormed_start fun i l hl htarget => ?_)
        exact strength_makeConstant hn hvariable (h.grounded hold hl htarget)
    grounded := by
      intro j i l hj hl htarget
      refine (constantAt_makeConstant_iff hn).mpr (.inr ?_)
      rcases hturned.mp hj with rfl | hold
      · exact hsources hl htarget
      · exact h.grounded hold hl htarget
    sound := by
      intro j hj
      rcases (constantAt_makeConstant_iff hn).mp hj with rfl | hold
      · exact .gate hn₀ hfoldable fun i l hl htarget => h.sound (hsources hl htarget)
      · exact h.sound hold
    link?_eq_some_iff := by
      intro i l
      rw [link?_makeConstant_eq_some_iff h.wellFormed, h.link?_eq_some_iff, hturned, not_or,
        and_assoc, and_comm (a := ¬Turned g g' l.target), ne_comm] }

end MakeConstant

end Folding

theorem Folding.foldNode (h : Folding g g') (id : NodeId) :
    Folding g (foldNode id g').circuit :=
  foldNode_keeps (P := Folding g) (fun hn hinputs hfold => h.makeConstant hn hinputs hfold) h

/-! ## Folding in any order -/

/-- A sweep over the nodes in an order of one's choice. -/
def foldSweepIn (order : Circuit → List NodeId) (g : Circuit) : Revision :=
  Revision.sweep foldNode (order g) g

theorem variableNodes_makeConstant {n : Node} (hn : g.node? id = some n) (s : UInt8) :
    (makeConstant g id s).variableNodes = g.variableNodes.erase id := by
  ext j
  rw [Finset.mem_erase, mem_variableNodes, mem_variableNodes, node?_makeConstant hn]
  by_cases hj : id = j
  · simp only [hj, if_true, ne_eq, not_true_eq_false, false_and, iff_false]
    rintro ⟨m, hm, hvariable⟩
    cases hm
    cases hvariable
  · rw [if_neg hj]
    exact (and_iff_right (Ne.symm hj)).symm

/-- The changes count the nodes that have become constants. -/
theorem changes_foldNode_add (id : NodeId) (g : Circuit) :
    (foldNode id g).changes + (foldNode id g).circuit.variableNodes.card =
      g.variableNodes.card := by
  rcases foldNode_cases id g with ⟨heq, -⟩ | ⟨n, s, hn, -, hfold, heq⟩
  · rw [heq]
    exact Nat.zero_add _
  · have hmem : id ∈ g.variableNodes :=
      mem_variableNodes.mpr ⟨n, hn, Gate.isConstant_of_isFoldable (Gate.isFoldable_of_fold hfold)⟩
    rw [heq]
    change 1 + (makeConstant g id s).variableNodes.card = _
    rw [variableNodes_makeConstant hn, Nat.add_comm, Finset.card_erase_add_one hmem]

theorem changes_foldSweepIn_add (order : Circuit → List NodeId) (g : Circuit) :
    (foldSweepIn order g).changes + (foldSweepIn order g).circuit.variableNodes.card =
      g.variableNodes.card :=
  Revision.sweep_changes_add (m := fun g => g.variableNodes.card) changes_foldNode_add _ g

theorem loops_foldSweepIn (order : Circuit → List NodeId) (g : Circuit) :
    Revision.Loops (foldSweepIn order) g
      (Revision.untilStable (foldSweepIn order) (g.nodeBound + 1) g) :=
  Revision.loops_untilStable (m := fun g => g.variableNodes.card)
    (fun g => Nat.le_of_eq (changes_foldSweepIn_add order g)) (card_variableNodes_lt g)

/-- What folding comes to.  Exactly the nodes with a fixed output are constants; those among them
that have been folded are cut off from their sources and put out what their gates give for the
strengths at the end, and all else is as it was. -/
structure Folded (g : Circuit) (r : Revision) : Prop where
  wellFormed : r.circuit.WellFormed
  constantAt_iff : ∀ {id}, r.circuit.ConstantAt id ↔ g.Fixed id
  folded : ∀ {id}, g.NewlyFixed id → r.circuit.inputs id = [] ∧ ∃ n s, g.node? id = some n ∧
    n.gate.fold n.state (g.powerUnder r.circuit.strength id) = some s ∧
    r.circuit.node? id = some { n with gate := .constant, state := .ofStrength s }
  kept : ∀ {id}, ¬g.NewlyFixed id → r.circuit.node? id = g.node? id
  link?_eq_some_iff : ∀ {i l},
    r.circuit.link? i = some l ↔ g.link? i = some l ∧ ¬g.NewlyFixed l.target
  changes_eq : ∃ ids : List NodeId, ids.Nodup ∧ (∀ id, id ∈ ids ↔ g.NewlyFixed id) ∧
    r.changes = ids.length

/-- The nodes that have been folded are those that are no longer variable. -/
theorem Folding.turned_iff (h : Folding g g') :
    Turned g g' id ↔ id ∈ g.variableNodes \ g'.variableNodes := by
  rw [Finset.mem_sdiff, mem_variableNodes, mem_variableNodes]
  constructor
  · intro hturned
    obtain ⟨n, s, hn, hfold, hn'⟩ := h.turned hturned
    refine ⟨⟨n, hn, Gate.isConstant_of_isFoldable (Gate.isFoldable_of_fold hfold)⟩, ?_⟩
    rintro ⟨m, hm, hvariable⟩
    rw [hn'] at hm
    cases hm
    cases hvariable
  · rintro ⟨⟨n, hn, hvariable⟩, hnot⟩
    by_contra hturned
    exact hnot ⟨n, (h.kept hturned).trans hn, hvariable⟩

theorem Folding.variableNodes_subset (h : Folding g g') :
    g'.variableNodes ⊆ g.variableNodes := by
  intro id hid
  obtain ⟨n, hn, hvariable⟩ := mem_variableNodes.mp hid
  have hturned : ¬Turned g g' id := by
    rintro ⟨⟨m, hm, hconst⟩, -⟩
    rw [hn] at hm
    cases hm
    rw [hvariable] at hconst
    cases hconst
  exact mem_variableNodes.mpr ⟨n, (h.kept hturned).symm.trans hn, hvariable⟩

/-- When no gate is left with constants as its only sources, everything fixed is a constant. -/
theorem Folding.constantAt_iff (h : Folding g g')
    (hstable : ∀ {id n}, g'.node? id = some n → n.gate.isFoldable = true →
      g'.hasConstantInputs id = false) : g'.ConstantAt id ↔ g.Fixed id := by
  refine ⟨h.sound, fun hfixed => ?_⟩
  induction hfixed with
  | constant hn hconst => exact h.constantAt ⟨_, hn, hconst⟩
  | @gate id n hn hfoldable _ ih =>
      by_contra hnot
      have hturned : ¬Turned g g' id := fun hturned => hnot hturned.1
      have hinputs : g'.hasConstantInputs id = true :=
        (hasConstantInputs_iff h.wellFormed).mpr fun i l hl htarget =>
          ih i l (h.link?_eq_some_iff.mp hl).1 htarget
      rw [hstable ((h.kept hturned).trans hn) hfoldable] at hinputs
      cases hinputs

theorem folded_of_loops (h : g.WellFormed) {order : Circuit → List NodeId}
    (horder : ∀ g, (order g).Perm g.nodeIds) {r : Revision}
    (hloops : Revision.Loops (foldSweepIn order) g r) : Folded g r := by
  have hsame (g : Circuit) (hzero : (foldSweepIn order g).changes = 0) :
      (foldSweepIn order g).circuit = g :=
    (Revision.sweep_changes_eq_zero foldNode_circuit_of_changes hzero).1
  have hfolding : Folding g r.circuit := by
    refine hloops.keeps (P := Folding g) (fun g' hg' => ?_) (.start h)
    exact Revision.sweep_keeps (P := Folding g) (fun id _ _ hg => hg.foldNode id) hg'
  have hidle := (Revision.sweep_changes_eq_zero foldNode_circuit_of_changes
    (hloops.changes_eq_zero hsame)).2
  have hstable {id : NodeId} {n : Node} (hn : r.circuit.node? id = some n)
      (hfoldable : n.gate.isFoldable = true) : r.circuit.hasConstantInputs id = false := by
    have hzero := hidle id ((horder _).mem_iff.mpr (mem_nodeIds.mpr (contains_of_node? hn)))
    rcases foldNode_cases id r.circuit with ⟨-, hreason⟩ | ⟨m, s, -, -, -, heq⟩
    · exact hreason n hn hfoldable
    · rw [heq] at hzero
      cases hzero
  have hconst {id : NodeId} : r.circuit.ConstantAt id ↔ g.Fixed id :=
    hfolding.constantAt_iff hstable
  have hnew {id : NodeId} : Turned g r.circuit id ↔ g.NewlyFixed id := and_congr_left' hconst
  refine ⟨hfolding.wellFormed, hconst, fun {id} hid => ⟨?_, hfolding.turned (hnew.mpr hid)⟩,
    fun hid => hfolding.kept (mt hnew.mp hid), fun {i l} => ?_, ?_⟩
  · refine List.eq_nil_iff_forall_not_mem.mpr fun i hi => ?_
    obtain ⟨l, hl, htarget⟩ := hfolding.wellFormed.mem_inputs_iff.mp hi
    exact (hfolding.link?_eq_some_iff.mp hl).2 (hnew.mpr (htarget ▸ hid))
  · rw [hfolding.link?_eq_some_iff, hnew]
  · refine ⟨(g.variableNodes \ r.circuit.variableNodes).toList, Finset.nodup_toList _,
      fun id => ?_, ?_⟩
    · rw [Finset.mem_toList, ← hfolding.turned_iff, hnew]
    · have hcount := hloops.changes_add (m := fun g => g.variableNodes.card)
        (changes_foldSweepIn_add order)
      rw [Finset.length_toList, Finset.card_sdiff_of_subset hfolding.variableNodes_subset]
      omega

/-! ## The names of the nodes do not matter -/

/-- Under other names the same comes out. -/
theorem Folded.renames {π : Equiv.Perm NodeId} {ρ : Equiv.Perm LinkId} {g₂ : Circuit}
    {r r₂ : Revision} (h : Folded g r) (h₂ : Folded g₂ r₂) (hwf : g.WellFormed)
    (hwf₂ : g₂.WellFormed) (hrenames : Renames π ρ g g₂) :
    Renames π ρ r.circuit r₂.circuit ∧ r₂.changes = r.changes := by
  have hkept {id : NodeId} (hid : ¬g.NewlyFixed id) :
      r₂.circuit.node? (π id) = r.circuit.node? id := by
    rw [h.kept hid, h₂.kept (mt hrenames.newlyFixed_iff.mp hid), hrenames.node?_eq]
  have hfixed {id : NodeId} (hid : g.Fixed id) :
      r₂.circuit.node? (π id) = r.circuit.node? id := by
    -- along the sources of a folded node, which put out the same
    induction hid with
    | constant hn hconst => exact hkept fun hnew => hnew.2 ⟨_, hn, hconst⟩
    | @gate id n hn hfoldable hsources ih =>
        have hnew : g.NewlyFixed id := by
          refine ⟨.gate hn hfoldable hsources, ?_⟩
          rintro ⟨m, hm, hconst⟩
          rw [hn] at hm
          cases hm
          rw [Gate.isConstant_of_isFoldable hfoldable] at hconst
          cases hconst
        obtain ⟨-, m, s, hm, hfold, hnode⟩ := h.folded hnew
        obtain ⟨-, m₂, s₂, hm₂, hfold₂, hnode₂⟩ := h₂.folded (hrenames.newlyFixed_iff.mpr hnew)
        rw [hrenames.node?_eq, hm, Option.some.injEq] at hm₂
        subst hm₂
        rw [hrenames.powerUnder_eq hwf hwf₂ fun i l hl htarget =>
          strength_congr (ih i l hl htarget), hfold, Option.some.injEq] at hfold₂
        rw [hnode, hnode₂, hfold₂]
  refine ⟨⟨fun id => ?_, fun i => Option.ext fun l₂ => ?_⟩, ?_⟩
  · by_cases hid : g.Fixed id
    · exact hfixed hid
    · exact hkept fun hnew => hid hnew.1
  · rw [h₂.link?_eq_some_iff, hrenames.link?_eq, Option.map_eq_some_iff, Option.map_eq_some_iff]
    constructor
    · rintro ⟨⟨l, hl, rfl⟩, hnot⟩
      exact ⟨l, h.link?_eq_some_iff.mpr ⟨hl, mt hrenames.newlyFixed_iff.mpr hnot⟩, rfl⟩
    · rintro ⟨l, hl, rfl⟩
      obtain ⟨hl, hnot⟩ := h.link?_eq_some_iff.mp hl
      exact ⟨⟨l, hl, rfl⟩, mt hrenames.newlyFixed_iff.mp hnot⟩
  · obtain ⟨ids, hnodup, hmem, hlength⟩ := h.changes_eq
    obtain ⟨ids₂, hnodup₂, hmem₂, hlength₂⟩ := h₂.changes_eq
    have hperm : ids₂.Perm (ids.map π) := by
      refine (List.perm_ext_iff_of_nodup hnodup₂ (hnodup.map π.injective)).mpr fun id => ?_
      rw [hmem₂, ← π.apply_symm_apply id, hrenames.newlyFixed_iff, ← hmem,
        List.mem_map_of_injective π.injective]
    rw [hlength, hlength₂, hperm.length_eq, List.length_map]

/-- Folding computes the least solution.  The loop comes to an end; by then exactly the least set
of nodes with a fixed output are constants, with the strengths that follow from their sources, and
nothing else has changed.  A second call has nothing to do.  Neither the names of the nodes nor the
order in which a sweep looks at them make a difference. -/
theorem foldConstants_is_least (g : Circuit) (h : g.WellFormed) :
    IsLeast {S : Set NodeId | g.ClosedUnderFolding S} {id | g.Fixed id} ∧
    Revision.Loops foldSweep g (foldConstants g) ∧
    Folded g (foldConstants g) ∧
    foldConstants (foldConstants g).circuit = .unchanged (foldConstants g).circuit ∧
    (∀ (π : Equiv.Perm NodeId) (ρ : Equiv.Perm LinkId) (g₂ : Circuit), g₂.WellFormed →
      Renames π ρ g g₂ → Renames π ρ (foldConstants g).circuit (foldConstants g₂).circuit ∧
        (foldConstants g₂).changes = (foldConstants g).changes) ∧
    ∀ order : Circuit → List NodeId, (∀ g', (order g').Perm g'.nodeIds) →
      ∃ r, Revision.Loops (foldSweepIn order) g r ∧
        (∀ id, r.circuit.node? id = (foldConstants g).circuit.node? id) ∧
        (∀ i, r.circuit.link? i = (foldConstants g).circuit.link? i) ∧
        r.changes = (foldConstants g).changes := by
  have hfolded {g : Circuit} (h : g.WellFormed) : Folded g (foldConstants g) :=
    folded_of_loops h (fun g' => List.Perm.refl g'.nodeIds) (loops_foldSweepIn nodeIds g)
  have hloops : Revision.Loops foldSweep g (foldConstants g) := loops_foldSweepIn nodeIds g
  have hsame (g : Circuit) (hzero : (foldSweep g).changes = 0) : (foldSweep g).circuit = g :=
    (Revision.sweep_changes_eq_zero foldNode_circuit_of_changes hzero).1
  refine ⟨g.isLeast_fixed, hloops, hfolded h, ?_, fun π ρ g₂ h₂ hrenames => ?_,
    fun order horder => ?_⟩
  · have hzero := hloops.changes_eq_zero hsame
    exact Revision.untilStable_of_changes_eq_zero hzero (hsame _ hzero) _
  · exact (hfolded h).renames (hfolded h₂) h h₂ hrenames
  · refine ⟨_, loops_foldSweepIn order g, ?_⟩
    obtain ⟨hrenames, hchanges⟩ := (hfolded h).renames
      (folded_of_loops h horder (loops_foldSweepIn order g)) h h (.refl g)
    refine ⟨hrenames.node?_eq, fun i => (hrenames.link?_eq i).trans ?_, hchanges⟩
    cases hl : (foldConstants g).circuit.link? i with
    | none => rfl
    | some l => rfl

/-- A torch behind a repeater behind a constant, named against the direction of the signal, and
two torches on a loop. -/
def backwardChain : Circuit :=
  let nodes := Circuit.empty.addNodes
    [ { gate := .plain .torch }, { gate := .repeater 1 false }, .constant 7
    , { gate := .plain .torch }, { gate := .plain .torch } ]
  (((nodes.addLink { source := 2, target := 1, channel := .main, loss := 2 }).addLink
    { source := 1, target := 0, channel := .main, loss := 0 }).addLink
    { source := 3, target := 4, channel := .main, loss := 0 }).addLink
    { source := 4, target := 3, channel := .main, loss := 0 }

/-- The chain is folded from its end, in as many sweeps as it is long; the loop is not. -/
theorem foldConstants_is_least_backwardChain :
    (foldConstants backwardChain).changes = 2 ∧ backwardChain.Fixed 0 ∧ ¬backwardChain.Fixed 3 ∧
      (foldConstants backwardChain).circuit.inputs 0 = [] ∧
      (foldConstants backwardChain).circuit.node? 0 = some (.constant 0) := by
  have hwf : backwardChain.WellFormed :=
    ((((WellFormed.empty.addNodes _).addLink _).addLink _).addLink _).addLink _
  obtain ⟨-, -, hfolded, -⟩ := foldConstants_is_least backwardChain hwf
  have hnode : (foldConstants backwardChain).circuit.node? 0 = some (.constant 0) := by decide
  have hloop : ∀ n, (foldConstants backwardChain).circuit.node? 3 = some n →
      n.gate.isConstant = false := by decide
  have hfixed : backwardChain.Fixed 0 := hfolded.constantAt_iff.mp ⟨_, hnode, rfl⟩
  refine ⟨by decide, hfixed, fun hfixed => ?_, (hfolded.folded ⟨hfixed, ?_⟩).1, hnode⟩
  · obtain ⟨n, hn, hconst⟩ := hfolded.constantAt_iff.mpr hfixed
    rw [hloop n hn] at hconst
    cases hconst
  · rintro ⟨n, hn, hconst⟩
    cases hn
    cases hconst

end Optimize

end Redstone
