import Redstone.Proofs.Optimize.Links

/-!
# What a sweep over dead links removes

Dead links are removed node by node, while the bounds of later nodes are still to be computed from
the links that are left.  The order does not matter: a dead link from a constant brings nothing to
a side input, so that no bound changes on the way.  One sweep removes just the links that are dead
at its start, and nothing that could ever carry power.
-/

namespace Redstone.Optimize

open Circuit

variable {g g' : Circuit}

/-- The link loses at least what its source can put out. -/
def IsDead (g : Circuit) (l : Link) : Prop :=
  maxOutput g l.source ≤ l.loss

/-! ## Bounds do not change -/

/-- A constant side input that brings something is not dead. -/
theorem not_isDead_of_constantSide {l : Link} (h : 0 < constantSide g l) : ¬IsDead g l := by
  unfold constantSide at h
  split at h
  case h_2 => grind
  case h_1 n hn =>
    split at h
    case isFalse => grind
    case isTrue hside =>
      have htype : n.gate.type = .constant := by simpa [Gate.isConstant] using hside.2
      have hmax : maxOutput g l.source = n.state.strength := by simp [maxOutput, hn, htype]
      rw [IsDead, hmax]
      intro hdead
      rw [attenuate_eq_zero hdead] at h
      grind

theorem sideFloor_congr (h : g.WellFormed) (h' : g'.WellFormed)
    (hnode : ∀ j, g'.node? j = g.node? j)
    (hlink : ∀ {i l}, g'.link? i = some l → g.link? i = some l)
    (hlive : ∀ {i l}, g.link? i = some l → ¬IsDead g l → g'.link? i = some l) (id : NodeId) :
    sideFloor g' id = sideFloor g id := by
  have hside (l : Link) : constantSide g' l = constantSide g l := by
    simp only [constantSide, hnode]
  apply eq_of_forall_le_iff
  intro s hs
  rw [le_sideFloor_iff hs, le_sideFloor_iff hs]
  simp only [h.mem_inLinks_iff, h'.mem_inLinks_iff, hside]
  constructor
  · rintro ⟨l, ⟨i, hl, htarget⟩, hle⟩
    exact ⟨l, ⟨i, hlink hl, htarget⟩, hle⟩
  · rintro ⟨l, ⟨i, hl, htarget⟩, hle⟩
    have hpos : 0 < constantSide g l := by grind
    exact ⟨l, ⟨i, hlive hl (not_isDead_of_constantSide hpos), htarget⟩, hle⟩

/-- Links may go without an effect on the bounds, if they are dead. -/
theorem maxOutput_congr (h : g.WellFormed) (h' : g'.WellFormed)
    (hnode : ∀ j, g'.node? j = g.node? j)
    (hlink : ∀ {i l}, g'.link? i = some l → g.link? i = some l)
    (hlive : ∀ {i l}, g.link? i = some l → ¬IsDead g l → g'.link? i = some l) (id : NodeId) :
    maxOutput g' id = maxOutput g id := by
  unfold maxOutput
  rw [hnode, sideFloor_congr h h' hnode hlink hlive]

/-! ## The sweep -/

/-- The dead links of `g` are gone from `g'`, except those that start at the nodes `later`. -/
structure Pruned (g : Circuit) (later : List NodeId) (g' : Circuit) : Prop where
  wellFormed : g'.WellFormed
  node : ∀ j, g'.node? j = g.node? j
  link : ∀ {i l}, g'.link? i = some l ↔ g.link? i = some l ∧ (IsDead g l → l.source ∈ later)

namespace Pruned

variable {id : NodeId} {later : List NodeId}

theorem maxOutput_eq (hpruned : Pruned g later g') (h : g.WellFormed) (id : NodeId) :
    maxOutput g' id = maxOutput g id := by
  refine maxOutput_congr h hpruned.wellFormed hpruned.node (fun hl => (hpruned.link.mp hl).1) ?_ id
  intro i l hl hlive
  exact hpruned.link.mpr ⟨hl, fun hdead => absurd hdead hlive⟩

/-- Before the sweep the dead links may start anywhere. -/
theorem start (h : g.WellFormed) {order : List NodeId}
    (horder : ∀ {id}, g.contains id = true → id ∈ order) : Pruned g order g where
  wellFormed := h
  node := fun _ => rfl
  link := by
    intro i l
    constructor
    · intro hl
      exact ⟨hl, fun _ => horder (h.contains_source hl)⟩
    · rintro ⟨hl, -⟩
      exact hl

/-- The dead links of the next node go. -/
theorem pruneLinksAt (hpruned : Pruned g (id :: later) g') (h : g.WellFormed)
    (hlater : id ∉ later) : Pruned g later (pruneLinksAt id g').circuit where
  wellFormed := hpruned.wellFormed.removeLinks _
  node := fun j => (node?_removeLinks _ j).trans (hpruned.node j)
  link := by
    intro i l
    change (g'.removeLinks (deadLinks g' id)).link? i = some l ↔ _
    rw [link?_removeLinks]
    constructor
    · intro hl
      split at hl
      case isTrue => cases hl
      case isFalse hnot =>
        obtain ⟨hold, hdead⟩ := hpruned.link.mp hl
        refine ⟨hold, fun hd => ?_⟩
        rcases List.mem_cons.mp (hdead hd) with hid | hmem
        · refine absurd ((mem_deadLinks hpruned.wellFormed).mpr ⟨l, hl, hid, ?_⟩) hnot
          rw [hpruned.maxOutput_eq h, ← hid]
          exact hd
        · exact hmem
    · rintro ⟨hold, hdead⟩
      have hl := hpruned.link.mpr ⟨hold, fun hd => List.mem_cons_of_mem _ (hdead hd)⟩
      rw [if_neg, hl]
      intro hmem
      obtain ⟨m, hm, hid, hd⟩ := (mem_deadLinks hpruned.wellFormed).mp hmem
      cases hl.symm.trans hm
      rw [hpruned.maxOutput_eq h, ← hid] at hd
      exact hlater (hid ▸ hdead hd)

theorem sweep {order : List NodeId} (hpruned : Pruned g order g') (h : g.WellFormed)
    (hnodup : order.Nodup) : Pruned g [] (Revision.sweep Optimize.pruneLinksAt order g').circuit := by
  induction order generalizing g' with
  | nil => exact hpruned
  | cons id later ih =>
      obtain ⟨hlater, hnodup⟩ := List.nodup_cons.mp hnodup
      rw [Revision.sweep_cons]
      exact ih (hpruned.pruneLinksAt h hlater) hnodup

end Pruned

/-- Whatever the order of the nodes, a sweep leaves the links that are not dead at its start. -/
theorem pruned_sweep (h : g.WellFormed) {order : List NodeId} (horder : order.Perm g.nodeIds) :
    Pruned g [] (Revision.sweep pruneLinksAt order g).circuit :=
  (Pruned.start h fun hc => horder.mem_iff.mpr (mem_nodeIds.mpr hc)).sweep h
    (horder.nodup_iff.mpr g.nodeIds_nodup)

/-- Without a dead link there is nothing to remove. -/
theorem pruneDeadLinks_of_live (h : g.WellFormed)
    (hlive : ∀ {i l}, g.link? i = some l → ¬IsDead g l) : pruneDeadLinks g = .unchanged g := by
  refine Revision.sweep_of_unchanged fun id _ => ?_
  have hnone : deadLinks g id = [] := by
    refine List.eq_nil_iff_forall_not_mem.mpr fun i hi => ?_
    obtain ⟨l, hl, rfl, hdead⟩ := (mem_deadLinks h).mp hi
    exact hlive hl hdead
  rw [pruneLinksAt, hnone]
  rfl

/-! ## Soundness of the bounds -/

/-- Strengths within the range that constants and subtracting comparators hold to.  Of the other
nodes nothing is asked, so that the circuit need not have come to rest. -/
structure HeldByConstants (g : Circuit) (σ : NodeId → UInt8) : Prop where
  bounded : ∀ {id n}, g.node? id = some n → σ id ≤ maxStrength
  constant : ∀ {id n}, g.node? id = some n → n.gate.isConstant = true → σ id = n.state.strength
  subtract : ∀ {id n}, g.node? id = some n → n.gate.isComparator = true →
    n.gate.mode = .subtract → σ id = n.gate.comparatorOutput (g.powerUnder σ id)

/-- What constants take away from a subtracting comparator is within the range. -/
theorem sideFloor_le_maxStrength
    (hconst : ∀ {id n}, g.node? id = some n → n.gate.isConstant = true →
      n.state.strength ≤ maxStrength) (id : NodeId) : sideFloor g id ≤ maxStrength := by
  by_cases hpos : 0 < sideFloor g id
  case neg => grind
  obtain ⟨l, -, hle⟩ := (le_sideFloor_iff hpos).mp (UInt8.le_refl _)
  refine UInt8.le_trans hle ?_
  unfold constantSide
  split
  case h_2 => decide
  case h_1 n hn =>
    split
    case isFalse => decide
    case isTrue hside => exact UInt8.le_trans (attenuate_le _ _) (hconst hn hside.2)

namespace HeldByConstants

variable {σ : NodeId → UInt8}

theorem le_maxOutput (hσ : HeldByConstants g σ) (h : g.WellFormed) {id : NodeId} {n : Node}
    (hn : g.node? id = some n)
    (hfar : n.gate.hasFarInput = true → n.gate.farInput ≤ maxStrength) : σ id ≤ maxOutput g id := by
  refine le_maxOutput_of_output h h hn hfar (hσ.bounded hn) ?_ ?_ ?_ ?_
  · refine h.powerUnder_le (fun i l hl _ => ?_) false
    obtain ⟨m, hm⟩ := contains_iff.mp (h.contains_source hl)
    exact hσ.bounded hm
  · intro j m hm hc
    exact (hσ.constant hm hc).symm
  · intro htype hmode
    exact (hσ.subtract hn (by simp [Gate.isComparator, htype]) hmode).symm
  · intro _ i l m hl _ _
    exact hl

/-- Dead links bring nothing, so that nobody misses them. -/
theorem powerUnder_eq (hσ : HeldByConstants g σ) (h : g.WellFormed)
    (hfar : ∀ {id n}, g.node? id = some n → n.gate.hasFarInput = true →
      n.gate.farInput ≤ maxStrength) (hpruned : Pruned g [] g') (id : NodeId) :
    g'.powerUnder σ id = g.powerUnder σ id := by
  apply powerUnder_congr hpruned.wellFormed h
  intro side s hs
  constructor
  · rintro ⟨i, l, hl, hrest⟩
    exact ⟨i, l, (hpruned.link.mp hl).1, hrest⟩
  · rintro ⟨i, l, hl, htarget, hside, hle⟩
    refine ⟨i, l, hpruned.link.mpr ⟨hl, fun hdead => ?_⟩, htarget, hside, hle⟩
    obtain ⟨n, hn⟩ := contains_iff.mp (h.contains_source hl)
    have hmax : σ l.source ≤ l.loss := UInt8.le_trans (hσ.le_maxOutput h hn (hfar hn)) hdead
    rw [attenuate_eq_zero hmax] at hle
    grind

end HeldByConstants

/-- Dead links are found in one sweep.  The bounds of the outputs are computed without wrapping and
hold under all strengths that constants and subtracting comparators hold to; the links that stay are
those whose loss is below the bound of their source at the start, in whatever order the nodes are
visited; all nodes keep their power; and a second sweep has nothing to do. -/
theorem pruneDeadLinks_is_exact (g : Circuit) (h : g.WellFormed)
    (hconst : ∀ {id n}, g.node? id = some n → n.gate.isConstant = true →
      n.state.strength ≤ maxStrength)
    (hfar : ∀ {id n}, g.node? id = some n → n.gate.hasFarInput = true →
      n.gate.farInput ≤ maxStrength) :
    (∀ id, sideFloor g id ≤ maxStrength) ∧
    (∀ σ, HeldByConstants g σ → ∀ id, g.contains id = true → σ id ≤ maxOutput g id) ∧
    (∀ i l, (pruneDeadLinks g).circuit.link? i = some l ↔
      g.link? i = some l ∧ l.loss < maxOutput g l.source) ∧
    (∀ order, order.Perm g.nodeIds → ∀ i,
      (Revision.sweep pruneLinksAt order g).circuit.link? i =
        (pruneDeadLinks g).circuit.link? i) ∧
    (∀ id, (pruneDeadLinks g).circuit.node? id = g.node? id) ∧
    (∀ σ, HeldByConstants g σ → ∀ id,
      (pruneDeadLinks g).circuit.powerUnder σ id = g.powerUnder σ id) ∧
    pruneDeadLinks (pruneDeadLinks g).circuit = .unchanged (pruneDeadLinks g).circuit := by
  have hlinks {order : List NodeId} (horder : order.Perm g.nodeIds) {i : LinkId} {l : Link} :
      (Revision.sweep pruneLinksAt order g).circuit.link? i = some l ↔
        g.link? i = some l ∧ l.loss < maxOutput g l.source := by
    rw [(pruned_sweep h horder).link]
    simp only [List.not_mem_nil, imp_false, IsDead, UInt8.not_le]
  have hpruned : Pruned g [] (pruneDeadLinks g).circuit := pruned_sweep h (.refl _)
  refine ⟨sideFloor_le_maxStrength hconst, fun σ hσ id hc => ?_, fun i l => hlinks (.refl _),
    fun order horder i => ?_, hpruned.node,
    fun σ hσ id => hσ.powerUnder_eq h hfar hpruned id, ?_⟩
  · obtain ⟨n, hn⟩ := contains_iff.mp hc
    exact hσ.le_maxOutput h hn (hfar hn)
  · refine Option.ext fun l => ?_
    exact (hlinks horder).trans (hlinks (.refl _)).symm
  · refine pruneDeadLinks_of_live hpruned.wellFormed fun {i l} hl => ?_
    rw [IsDead, hpruned.maxOutput_eq h, UInt8.not_le]
    exact ((hlinks (.refl _)).mp hl).2

/-- A lever behind a subtracting comparator with two constants at its side, the weaker of which does
not get through, and a lamp behind the comparator and the weaker constant. -/
def subtractor : Circuit :=
  let nodes := Circuit.empty.addNodes
    [ .constant 3, { gate := .plain .lever, isInput := true }
    , { gate := .comparator .subtract false }, .constant 10
    , { gate := .plain .lamp, isOutput := true } ]
  (((((nodes.addLink { source := 0, target := 2, channel := .side, loss := 3 }).addLink
    { source := 1, target := 2, channel := .main, loss := 0 }).addLink
    { source := 3, target := 2, channel := .side, loss := 0 }).addLink
    { source := 2, target := 4, channel := .main, loss := 5 }).addLink
    { source := 2, target := 4, channel := .main, loss := 4 }).addLink
    { source := 0, target := 4, channel := .main, loss := 2 }

/-- Strengths of the subtractor with its lever at twelve and its lamp not lit yet. -/
def subtractorStrengths : NodeId → UInt8
  | 0 => 3
  | 1 => 12
  | 2 => 2
  | 3 => 10
  | _ => 0

/-- A dead side input goes before the comparator is looked at, whose bound stays at five. -/
theorem pruneDeadLinks_is_exact_subtractor :
    (pruneDeadLinks subtractor).circuit.linkIds = [1, 2, 4, 5] ∧
      HeldByConstants subtractor subtractorStrengths ∧ maxOutput subtractor 2 = 5 ∧
      (∀ id, (pruneDeadLinks subtractor).circuit.powerUnder subtractorStrengths id =
        subtractor.powerUnder subtractorStrengths id) ∧
      (pruneDeadLinks (pruneDeadLinks subtractor).circuit).changes = 0 := by
  have hwf : subtractor.WellFormed :=
    ((((((WellFormed.empty.addNodes _).addLink _).addLink _).addLink _).addLink _).addLink _).addLink _
  have hnodes : ∀ p ∈ subtractor.nodes,
      (p.2.gate.isConstant = true → p.2.state.strength ≤ maxStrength) ∧
      (p.2.gate.hasFarInput = true → p.2.gate.farInput ≤ maxStrength) ∧
      subtractorStrengths p.1 ≤ maxStrength ∧
      (p.2.gate.isConstant = true → subtractorStrengths p.1 = p.2.state.strength) ∧
      (p.2.gate.isComparator = true → p.2.gate.mode = .subtract → subtractorStrengths p.1 =
        p.2.gate.comparatorOutput (subtractor.powerUnder subtractorStrengths p.1)) := by decide
  have hheld : HeldByConstants subtractor subtractorStrengths :=
    ⟨fun hn => (hnodes _ (mem_nodes.mpr hn)).2.2.1,
      fun hn => (hnodes _ (mem_nodes.mpr hn)).2.2.2.1,
      fun hn => (hnodes _ (mem_nodes.mpr hn)).2.2.2.2⟩
  obtain ⟨-, -, -, -, -, hpower, hagain⟩ := pruneDeadLinks_is_exact subtractor hwf
    (fun hn => (hnodes _ (mem_nodes.mpr hn)).1) fun hn => (hnodes _ (mem_nodes.mpr hn)).2.1
  exact ⟨by decide, hheld, by decide, hpower _ hheld, congrArg Revision.changes hagain⟩

end Redstone.Optimize
