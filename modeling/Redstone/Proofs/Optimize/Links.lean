import Redstone.Optimize.ClampedLosses
import Redstone.Optimize.DeadLinks
import Redstone.Optimize.ParallelLinks
import Redstone.Proofs.Optimize.Sweeps

/-!
# Links that make no difference

Three passes change links only: losses are clamped, parallel links are reduced to the best
one, and dead links are removed.  In each case every node keeps its power, under all strengths
that are balanced before or after the change.
-/

namespace Redstone.Optimize

open Circuit

variable {g : Circuit}

/-! ## Clamped losses -/

/-- Every link is there afterwards, with its loss cut off. -/
theorem link?_clampLosses (g : Circuit) (i : LinkId) :
    (clampLosses g).circuit.link? i = (g.link? i).map clampLink := by
  change ((g.links.map (Option.map clampLink))[i]?).join = _
  rw [Array.getElem?_map]
  unfold link?
  cases g.links[i]? with
  | none => rfl
  | some l => rfl

theorem node?_clampLosses (g : Circuit) (id : NodeId) :
    (clampLosses g).circuit.node? id = g.node? id := rfl

theorem wellFormed_clampLosses (h : g.WellFormed) : (clampLosses g).circuit.WellFormed where
  mem_inputs_iff := by
    intro id i
    rw [link?_clampLosses]
    refine Iff.trans h.mem_inputs_iff ?_
    simp [clampLink]
  mem_outputs_iff := by
    intro id i
    rw [link?_clampLosses]
    refine Iff.trans h.mem_outputs_iff ?_
    simp [clampLink]
  inputs_nodup := h.inputs_nodup
  outputs_nodup := h.outputs_nodup
  nodeCount_eq := h.nodeCount_eq
  linkCount_eq := by
    have hids : (clampLosses g).circuit.linkIds = g.linkIds := by
      apply linkIds_congr
      · simp [clampLosses, linkBound]
      · intro i
        rw [link?_clampLosses, Option.isSome_map]
    rw [hids]
    exact h.linkCount_eq

/-- A link that loses as much as the greatest strength, or more, brings nothing. -/
theorem powerUnder_clampLosses (h : g.WellFormed) {τ : NodeId → UInt8} {id : NodeId}
    (hτ : ∀ i l, g.link? i = some l → l.target = id → τ l.source ≤ maxStrength) :
    (clampLosses g).circuit.powerUnder τ id = g.powerUnder τ id := by
  apply powerUnder_congr (wellFormed_clampLosses h) h
  intro side s _
  constructor
  · rintro ⟨i, l, hl, htarget, hside, hle⟩
    rw [link?_clampLosses, Option.map_eq_some_iff] at hl
    obtain ⟨m, hm, rfl⟩ := hl
    refine ⟨i, m, hm, htarget, hside, ?_⟩
    rw [← attenuate_min (hτ i m hm htarget)]
    exact hle
  · rintro ⟨i, l, hl, htarget, hside, hle⟩
    refine ⟨i, clampLink l, ?_, htarget, hside, ?_⟩
    · rw [link?_clampLosses, hl, Option.map_some]
    · rw [← attenuate_min (hτ i l hl htarget)] at hle
      exact hle

theorem refines_clampLosses (h : g.Regular) : Refines g (clampLosses g).circuit := by
  refine .of_power h (wellFormed_clampLosses h.wellFormed) rfl (node?_clampLosses g) ?_ ?_
  · intro i l hl
    rw [link?_clampLosses, Option.map_eq_some_iff] at hl
    obtain ⟨m, hm, rfl⟩ := hl
    exact ⟨i, m, hm, rfl, rfl⟩
  · intro τ hτ id _
    apply powerUnder_clampLosses h.wellFormed
    intro i l hl _
    -- the bound of the strengths does not depend on the losses
    obtain ⟨n, hn⟩ := contains_iff.mp (h.wellFormed.contains_source hl)
    rcases hτ with hτ | hτ
    · exact hτ.bounded hn
    · exact hτ.bounded ((node?_clampLosses g l.source).trans hn)

/-! ## Parallel links -/

theorem areParallel_iff {l m : Link} :
    areParallel l m = true ↔ l.source = m.source ∧ l.target = m.target ∧ l.channel = m.channel := by
  simp [areParallel, and_assoc]

theorem areParallel_comm (l m : Link) : areParallel l m = areParallel m l := by
  rw [Bool.eq_iff_iff, areParallel_iff, areParallel_iff]
  constructor <;> rintro ⟨hsource, htarget, hchannel⟩ <;>
    exact ⟨hsource.symm, htarget.symm, hchannel.symm⟩

theorem outdoes_iff {j i : LinkId} {m l : Link} : outdoes j m i l = true ↔
    areParallel l m = true ∧ (m.loss < l.loss ∨ m.loss = l.loss ∧ j < i) := by
  simp [outdoes]

/-- A link is superfluous if some parallel one loses less, or as much under a smaller name. -/
theorem isRedundant_iff (h : g.WellFormed) {i : LinkId} :
    isRedundant g i = true ↔
      ∃ l j m, g.link? i = some l ∧ g.link? j = some m ∧ outdoes j m i l = true := by
  unfold isRedundant
  rw [Option.any_eq_true]
  constructor
  · rintro ⟨l, hl, hany⟩
    obtain ⟨j, -, hj⟩ := List.any_eq_true.mp hany
    obtain ⟨m, hm, hout⟩ := (Option.any_eq_true _ _).mp hj
    exact ⟨l, j, m, hl, hm, hout⟩
  · rintro ⟨l, j, m, hl, hm, hout⟩
    refine ⟨l, hl, List.any_eq_true.mpr ⟨j, ?_, (Option.any_eq_true _ _).mpr ⟨m, hm, hout⟩⟩⟩
    rw [(areParallel_iff.mp (outdoes_iff.mp hout).1).2.1]
    exact h.mem_inputs hm

theorem mem_redundantLinks (h : g.WellFormed) {i : LinkId} :
    i ∈ redundantLinks g ↔ isRedundant g i = true := by
  unfold redundantLinks
  rw [List.mem_flatMap]
  constructor
  · rintro ⟨id, -, hmem⟩
    exact (List.mem_filter.mp hmem).2
  · intro hred
    obtain ⟨l, -, -, hl, -, -⟩ := (isRedundant_iff h).mp hred
    refine ⟨l.target, mem_nodeIds.mpr (h.contains_target hl), List.mem_filter.mpr ⟨?_, hred⟩⟩
    exact h.mem_inputs hl

theorem nodup_redundantLinks (h : g.WellFormed) : (redundantLinks g).Nodup := by
  refine List.nodup_flatMap.mpr ⟨fun id _ => (h.inputs_nodup id).filter _, ?_⟩
  -- a link ends at one node only
  refine g.nodeIds_nodup.imp fun {a b} hne => ?_
  intro i ha hb
  obtain ⟨l, hl, htarget⟩ := h.mem_inputs_iff.mp (List.mem_filter.mp ha).1
  exact hne (htarget.symm.trans (h.target_eq hl (List.mem_filter.mp hb).1))

/-- Among the links parallel to a given one, one that loses no more stays. -/
theorem exists_not_isRedundant (h : g.WellFormed) {i : LinkId} {l : Link}
    (hl : g.link? i = some l) :
    ∃ j m, g.link? j = some m ∧ isRedundant g j = false ∧ areParallel l m = true ∧
      m.loss ≤ l.loss := by
  cases hred : isRedundant g i with
  | false => exact ⟨i, l, hl, hred, by simp [areParallel], UInt8.le_refl _⟩
  | true =>
      -- step from a redundant link to one that outdoes it: the loss or the name gets smaller
      obtain ⟨l', j, m, hl', hm, hout⟩ := (isRedundant_iff h).mp hred
      rw [hl] at hl'
      cases hl'
      obtain ⟨hpar, hless⟩ := outdoes_iff.mp hout
      obtain ⟨k, best, hk, hkept, hpar', hle⟩ := exists_not_isRedundant h hm
      refine ⟨k, best, hk, hkept, ?_, ?_⟩
      · simp_all [areParallel]
      · rcases hless with hlt | ⟨heq, -⟩
        · exact UInt8.le_trans hle (UInt8.le_of_lt hlt)
        · exact heq ▸ hle
termination_by (l.loss.toNat, i)
decreasing_by
  rw [Prod.lex_def]
  rcases hless with hlt | ⟨heq, hlt⟩
  · exact .inl (UInt8.lt_iff_toNat_lt.mp hlt)
  · exact .inr ⟨by rw [heq], hlt⟩

/-- Of the parallel links one remains that brings as much as any of them. -/
theorem powerUnder_dedupLinks (h : g.WellFormed) (τ : NodeId → UInt8) (id : NodeId) :
    (dedupLinks g).circuit.powerUnder τ id = g.powerUnder τ id := by
  have hlink (i : LinkId) : (dedupLinks g).circuit.link? i =
      if i ∈ redundantLinks g then none else g.link? i := link?_removeLinks _ i
  apply powerUnder_congr (h.removeLinks _) h
  intro side s _
  constructor
  · rintro ⟨i, l, hl, hrest⟩
    refine ⟨i, l, ?_, hrest⟩
    change (dedupLinks g).circuit.link? i = some l at hl
    rw [hlink] at hl
    split at hl
    · cases hl
    · exact hl
  · rintro ⟨i, l, hl, htarget, hside, hle⟩
    obtain ⟨j, m, hm, hkept, hpar, hloss⟩ := exists_not_isRedundant h hl
    simp only [areParallel, Bool.and_eq_true, beq_iff_eq] at hpar
    obtain ⟨⟨hsource, htarget'⟩, hchannel⟩ := hpar
    refine ⟨j, m, ?_, htarget' ▸ htarget, hchannel ▸ hside, ?_⟩
    · change (dedupLinks g).circuit.link? j = some m
      rw [hlink, if_neg, hm]
      rw [mem_redundantLinks h, hkept]
      exact Bool.false_ne_true
    · rw [← hsource]
      exact UInt8.le_trans hle (attenuate_mono (UInt8.le_refl _) hloss)

theorem refines_dedupLinks (h : g.Regular) : Refines g (dedupLinks g).circuit :=
  .removeLinks h _ fun τ _ id _ => powerUnder_dedupLinks h.wellFormed τ id

/-! ## Dead links -/

theorem le_sideFloor_iff {id : NodeId} {s : UInt8} (hs : 0 < s) :
    s ≤ sideFloor g id ↔ ∃ l ∈ g.inLinks id, s ≤ constantSide g l := by
  have hfold (links : List Link) (start : UInt8) :
      s ≤ links.foldl (fun s l => max s (constantSide g l)) start ↔
        s ≤ start ∨ ∃ l ∈ links, s ≤ constantSide g l := by
    induction links generalizing start with
    | nil => simp
    | cons l rest ih =>
        rw [List.foldl_cons, ih, le_max_iff]
        simp [or_assoc]
  unfold sideFloor
  rw [hfold]
  have hzero : ¬ s ≤ 0 := by grind
  simp [hzero]

/-- Constant side inputs bring at least their floor, as long as none of them is removed. -/
theorem sideFloor_le (h : g.WellFormed) {g' : Circuit} (h' : g'.WellFormed) {τ : NodeId → UInt8}
    {id : NodeId}
    (hlink : ∀ i l n, g.link? i = some l → g.node? l.source = some n →
      n.gate.isConstant = true → g'.link? i = some l)
    (hτ : ∀ j n, g.node? j = some n → n.gate.isConstant = true → n.state.strength = τ j) :
    sideFloor g id ≤ (g'.powerUnder τ id).side := by
  by_cases hpos : 0 < sideFloor g id
  case neg => grind
  obtain ⟨l, hl, hle⟩ := (le_sideFloor_iff hpos).mp (UInt8.le_refl _)
  obtain ⟨i, hi, htarget⟩ := h.mem_inLinks_iff.mp hl
  change sideFloor g id ≤ (g'.powerUnder τ id).at true
  rw [h'.le_powerUnder_iff hpos]
  unfold constantSide at hle
  split at hle
  case h_2 => grind
  case h_1 n hn =>
    split at hle
    case isFalse => grind
    case isTrue hside =>
      obtain ⟨hchannel, hconst⟩ := hside
      refine ⟨i, l, hlink i l n hi hn hconst, htarget, by simp [Channel.isSide, hchannel], ?_⟩
      rw [← hτ l.source n hn hconst]
      exact hle

/-- A link is dead if it loses all that its source can put out. -/
theorem mem_deadLinks (h : g.WellFormed) {id : NodeId} {i : LinkId} :
    i ∈ deadLinks g id ↔ ∃ l, g.link? i = some l ∧ l.source = id ∧ maxOutput g id ≤ l.loss := by
  unfold deadLinks
  simp only [List.mem_filter, h.mem_outputs_iff, Option.any_eq_true, decide_eq_true_eq]
  constructor
  · rintro ⟨⟨l, hl, hsource⟩, m, hm, hle⟩
    rw [hl] at hm
    cases hm
    exact ⟨l, hl, hsource, hle⟩
  · rintro ⟨l, hl, hsource, hle⟩
    exact ⟨⟨l, hl, hsource⟩, l, hl, hle⟩

/-- No node puts out more than its bound under strengths that constants uphold, as long as none of
the constants at the side input of a subtracting comparator is cut off. -/
theorem le_maxOutput_of_output (h : g.WellFormed) {g' : Circuit} (h' : g'.WellFormed) {id : NodeId}
    {n : Node} (hn : g.node? id = some n)
    (hfar : n.gate.hasFarInput = true → n.gate.farInput ≤ maxStrength) {τ : NodeId → UInt8}
    (hbound : τ id ≤ maxStrength) (hmain : (g'.powerUnder τ id).main ≤ maxStrength)
    (hconst : ∀ j m, g.node? j = some m → m.gate.isConstant = true → m.state.strength = τ j)
    (hout : n.gate.type = .comparator → n.gate.mode = .subtract →
      n.gate.comparatorOutput (g'.powerUnder τ id) = τ id)
    (hlink : n.gate.type = .comparator → ∀ i l m, g.link? i = some l →
      g.node? l.source = some m → m.gate.isConstant = true → g'.link? i = some l) :
    τ id ≤ maxOutput g id := by
  unfold maxOutput
  rw [hn]
  dsimp only
  split
  case h_1 htype =>
    rw [hconst id n hn (by simp [Gate.isConstant, htype])]
    exact UInt8.le_refl _
  case h_3 => exact hbound
  case h_2 htype =>
    split
    case isFalse => exact hbound
    case isTrue hmode =>
      rw [← hout htype hmode]
      exact Gate.comparatorOutput_subtract_le hmode hfar hmain
        (sideFloor_le h h' (hlink htype) hconst)

/-- No node puts out more than its bound, neither before nor after its dead links are
removed. -/
theorem le_maxOutput (h : g.Regular) {id : NodeId} {n : Node} (hn : g.node? id = some n)
    {ids : List LinkId} (hids : ∀ i ∈ ids, ∃ l, g.link? i = some l ∧ l.source = id)
    {τ : NodeId → UInt8} (hτ : (g.removeLinks ids).Balanced τ) : τ id ≤ maxOutput g id := by
  have hwf := h.wellFormed
  have hwf' := hwf.removeLinks ids
  have hn' : (g.removeLinks ids).node? id = some n := (node?_removeLinks ids id).trans hn
  refine le_maxOutput_of_output hwf hwf' hn (h.nodes hn).farInput_le (hτ.bounded hn')
    (hτ.power_le hwf' id false) ?_ ?_ ?_
  · intro j m hm hconst
    exact (hτ.upholds ((node?_removeLinks ids j).trans hm)).constant hconst
  · intro htype _
    have hsettles := (hτ.upholds hn').settles
    simp only [Gate.settle, htype] at hsettles
    exact hsettles
  · intro htype i l m hl hm hconst
    rw [link?_removeLinks, if_neg, hl]
    intro hmem
    obtain ⟨l', hl', hsource⟩ := hids i hmem
    rw [hl] at hl'
    cases hl'
    rw [hsource, hn] at hm
    cases hm
    simp [Gate.isConstant, htype] at hconst

theorem refines_pruneLinksAt (h : g.Regular) (id : NodeId) :
    Refines g (pruneLinksAt id g).circuit := by
  have hwf := h.wellFormed
  have hids : ∀ i ∈ deadLinks g id, ∃ l, g.link? i = some l ∧ l.source = id := by
    intro i hi
    obtain ⟨l, hl, hsource, -⟩ := (mem_deadLinks hwf).mp hi
    exact ⟨l, hl, hsource⟩
  refine .removeLinks h (deadLinks g id) fun τ hτ j _ => ?_
  apply powerUnder_congr (hwf.removeLinks _) hwf
  intro side s hs
  constructor
  · rintro ⟨i, l, hl, hrest⟩
    rw [link?_removeLinks] at hl
    split at hl
    · cases hl
    · exact ⟨i, l, hl, hrest⟩
  · rintro ⟨i, l, hl, htarget, hside, hle⟩
    refine ⟨i, l, ?_, htarget, hside, hle⟩
    rw [link?_removeLinks, if_neg, hl]
    -- a dead link would have to deliver a signal
    intro hmem
    obtain ⟨l', hl', hsource, hdead⟩ := (mem_deadLinks hwf).mp hmem
    rw [hl] at hl'
    cases hl'
    obtain ⟨n, hn⟩ := contains_iff.mp (hwf.contains_source hl)
    rw [hsource] at hn
    have hmax : τ id ≤ maxOutput g id := by
      rcases hτ with hτ | hτ
      · have hnone : ∀ i ∈ ([] : List LinkId), ∃ l, g.link? i = some l ∧ l.source = id := nofun
        exact le_maxOutput h hn hnone hτ
      · exact le_maxOutput h hn hids hτ
    rw [hsource, attenuate_eq_zero (UInt8.le_trans hmax hdead)] at hle
    grind

theorem refines_pruneDeadLinks (h : g.Regular) : Refines g (pruneDeadLinks g).circuit :=
  .sweep (fun id _ hg => refines_pruneLinksAt hg id) h

end Redstone.Optimize
