import Redstone.Proofs.Optimize.Steps

/-!
# Gates with constant inputs

A gate whose sources are all constant has a fixed power, and what it puts out is known.  Hence
it may be replaced by a constant, and an output may be fed by a constant of its own.
-/

namespace Redstone

theorem GateType.isSource_of_isIndicator {t : GateType} (h : t.isIndicator = true) :
    t.isSource = false := by
  cases t <;> first | rfl | cases h

theorem Gate.isFoldable_of_isIndicator {k : Gate} (h : k.type.isIndicator = true) :
    k.isFoldable = false := by
  unfold Gate.isFoldable
  cases htype : k.type <;> simp_all [GateType.isIndicator]

namespace Optimize

open Circuit

variable {g : Circuit} {id : NodeId} {n : Node}

/-- The strengths agree with those that the constants store. -/
def RespectsConstants (g : Circuit) (τ : NodeId → UInt8) : Prop :=
  ∀ j m, g.node? j = some m → m.gate.isConstant = true → m.state.strength = τ j

theorem respectsConstants_of_balanced {τ : NodeId → UInt8} (h : g.Balanced τ) :
    RespectsConstants g τ :=
  fun _ _ hm hconst => (h.upholds hm).constant hconst

theorem hasConstantInputs_iff (h : g.WellFormed) :
    g.hasConstantInputs id = true ↔
      ∀ i l, g.link? i = some l → l.target = id →
        ∃ m, g.node? l.source = some m ∧ m.gate.isConstant = true := by
  unfold hasConstantInputs
  rw [List.all_eq_true]
  constructor
  · intro hall i l hl htarget
    exact (Option.any_eq_true _ _).mp (hall l (h.mem_inLinks_iff.mpr ⟨i, hl, htarget⟩))
  · intro hall l hl
    obtain ⟨i, hi, htarget⟩ := h.mem_inLinks_iff.mp hl
    exact (Option.any_eq_true _ _).mpr (hall i l hi htarget)

/-- The power from constants is the same under all strengths that respect them. -/
theorem powerUnder_eq_inputPower (h : g.WellFormed) (hconst : g.hasConstantInputs id = true)
    {τ : NodeId → UInt8} (hτ : RespectsConstants g τ) : g.powerUnder τ id = g.inputPower id := by
  apply powerUnder_congr_strength h
  intro i l hl htarget
  obtain ⟨m, hm, hc⟩ := (hasConstantInputs_iff h).mp hconst i l hl htarget
  rw [← hτ l.source m hm hc]
  unfold strength
  rw [hm, Option.map_some, Option.getD_some]

theorem inputPower_le (h : g.Regular) (hconst : g.hasConstantInputs id = true) :
    (g.inputPower id).main ≤ maxStrength := by
  refine h.wellFormed.powerUnder_le (fun i l hl htarget => ?_) false
  obtain ⟨m, hm, hc⟩ := (hasConstantInputs_iff h.wellFormed).mp hconst i l hl htarget
  unfold strength
  rw [hm, Option.map_some, Option.getD_some]
  exact (h.nodes hm).constant_le hc

/-! ## Folding -/

section MakeConstant

variable {s : UInt8}

theorem node?_makeConstant (hn : g.node? id = some n) (j : NodeId) :
    (makeConstant g id s).node? j =
      if id = j then some { n with gate := .constant, state := .ofStrength s } else g.node? j := by
  unfold makeConstant
  rw [node?_removeLinks, node?_modifyNode]
  split
  case isTrue h =>
    rw [← h, hn]
    rfl
  case isFalse => rfl

theorem link?_makeConstant_eq_some_iff (h : g.WellFormed) {i : LinkId} {l : Link} :
    (makeConstant g id s).link? i = some l ↔ g.link? i = some l ∧ l.target ≠ id := by
  unfold makeConstant
  rw [← inputs_modifyNode (g := g) id _ id, (h.modifyNode id _).link?_removeInputs_eq_some_iff,
    link?_modifyNode]

theorem wellFormed_makeConstant (h : g.WellFormed) : (makeConstant g id s).WellFormed :=
  (h.modifyNode id _).removeLinks _

theorem powerUnder_makeConstant (h : g.WellFormed) {j : NodeId} (hj : id ≠ j)
    (τ : NodeId → UInt8) : (makeConstant g id s).powerUnder τ j = g.powerUnder τ j := by
  apply powerUnder_congr (wellFormed_makeConstant h) h
  intro side t _
  constructor
  · rintro ⟨i, l, hl, hrest⟩
    exact ⟨i, l, ((link?_makeConstant_eq_some_iff h).mp hl).1, hrest⟩
  · rintro ⟨i, l, hl, htarget, hrest⟩
    refine ⟨i, l, (link?_makeConstant_eq_some_iff h).mpr ⟨hl, ?_⟩, htarget, hrest⟩
    rw [htarget]
    exact hj.symm

theorem lineage_makeConstant (hfold : n.gate.isFoldable = true) (hn : g.node? id = some n) :
    Lineage g (makeConstant g id s) := by
  refine Lineage.trans (.modifyNode g id fun m hm => ?_) (.removeLinks _ _)
  rw [hn] at hm
  cases hm
  exact ⟨rfl, rfl, rfl, .inr ⟨hfold, rfl⟩⟩

theorem regular_makeConstant (h : g.Regular) (hs : s ≤ maxStrength)
    (hfold : n.gate.isFoldable = true) (hn : g.node? id = some n) :
    (makeConstant g id s).Regular where
  wellFormed := wellFormed_makeConstant h.wellFormed
  nodes := by
    intro j m hm
    rw [node?_makeConstant hn] at hm
    split at hm
    case isFalse => exact h.nodes hm
    case isTrue =>
      cases hm
      refine ⟨rfl, fun hfar => ?_, fun _ => hs, fun htype => ?_, fun hout => ?_⟩
      · cases hfar
      · cases htype
      · have hind := (h.nodes hn).output_indicator hout
        rw [Gate.isFoldable_of_isIndicator hind] at hfold
        cases hfold
  source_free := by
    intro i l m hl hm
    obtain ⟨hl, hne⟩ := (link?_makeConstant_eq_some_iff h.wellFormed).mp hl
    rw [node?_makeConstant hn, if_neg hne.symm] at hm
    exact h.source_free hl hm

theorem unlatched_makeConstant (h : g.Unlatched) (hwf : g.WellFormed)
    (hn : g.node? id = some n) : (makeConstant g id s).Unlatched where
  unlocked := by
    intro j m hm htype
    rw [node?_makeConstant hn] at hm
    split at hm
    case isFalse => exact h.unlocked hm htype
    case isTrue =>
      cases hm
      cases htype
  no_side := by
    intro i l m hl hm
    obtain ⟨hl, hne⟩ := (link?_makeConstant_eq_some_iff hwf).mp hl
    rw [node?_makeConstant hn, if_neg hne.symm] at hm
    exact h.no_side hl hm

/-- The gate has put out what folding gives, so that balanced strengths stay balanced. -/
theorem balanced_makeConstant (h : g.WellFormed) (hn : g.node? id = some n)
    (hinputs : g.hasConstantInputs id = true)
    (hfold : n.gate.fold n.state (g.inputPower id) = some s) {τ : NodeId → UInt8}
    (hτ : g.Balanced τ) : (makeConstant g id s).Balanced τ := by
  have hself : s = τ id := by
    refine (hτ.upholds hn).folds s ?_
    rw [powerUnder_eq_inputPower h hinputs (respectsConstants_of_balanced hτ)]
    exact hfold
  refine ⟨fun {j m} hm => ?_, fun {j m} hm => ?_⟩
  · rw [node?_makeConstant hn] at hm
    split at hm
    case isTrue hj =>
      cases hm
      rw [← hj]
      exact (Node.upholds_constant_iff rfl).mpr hself
    case isFalse hj =>
      rw [powerUnder_makeConstant h hj]
      exact hτ.upholds hm
  · rw [node?_makeConstant hn] at hm
    split at hm
    case isTrue hj => exact hj ▸ hτ.bounded hn
    case isFalse => exact hτ.bounded hm

/-- On the way back, the gate settles at the strength of the constant that it has become. -/
theorem balanced_of_makeConstant (h : g.WellFormed) (hun : g.Unlatched) (hn : g.node? id = some n)
    (hinputs : g.hasConstantInputs id = true)
    (hfold : n.gate.fold n.state (g.inputPower id) = some s) {τ : NodeId → UInt8}
    (hτ : (makeConstant g id s).Balanced τ) : g.Balanced τ := by
  have hnotConst := Gate.isConstant_of_isFoldable (Gate.isFoldable_of_fold hfold)
  have hstay {j : NodeId} {m : Node} (hj : id ≠ j) (hm : g.node? j = some m) :
      (makeConstant g id s).node? j = some m := by
    rw [node?_makeConstant hn, if_neg hj, hm]
  have hnew : (makeConstant g id s).node? id =
      some { n with gate := .constant, state := .ofStrength s } := by
    rw [node?_makeConstant hn, if_pos rfl]
  have hself : s = τ id := (hτ.upholds hnew).constant rfl
  -- the gate was none of the constants, so that these put out what they did
  have hresp : RespectsConstants g τ := by
    intro j m hm hconst
    have hj : id ≠ j := by
      rintro rfl
      cases hn.symm.trans hm
      rw [hnotConst] at hconst
      cases hconst
    exact (hτ.upholds (hstay hj hm)).constant hconst
  have hpower := powerUnder_eq_inputPower h hinputs hresp
  refine ⟨fun {j m} hm => ?_, fun {j m} hm => ?_⟩
  · by_cases hj : id = j
    · subst hj
      cases hn.symm.trans hm
      rw [hpower, ← hself]
      refine ⟨?_, fun out hout => ?_, fun hconst => ?_⟩
      · refine Gate.settle_strength_of_fold (fun ht => hun.unlocked hn ht) (fun ht => ?_) hfold
        rw [← hpower]
        exact hun.side_eq_zero h hn ht τ
      · exact (Option.some.inj (hfold.symm.trans hout)).symm
      · rw [hnotConst] at hconst
        cases hconst
    · rw [← powerUnder_makeConstant h hj]
      exact hτ.upholds (hstay hj hm)
  · by_cases hj : id = j
    · exact hj ▸ hτ.bounded hnew
    · exact hτ.bounded (hstay hj hm)

/-- A gate with constant inputs becomes the constant that folding gives. -/
theorem refines_makeConstant (h : g.Regular) (hn : g.node? id = some n)
    (hinputs : g.hasConstantInputs id = true)
    (hfold : n.gate.fold n.state (g.inputPower id) = some s) :
    Refines g (makeConstant g id s) := by
  have hwf := h.wellFormed
  have hfoldable := Gate.isFoldable_of_fold hfold
  have hs : s ≤ maxStrength :=
    Gate.fold_le (h.nodes hn).farInput_le (inputPower_le h hinputs) (h.nodes hn).locked_le hfold
  exact .of_balanced (lineage_makeConstant hfoldable hn) (regular_makeConstant h hs hfoldable hn)
    (fun hun => unlatched_makeConstant hun hwf hn)
    (fun _ hτ => balanced_makeConstant hwf hn hinputs hfold hτ)
    (fun hun _ hτ => balanced_of_makeConstant hwf hun hn hinputs hfold hτ)

end MakeConstant

theorem refines_foldNode (h : g.Regular) (id : NodeId) : Refines g (foldNode id g).circuit :=
  foldNode_keeps (P := Refines g)
    (fun hn hinputs hfold => refines_makeConstant h hn hinputs hfold) (.refl h)

theorem refines_foldConstants (h : g.Regular) : Refines g (foldConstants g).circuit :=
  .untilStable (fun _ hg => .sweep (fun id _ hg' => refines_foldNode hg' id) hg) _ h

/-! ## Settled outputs -/

section Refeed

variable {main : UInt8}

/-- The link from the new constant to the output. -/
def feed (g : Circuit) (id : NodeId) : Link :=
  { source := g.nodeBound, target := id, channel := .main, loss := 0 }

theorem wellFormed_refeed (h : g.WellFormed) : (refeed g id main).WellFormed :=
  refeed_keeps (h.removeLinks _) fun hbare _ => (hbare.addNode _).addLink _

theorem lineage_refeed : Lineage g (refeed g id main) :=
  refeed_keeps (P := Lineage g) (.removeLinks g _) fun hbare _ =>
    (hbare.trans (.addNode _ rfl rfl)).trans (.addLink _ _)

theorem node?_refeed (j : NodeId) :
    (refeed g id main).node? j =
      if j = g.nodeBound ∧ 0 < main then some (.constant main) else g.node? j := by
  unfold refeed feedConstant
  dsimp only
  split
  case isTrue hpos =>
    rw [node?_addLink, node?_addNode, nodeBound_removeLinks, node?_removeLinks]
    simp [hpos]
  case isFalse hzero =>
    rw [node?_removeLinks, if_neg]
    exact fun h => hzero h.2

theorem node?_refeed_of_some {j : NodeId} {m : Node} (hm : g.node? j = some m) :
    (refeed g id main).node? j = some m := by
  rw [node?_refeed, if_neg fun hnew => ne_nodeBound_of_node? hm hnew.1, hm]

theorem link?_refeed_eq_some_iff (h : g.WellFormed) (hid : g.contains id = true) {i : LinkId}
    {l : Link} :
    (refeed g id main).link? i = some l ↔
      g.link? i = some l ∧ l.target ≠ id ∨ 0 < main ∧ i = g.linkBound ∧ l = feed g id := by
  have hbound : (g.removeLinks (g.inputs id)).linkBound = g.linkBound := linkBound_removeLinks _
  unfold refeed feedConstant
  dsimp only
  split
  case isFalse hzero =>
    rw [h.link?_removeInputs_eq_some_iff]
    simp [hzero]
  case isTrue hpos =>
    have hs : ((g.removeLinks (g.inputs id)).addNode (.constant main)).contains
        (g.removeLinks (g.inputs id)).nodeBound = true := by
      rw [contains_addNode]
      simp
    have ht : ((g.removeLinks (g.inputs id)).addNode (.constant main)).contains id = true := by
      rw [contains_addNode, contains_removeLinks, hid, Bool.or_true]
    rw [nodeBound_removeLinks] at hs ⊢
    have hlink := link?_addLink (l := feed g id) hs ht i
    rw [link?_addNode, show ((g.removeLinks (g.inputs id)).addNode (.constant main)).linkBound =
      g.linkBound from hbound] at hlink
    change (Circuit.addLink _ (feed g id)).link? i = some l ↔ _
    rw [hlink]
    split
    case isTrue hi =>
      have hfree : g.link? i ≠ some l := by
        intro hl
        exact Nat.lt_irrefl _ (hi ▸ lt_linkBound_of_link? hl)
      simp [hi ▸ hfree, hpos, hi, feed, eq_comm]
    case isFalse hi =>
      rw [h.link?_removeInputs_eq_some_iff]
      simp [hi]

theorem powerUnder_refeed_of_ne (h : g.WellFormed) (hid : g.contains id = true) {j : NodeId}
    (hj : j ≠ id) {τ τ' : NodeId → UInt8} (hτ : ∀ k, k ≠ g.nodeBound → τ' k = τ k) :
    (refeed g id main).powerUnder τ' j = g.powerUnder τ j := by
  apply powerUnder_congr (wellFormed_refeed h) h
  intro side s _
  have hsource {i : LinkId} {l : Link} (hl : g.link? i = some l) : τ' l.source = τ l.source :=
    hτ _ (Nat.ne_of_lt (lt_nodeBound_of_contains (h.contains_source hl)))
  constructor
  · rintro ⟨i, l, hl, htarget, hside, hle⟩
    rcases (link?_refeed_eq_some_iff h hid).mp hl with ⟨hl, -⟩ | ⟨-, -, rfl⟩
    · exact ⟨i, l, hl, htarget, hside, hsource hl ▸ hle⟩
    · exact absurd htarget.symm hj
  · rintro ⟨i, l, hl, htarget, hside, hle⟩
    refine ⟨i, l, (link?_refeed_eq_some_iff h hid).mpr (.inl ⟨hl, ?_⟩), htarget, hside,
      (hsource hl).symm ▸ hle⟩
    rw [htarget]
    exact hj

theorem main_refeed (h : g.WellFormed) (hid : g.contains id = true) {τ : NodeId → UInt8}
    (hτ : 0 < main → τ g.nodeBound = main) :
    ((refeed g id main).powerUnder τ id).main = main := by
  change ((refeed g id main).powerUnder τ id).at false = main
  apply eq_of_forall_le_iff
  intro s hs
  rw [(wellFormed_refeed h).le_powerUnder_iff hs]
  constructor
  · rintro ⟨i, l, hl, htarget, -, hle⟩
    rcases (link?_refeed_eq_some_iff h hid).mp hl with ⟨-, hne⟩ | ⟨hpos, -, rfl⟩
    · exact absurd htarget hne
    · rw [feed, attenuate_zero, hτ hpos] at hle
      exact hle
  · intro hle
    have hpos : 0 < main := UInt8.lt_of_lt_of_le hs hle
    refine ⟨g.linkBound, feed g id, (link?_refeed_eq_some_iff h hid).mpr (.inr ⟨hpos, rfl, rfl⟩),
      rfl, rfl, ?_⟩
    rw [feed, attenuate_zero, hτ hpos]
    exact hle

/-- The target of a link is a node of the circuit before. -/
theorem node?_target_of_refeed (h : g.WellFormed) {i : LinkId} {l : Link} {m : Node}
    (hl : g.link? i = some l) (hm : (refeed g id main).node? l.target = some m) :
    g.node? l.target = some m := by
  obtain ⟨m', hm'⟩ := contains_iff.mp (h.contains_target hl)
  cases (node?_refeed_of_some hm').symm.trans hm
  exact hm'

theorem regular_refeed (h : g.Regular) (hn : g.node? id = some n)
    (hind : n.gate.type.isIndicator = true) (hmain : main ≤ maxStrength) :
    (refeed g id main).Regular where
  wellFormed := wellFormed_refeed h.wellFormed
  nodes := by
    intro j m hm
    rw [node?_refeed] at hm
    split at hm
    case isFalse => exact h.nodes hm
    case isTrue =>
      cases hm
      exact Node.regular_constant hmain
  source_free := by
    intro i l m hl hm
    rcases (link?_refeed_eq_some_iff h.wellFormed (contains_of_node? hn)).mp hl with
      ⟨hl, -⟩ | ⟨-, -, rfl⟩
    · exact h.source_free hl (node?_target_of_refeed h.wellFormed hl hm)
    · cases (node?_refeed_of_some hn).symm.trans hm
      exact GateType.isSource_of_isIndicator hind

theorem unlatched_refeed (h : g.Unlatched) (hwf : g.WellFormed) (hid : g.contains id = true) :
    (refeed g id main).Unlatched where
  unlocked := by
    intro j m hm htype
    rw [node?_refeed] at hm
    split at hm
    case isFalse => exact h.unlocked hm htype
    case isTrue =>
      cases hm
      rfl
  no_side := by
    intro i l m hl hm htype
    rcases (link?_refeed_eq_some_iff hwf hid).mp hl with ⟨hl, -⟩ | ⟨-, -, rfl⟩
    · exact h.no_side hl (node?_target_of_refeed hwf hl hm) htype
    · exact Channel.noConfusion

/-- Balanced strengths stay balanced if the new constant puts out its own. -/
theorem balanced_refeed (h : g.WellFormed) (hn : g.node? id = some n)
    (hind : n.gate.type.isIndicator = true) (hmain : main ≤ maxStrength) {τ τ' : NodeId → UInt8}
    (hpower : (g.powerUnder τ id).main = main) (hτ : g.Balanced τ)
    (hself : τ' g.nodeBound = main) (hother : ∀ j, j ≠ g.nodeBound → τ' j = τ j) :
    (refeed g id main).Balanced τ' := by
  have hid := contains_of_node? hn
  refine ⟨fun {j m} hm => ?_, fun {j m} hm => ?_⟩
  · rw [node?_refeed] at hm
    split at hm
    case isTrue hnew =>
      cases hm
      rw [hnew.1, hself]
      exact (Node.upholds_constant_iff rfl).mpr rfl
    case isFalse =>
      rw [hother j (ne_nodeBound_of_node? hm)]
      by_cases hj : j = id
      · subst hj
        cases hn.symm.trans hm
        -- the indicator has lost its links, and shows what the constant puts out
        rw [Node.upholds_indicator_iff hind, main_refeed h hid (fun _ => hself), ← hpower]
        exact (Node.upholds_indicator_iff hind).mp (hτ.upholds hn)
      · rw [powerUnder_refeed_of_ne h hid hj hother]
        exact hτ.upholds hm
  · rw [node?_refeed] at hm
    split at hm
    case isTrue hnew =>
      rw [hnew.1, hself]
      exact hmain
    case isFalse =>
      rw [hother j (ne_nodeBound_of_node? hm)]
      exact hτ.bounded hm

theorem balanced_of_refeed (h : g.WellFormed) (hn : g.node? id = some n)
    (hind : n.gate.type.isIndicator = true)
    (hpower : ∀ τ, RespectsConstants g τ → (g.powerUnder τ id).main = main)
    {τ : NodeId → UInt8} (hτ : (refeed g id main).Balanced τ) : g.Balanced τ := by
  have hid := contains_of_node? hn
  have hconst : 0 < main → τ g.nodeBound = main := by
    intro hpos
    have hnew : (refeed g id main).node? g.nodeBound = some (.constant main) := by
      rw [node?_refeed, if_pos ⟨rfl, hpos⟩]
    exact ((hτ.upholds hnew).constant rfl).symm
  refine ⟨fun {j m} hm => ?_, fun {j m} hm => hτ.bounded (node?_refeed_of_some hm)⟩
  by_cases hj : j = id
  · subst hj
    cases hn.symm.trans hm
    have hshown := (Node.upholds_indicator_iff hind).mp (hτ.upholds (node?_refeed_of_some hn))
    rw [main_refeed h hid hconst] at hshown
    rw [Node.upholds_indicator_iff hind, hpower τ, hshown]
    exact fun j m hm hc => (hτ.upholds (node?_refeed_of_some hm)).constant hc
  · rw [← powerUnder_refeed_of_ne h hid hj (fun _ _ => rfl)]
    exact hτ.upholds (node?_refeed_of_some hm)

/-- An indicator is fed by a constant of the strength that it shows. -/
theorem refines_refeed (h : g.Regular) (hn : g.node? id = some n)
    (hind : n.gate.type.isIndicator = true) (hmain : main ≤ maxStrength)
    (hpower : ∀ τ, RespectsConstants g τ → (g.powerUnder τ id).main = main) :
    Refines g (refeed g id main) := by
  have hwf := h.wellFormed
  refine ⟨⟨regular_refeed h hn hind hmain,
    fun hun => unlatched_refeed hun hwf (contains_of_node? hn), fun τ hτ => ?_,
    fun _ τ hτ => ⟨τ, balanced_of_refeed hwf hn hind hpower hτ, fun _ _ _ => rfl⟩⟩, lineage_refeed⟩
  let τ' : NodeId → UInt8 := fun j => if j = g.nodeBound then main else τ j
  have hother (j : NodeId) (hj : j ≠ g.nodeBound) : τ' j = τ j := if_neg hj
  refine ⟨τ', balanced_refeed hwf hn hind hmain (hpower τ (respectsConstants_of_balanced hτ)) hτ
    (if_pos rfl) hother, fun j hc _ => ?_⟩
  exact hother j (Nat.ne_of_lt (lt_nodeBound_of_contains hc))

end Refeed

theorem refines_settleNode (h : g.Regular) (hn : g.node? id = some n)
    (hind : n.gate.type.isIndicator = true) : Refines g (settleNode g id) := by
  refine ⟨.modifyNode h hn ?_ rfl ?_ ?_, .modifyNode g id fun m _ => ⟨rfl, rfl, rfl, .inl rfl⟩⟩
  · have hreg := h.nodes hn
    refine ⟨hreg.defined, hreg.farInput_le, fun hconst => ?_, fun htype => ?_,
      hreg.output_indicator⟩
    · simp only [Gate.isConstant, beq_iff_eq] at hconst
      rw [hconst] at hind
      cases hind
    · rw [htype] at hind
      cases hind
  · intro htype
    rw [htype] at hind
    cases hind
  · intro p s
    rw [Node.upholds_indicator_iff hind]
    exact Node.upholds_indicator_iff hind

/-- Settling a node keeps the power at it. -/
theorem powerUnder_settleNode (h : g.WellFormed) (τ : NodeId → UInt8) :
    (settleNode g id).powerUnder τ id = g.powerUnder τ id :=
  powerUnder_congr (h.modifyNode id _) h fun _ _ _ => Iff.rfl

theorem node?_settleNode (hn : g.node? id = some n) (j : NodeId) :
    (settleNode g id).node? j =
      if id = j then some { n with state := n.gate.settle n.state (g.inputPower id) }
      else g.node? j := by
  unfold settleNode
  rw [node?_modifyNode]
  split
  case isTrue hj =>
    rw [← hj, hn]
    rfl
  case isFalse => rfl

theorem refines_settleOutput (h : g.Regular) (id : NodeId) :
    Refines g (settleOutput id g).circuit := by
  have hsettled {n : Node} (hfed : FedOutput g id n) : Refines g (settleNode g id) :=
    refines_settleNode h hfed.node ((h.nodes hfed.node).output_indicator hfed.isOutput)
  refine settleOutput_keeps (P := Refines g) hsettled (fun {n} hfed hsettled => ?_) (.refl h)
  have hind := (h.nodes hfed.node).output_indicator hfed.isOutput
  have hn' := (node?_settleNode hfed.node id).trans (if_pos rfl)
  refine hsettled.trans
    (refines_refeed hsettled.regular hn' hind (inputPower_le h hfed.constant) fun τ hτ => ?_)
  rw [powerUnder_settleNode h.wellFormed, powerUnder_eq_inputPower h.wellFormed hfed.constant]
  intro j m hm hconst
  refine hτ j m ?_ hconst
  rw [node?_settleNode hfed.node, if_neg, hm]
  -- the output is no constant
  rintro rfl
  cases hfed.node.symm.trans hm
  simp only [Gate.isConstant, beq_iff_eq] at hconst
  rw [hconst] at hind
  cases hind

theorem refines_settleOutputs (h : g.Regular) : Refines g (settleOutputs g).circuit :=
  .sweep (fun id _ hg => refines_settleOutput hg id) h

end Optimize

end Redstone
