import Redstone.Proofs.Circuit.Balance

/-!
# Refinement by single edits

The edits that the passes are made of, each with the reason why it may be made: links may be
changed if the power stays the same everywhere, a node that feeds nothing may go, and a
constant may come.
-/

namespace Redstone.Circuit

variable {g g' : Circuit}

/-! ## Regularity after edits of links -/

/-- Every link of `g'` ends where some link of `g` ends, at the same input. -/
def EndsWithin (g g' : Circuit) : Prop :=
  ∀ {i l}, g'.link? i = some l →
    ∃ j m, g.link? j = some m ∧ m.target = l.target ∧ m.channel = l.channel

theorem Regular.of_links (h : g.Regular) (hwf : g'.WellFormed)
    (hnode : ∀ id, g'.node? id = g.node? id) (hends : EndsWithin g g') : g'.Regular where
  wellFormed := hwf
  nodes := by
    intro id n hn
    rw [hnode] at hn
    exact h.nodes hn
  source_free := by
    intro i l n hl hn
    obtain ⟨j, m, hm, htarget, -⟩ := hends hl
    rw [hnode, ← htarget] at hn
    exact h.source_free hm hn

theorem Unlatched.of_links (h : g.Unlatched) (hnode : ∀ id, g'.node? id = g.node? id)
    (hends : EndsWithin g g') : g'.Unlatched where
  unlocked := by
    intro id n hn
    rw [hnode] at hn
    exact h.unlocked hn
  no_side := by
    intro i l n hl hn htype
    obtain ⟨j, m, hm, htarget, hchannel⟩ := hends hl
    rw [hnode, ← htarget] at hn
    rw [← hchannel]
    exact h.no_side hm hn htype

theorem endsWithin_removeLinks (ids : List LinkId) : EndsWithin g (g.removeLinks ids) := by
  intro i l hl
  rw [link?_removeLinks] at hl
  split at hl
  · cases hl
  · exact ⟨i, l, hl, rfl, rfl⟩

theorem endsWithin_setSource (i : LinkId) (source : NodeId) :
    EndsWithin g (g.setSource i source) := by
  intro j l hl
  by_cases hs : g.contains source = true
  · rw [link?_setSource hs] at hl
    split at hl
    · obtain ⟨m, hm, rfl⟩ := Option.map_eq_some_iff.mp hl
      exact ⟨j, m, hm, rfl, rfl⟩
    · exact ⟨j, l, hl, rfl, rfl⟩
  · rw [setSource_of_stay (fun _ _ h => absurd h hs)] at hl
    exact ⟨j, l, hl, rfl, rfl⟩

/-! ## Refinement -/

namespace Refines

/-- The circuits have the same balanced strengths. -/
theorem of_balanced (hlineage : Lineage g g') (hregular : g'.Regular)
    (hunlatched : g.Unlatched → g'.Unlatched)
    (hforward : ∀ τ, g.Balanced τ → g'.Balanced τ)
    (hbackward : g.Unlatched → ∀ τ, g'.Balanced τ → g.Balanced τ) : Refines g g' where
  lineage := hlineage
  regular := hregular
  unlatched := hunlatched
  forward := fun τ hτ => ⟨τ, hforward τ hτ, fun _ _ _ => rfl⟩
  backward := fun hun τ hτ => ⟨τ, hbackward hun τ hτ, fun _ _ _ => rfl⟩

/-- Links are changed, and all nodes keep their power under all strengths that are balanced
before or after the change. -/
theorem of_power (h : g.Regular) (hwf : g'.WellFormed) (hbound : g'.nodeBound = g.nodeBound)
    (hnode : ∀ id, g'.node? id = g.node? id) (hends : EndsWithin g g')
    (hpower : ∀ τ, g.Balanced τ ∨ g'.Balanced τ →
      ∀ id, g.contains id = true → g'.powerUnder τ id = g.powerUnder τ id) : Refines g g' := by
  refine of_balanced (.of_node?_eq hbound hnode) (h.of_links hwf hnode hends)
    (fun hun => hun.of_links hnode hends) ?_ ?_
  · intro τ hτ
    refine ⟨fun {id n} hn => ?_, fun {id n} hn => ?_⟩
    · rw [hnode] at hn
      rw [hpower τ (.inl hτ) id (contains_of_node? hn)]
      exact hτ.upholds hn
    · rw [hnode] at hn
      exact hτ.bounded hn
  · intro _ τ hτ
    refine ⟨fun {id n} hn => ?_, fun {id n} hn => ?_⟩
    · rw [← hpower τ (.inr hτ) id (contains_of_node? hn)]
      exact hτ.upholds ((hnode id).trans hn)
    · exact hτ.bounded ((hnode id).trans hn)

/-- Removing links keeps the power if each of them is no stronger than a link that stays, or
brings nothing at all. -/
theorem removeLinks (h : g.Regular) (ids : List LinkId)
    (hpower : ∀ τ, g.Balanced τ ∨ (g.removeLinks ids).Balanced τ →
      ∀ id, g.contains id = true → (g.removeLinks ids).powerUnder τ id = g.powerUnder τ id) :
    Refines g (g.removeLinks ids) :=
  of_power h (h.wellFormed.removeLinks ids) (nodeBound_removeLinks ids) (node?_removeLinks ids)
    (endsWithin_removeLinks ids) hpower

/-- A link may go if another one brings at least as much to the same input. -/
theorem removeLink (h : g.Regular) {i j : LinkId} {l m : Link} (hl : g.link? i = some l)
    (hm : g.link? j = some m) (hne : i ≠ j) (htarget : m.target = l.target)
    (hchannel : m.channel = l.channel)
    (hle : ∀ τ, g.Balanced τ ∨ (g.removeLink i).Balanced τ →
      attenuate (τ l.source) l.loss ≤ attenuate (τ m.source) m.loss) :
    Refines g (g.removeLink i) := by
  refine removeLinks h [i] fun τ hτ id _ => ?_
  exact h.wellFormed.powerUnder_removeLink hl hm hne htarget hchannel (hle τ hτ) id

/-- A link may start at another node that always puts out the same strength. -/
theorem setSource (h : g.Regular) {i : LinkId} {source : NodeId}
    (hcontains : g.contains source = true)
    (hsame : ∀ l, g.link? i = some l → ∀ τ, g.Balanced τ ∨ (g.setSource i source).Balanced τ →
      τ source = τ l.source) : Refines g (g.setSource i source) := by
  have hwf := h.wellFormed
  refine of_power h (hwf.setSource i source) (nodeBound_setSource i source)
    (node?_setSource i source) (endsWithin_setSource i source) fun τ hτ id _ => ?_
  exact hwf.powerUnder_setSource hcontains (fun l hl => hsame l hl τ hτ) id

theorem powerUnder_removeNode (hwf : g.WellFormed) {id j : NodeId} (hne : j ≠ id)
    (hsink : ∀ i l, g.link? i = some l → l.source ≠ id) {τ τ' : NodeId → UInt8}
    (hτ : ∀ k, k ≠ id → τ' k = τ k) :
    (g.removeNode id).powerUnder τ' j = g.powerUnder τ j := by
  apply powerUnder_congr (hwf.removeNode id) hwf
  intro side s _
  constructor
  · rintro ⟨i, l, hl, htarget, hside, hle⟩
    obtain ⟨hl, hsource, -⟩ := hwf.link?_removeNode_eq_some_iff.mp hl
    exact ⟨i, l, hl, htarget, hside, hτ _ hsource ▸ hle⟩
  · rintro ⟨i, l, hl, htarget, hside, hle⟩
    have hsource := hsink i l hl
    refine ⟨i, l, ?_, htarget, hside, (hτ _ hsource).symm ▸ hle⟩
    exact hwf.link?_removeNode_eq_some_iff.mpr ⟨hl, hsource, htarget ▸ hne⟩

theorem regular_removeNode (h : g.Regular) (id : NodeId) : (g.removeNode id).Regular where
  wellFormed := h.wellFormed.removeNode id
  nodes := fun hn => h.nodes (node?_removeNode_eq_some_iff.mp hn).2
  source_free := fun hl hn =>
    h.source_free (h.wellFormed.link?_removeNode_eq_some_iff.mp hl).1
      (node?_removeNode_eq_some_iff.mp hn).2

theorem unlatched_removeNode (h : g.Unlatched) (hwf : g.WellFormed) (id : NodeId) :
    (g.removeNode id).Unlatched where
  unlocked := fun hn => h.unlocked (node?_removeNode_eq_some_iff.mp hn).2
  no_side := fun hl hn =>
    h.no_side (hwf.link?_removeNode_eq_some_iff.mp hl).1 (node?_removeNode_eq_some_iff.mp hn).2

/-- A node that feeds nothing and has no role is removed.  On the way back, it responds to the
power that it had. -/
theorem removeNode (h : g.Regular) {id : NodeId} {n : Node} (hn : g.node? id = some n)
    (hrole : n.isRemovable = true) (hsink : ∀ i l, g.link? i = some l → l.source ≠ id) :
    Refines g (g.removeNode id) := by
  have hwf := h.wellFormed
  refine ⟨⟨regular_removeNode h id, fun hun => unlatched_removeNode hun hwf id, ?_, ?_⟩, ?_⟩
  · intro τ hτ
    refine ⟨τ, ⟨fun {j m} hm => ?_, fun {j m} hm => ?_⟩, fun _ _ _ => rfl⟩
    · obtain ⟨hne, hm⟩ := node?_removeNode_eq_some_iff.mp hm
      rw [powerUnder_removeNode hwf hne.symm hsink (fun _ _ => rfl)]
      exact hτ.upholds hm
    · exact hτ.bounded (node?_removeNode_eq_some_iff.mp hm).2
  · intro hun τ' hτ'
    -- the node that comes back feeds nothing, so that its strength may be chosen freely
    let τ : NodeId → UInt8 := fun j => if j = id then n.response (g.powerUnder τ' id) else τ' j
    have hother (j : NodeId) (hj : j ≠ id) : τ j = τ' j := if_neg hj
    have hself : τ id = n.response (g.powerUnder τ' id) := if_pos rfl
    have hstay {j : NodeId} {m : Node} (hj : j ≠ id) (hm : g.node? j = some m) :
        (g.removeNode id).node? j = some m :=
      node?_removeNode_eq_some_iff.mpr ⟨Ne.symm hj, hm⟩
    have hpowerSelf : g.powerUnder τ id = g.powerUnder τ' id :=
      powerUnder_congr_strength hwf fun i l hl _ => hother _ (hsink i l hl)
    have hsource : ∀ i l, g.link? i = some l → l.target = id → τ' l.source ≤ maxStrength := by
      intro i l hl _
      obtain ⟨m, hm⟩ := contains_iff.mp (hwf.contains_source hl)
      exact hτ'.bounded (hstay (hsink i l hl) hm)
    refine ⟨τ, ⟨fun {j m} hm => ?_, fun {j m} hm => ?_⟩, fun j _ hc => ?_⟩
    · by_cases hj : j = id
      · subst hj
        rw [hn] at hm
        cases hm
        rw [hpowerSelf, hself]
        exact Node.upholds_response (fun ht => hun.unlocked hn ht)
          (fun ht => hun.side_eq_zero hwf hn ht _)
      · rw [hother j hj, ← powerUnder_removeNode hwf hj hsink (fun k hk => (hother k hk).symm)]
        exact hτ'.upholds (hstay hj hm)
    · by_cases hj : j = id
      · subst hj
        rw [hn] at hm
        cases hm
        rw [hself]
        exact (h.nodes hn).response_le (hwf.powerUnder_le hsource false)
      · rw [hother j hj]
        exact hτ'.bounded (hstay hj hm)
    · rw [contains_removeNode] at hc
      have hj : j ≠ id := by
        rintro rfl
        simp at hc
      exact (hother j hj).symm
  · refine .removeNode g fun m hm => ?_
    rw [hn] at hm
    cases hm
    exact hrole


/-! ## Adding a constant -/

theorem powerUnder_addNode (hwf : g.WellFormed) (n : Node) {τ τ' : NodeId → UInt8}
    (hτ : ∀ k, k ≠ g.nodeBound → τ' k = τ k) (j : NodeId) :
    (g.addNode n).powerUnder τ' j = g.powerUnder τ j := by
  apply powerUnder_congr (hwf.addNode n) hwf
  intro side s _
  have hsource {i : LinkId} {l : Link} (hl : g.link? i = some l) : τ' l.source = τ l.source :=
    hτ _ (Nat.ne_of_lt (lt_nodeBound_of_contains (hwf.contains_source hl)))
  constructor
  · rintro ⟨i, l, hl, htarget, hside, hle⟩
    exact ⟨i, l, hl, htarget, hside, hsource hl ▸ hle⟩
  · rintro ⟨i, l, hl, htarget, hside, hle⟩
    exact ⟨i, l, hl, htarget, hside, (hsource hl).symm ▸ hle⟩

theorem regular_addNode (h : g.Regular) {n : Node} (hreg : n.Regular) : (g.addNode n).Regular where
  wellFormed := h.wellFormed.addNode n
  nodes := by
    intro id m hm
    rw [node?_addNode] at hm
    split at hm
    · cases hm
      exact hreg
    · exact h.nodes hm
  source_free := by
    intro i l m hl hm
    rw [link?_addNode] at hl
    rw [node?_addNode, if_neg] at hm
    · exact h.source_free hl hm
    · exact Nat.ne_of_lt (lt_nodeBound_of_contains (h.wellFormed.contains_target hl))

theorem unlatched_addNode (h : g.Unlatched) (hwf : g.WellFormed) {n : Node}
    (hlocked : n.gate.type = .repeater → n.state.locked = false) : (g.addNode n).Unlatched where
  unlocked := by
    intro id m hm
    rw [node?_addNode] at hm
    split at hm
    · cases hm
      exact hlocked
    · exact h.unlocked hm
  no_side := by
    intro i l m hl hm
    rw [link?_addNode] at hl
    rw [node?_addNode, if_neg] at hm
    · exact h.no_side hl hm
    · exact Nat.ne_of_lt (lt_nodeBound_of_contains (hwf.contains_target hl))

/-- A new constant feeds nothing yet and puts out its strength. -/
theorem addConstant (h : g.Regular) {s : UInt8} (hs : s ≤ maxStrength) :
    Refines g (g.addNode (.constant s)) := by
  have hwf := h.wellFormed
  refine ⟨⟨?_, ?_, ?_, ?_⟩, .addNode g rfl rfl⟩
  · exact regular_addNode h (Node.regular_constant hs)
  · exact fun hun => unlatched_addNode hun hwf fun _ => rfl
  · intro τ hτ
    let τ' : NodeId → UInt8 := fun j => if j = g.nodeBound then s else τ j
    have hother (j : NodeId) (hj : j ≠ g.nodeBound) : τ' j = τ j := if_neg hj
    have hself : τ' g.nodeBound = s := if_pos rfl
    refine ⟨τ', ⟨fun {id n} hn => ?_, fun {id n} hn => ?_⟩, fun id hc _ => ?_⟩
    · rw [powerUnder_addNode hwf _ hother]
      rw [node?_addNode] at hn
      split at hn
      case isTrue hid =>
        cases hn
        rw [hid, hself]
        exact (Node.upholds_constant_iff rfl).mpr rfl
      case isFalse hid =>
        rw [hother id hid]
        exact hτ.upholds hn
    · rw [node?_addNode] at hn
      split at hn
      case isTrue hid =>
        rw [hid, hself]
        exact hs
      case isFalse hid =>
        rw [hother id hid]
        exact hτ.bounded hn
    · exact hother id (Nat.ne_of_lt (lt_nodeBound_of_contains hc))
  · intro _ τ hτ
    refine ⟨τ, ⟨fun {id n} hn => ?_, fun {id n} hn => ?_⟩, fun _ _ _ => rfl⟩
    · rw [← powerUnder_addNode hwf (.constant s) (fun _ _ => rfl)]
      exact hτ.upholds (node?_addNode_of_node? hn _)
    · exact hτ.bounded (node?_addNode_of_node? hn (.constant s))

end Refines

/-! ## Changing a node in its place -/

/-- A node is changed into one of the same gate that upholds the same strengths. -/
theorem Simulates.modifyNode (h : g.Regular) {id : NodeId} {n : Node} {f : Node → Node}
    (hn : g.node? id = some n) (hregular : (f n).Regular) (hgate : (f n).gate = n.gate)
    (hlocked : n.gate.type = .repeater → (f n).state.locked = n.state.locked)
    (hupholds : ∀ p s, (f n).Upholds p s ↔ n.Upholds p s) : Simulates g (g.modifyNode id f) := by
  have hwf := h.wellFormed
  -- every node of the changed circuit comes from one that it resembles in all that counts
  have hback {j : NodeId} {m' : Node} (hm' : (g.modifyNode id f).node? j = some m') :
      ∃ m, g.node? j = some m ∧ m'.gate = m.gate ∧
        (m.gate.type = .repeater → m'.state.locked = m.state.locked) ∧ (m.Regular → m'.Regular) ∧
        ∀ p s, m'.Upholds p s ↔ m.Upholds p s := by
    rw [node?_modifyNode] at hm'
    split at hm'
    case isTrue hid =>
      subst hid
      rw [hn] at hm'
      cases hm'
      exact ⟨n, hn, hgate, hlocked, fun _ => hregular, hupholds⟩
    case isFalse =>
      exact ⟨m', hm', rfl, fun _ => rfl, fun h => h, fun _ _ => Iff.rfl⟩
  have hpower (τ : NodeId → UInt8) (j : NodeId) :
      (g.modifyNode id f).powerUnder τ j = g.powerUnder τ j :=
    powerUnder_congr (hwf.modifyNode id f) hwf fun _ _ _ => Iff.rfl
  have hcontains {j : NodeId} {m : Node} (hm : g.node? j = some m) :
      ∃ m', (g.modifyNode id f).node? j = some m' := by
    rw [← contains_iff, contains_modifyNode]
    exact contains_of_node? hm
  refine ⟨⟨hwf.modifyNode id f, fun hm' => ?_, fun hl hm' => ?_⟩,
    fun hun => ⟨fun hm' htype => ?_, fun hl hm' htype => ?_⟩, fun τ hτ => ?_, fun _ τ hτ => ?_⟩
  · obtain ⟨m, hm, -, -, hreg, -⟩ := hback hm'
    exact hreg (h.nodes hm)
  · obtain ⟨m, hm, hg, -⟩ := hback hm'
    rw [hg]
    exact h.source_free hl hm
  · obtain ⟨m, hm, hg, hlock, -⟩ := hback hm'
    rw [hg] at htype
    rw [hlock htype]
    exact hun.unlocked hm htype
  · obtain ⟨m, hm, hg, -⟩ := hback hm'
    rw [hg] at htype
    exact hun.no_side hl hm htype
  · refine ⟨τ, ⟨fun hm' => ?_, fun hm' => ?_⟩, fun _ _ _ => rfl⟩
    · obtain ⟨m, hm, -, -, -, hup⟩ := hback hm'
      rw [hup, hpower]
      exact hτ.upholds hm
    · obtain ⟨m, hm, -⟩ := hback hm'
      exact hτ.bounded hm
  · refine ⟨τ, ⟨fun {j m} hm => ?_, fun {j m} hm => ?_⟩, fun _ _ _ => rfl⟩
    · obtain ⟨m', hm'⟩ := hcontains hm
      obtain ⟨m₀, hm₀, -, -, -, hup⟩ := hback hm'
      rw [hm] at hm₀
      cases hm₀
      rw [← hup, ← hpower]
      exact hτ.upholds hm'
    · obtain ⟨m', hm'⟩ := hcontains hm
      exact hτ.bounded hm'

end Redstone.Circuit
