import Redstone.Proofs.Optimize.Size

/-!
# Merging as a quotient

A merge takes one node away and lets another one stand for it.  Merges one after the other make up
a map from the nodes of a circuit onto those that survive.  It keeps gates, it collects the blocks
of the nodes that fall together, and it keeps the power at the survivors as long as nodes that
fall together put out the same.  This holds whether or not parallel links have been removed before.
-/

namespace Redstone.Optimize

open Circuit

variable {g g' : Circuit}

/-! ## Quotients of circuits -/

/-- The nodes of `g` fall together along `r`, and `g'` is what survives. -/
structure MergesBy (r : NodeId → NodeId) (g g' : Circuit) : Prop where
  wellFormed : g'.WellFormed
  within : ∀ {id}, g'.contains id = true → g.contains id = true
  maps : ∀ {id}, g.contains id = true → g'.contains (r id) = true
  fixes : ∀ {id}, g'.contains id = true → r id = id
  gate_eq : ∀ {id n n'}, g.node? id = some n → g'.node? (r id) = some n' → n'.gate = n.gate
  kept : ∀ {id n n'}, g.node? id = some n → g'.node? id = some n' →
    n' = { n with blocks := n'.blocks }
  removed : ∀ {id n}, g.node? id = some n → g'.contains id = false →
    n.isRemovable = true ∧ n.gate.isComparator = false
  blocks : ∀ {id}, g'.contains id = true →
    (g'.blocksAt id).Perm ((g.nodeIds.filter fun j => r j = id).flatMap g.blocksAt)
  power : ∀ {σ : NodeId → UInt8}, (∀ {j k}, g.contains j = true → g.contains k = true →
    r j = r k → σ j = σ k) → ∀ {id}, g'.contains id = true →
    g'.powerUnder σ id = g.powerUnder σ id

/-- The classes of nodes that fall together, one after the other, make up all that fall into any
of them. -/
theorem flatMap_fibres_perm {ys xs : List NodeId} (hys : ys.Nodup) (hxs : xs.Nodup)
    {r : NodeId → NodeId} (hmem : ∀ x ∈ xs, r x ∈ ys) (p : NodeId → Bool)
    (f : NodeId → List BlockRef) :
    ((ys.filter p).flatMap fun y => (xs.filter fun x => r x = y).flatMap f).Perm
      ((xs.filter fun x => p (r x)).flatMap f) := by
  rw [← List.flatMap_assoc]
  refine List.Perm.flatMap_right f ((List.perm_ext_iff_of_nodup ?_ (hxs.filter _)).mpr fun x => ?_)
  · refine List.nodup_flatMap.mpr ⟨fun y _ => hxs.filter _, (hys.filter _).imp fun hne x hx hx' => ?_⟩
    exact hne ((of_decide_eq_true (List.mem_filter.mp hx).2).symm.trans
      (of_decide_eq_true (List.mem_filter.mp hx').2))
  · simp only [List.mem_flatMap, List.mem_filter, decide_eq_true_eq]
    constructor
    · rintro ⟨y, ⟨-, hy⟩, hx, rfl⟩
      exact ⟨hx, hy⟩
    · rintro ⟨hx, hy⟩
      exact ⟨r x, ⟨hmem x hx, hy⟩, hx, rfl⟩

theorem fibre_singleton {id : NodeId} (hc : g.contains id = true) :
    (g.nodeIds.filter fun j => j = id).Perm [id] := by
  refine (List.perm_ext_iff_of_nodup (g.nodeIds_nodup.filter _) (List.nodup_singleton id)).mpr
    fun j => ?_
  rw [List.mem_filter, mem_nodeIds, decide_eq_true_eq, List.mem_singleton]
  exact ⟨fun h => h.2, fun h => ⟨h ▸ hc, h⟩⟩

namespace MergesBy

theorem refl (h : g.WellFormed) : MergesBy id g g where
  wellFormed := h
  within := fun hc => hc
  maps := fun hc => hc
  fixes := fun _ => rfl
  gate_eq := by
    intro id n n' hn hn'
    rw [id_eq, hn] at hn'
    cases hn'
    rfl
  kept := by
    intro id n n' hn hn'
    rw [hn] at hn'
    cases hn'
    rfl
  removed := by
    intro id n hn hc
    rw [contains_of_node? hn] at hc
    cases hc
  blocks := by
    intro id hc
    refine List.Perm.trans ?_ ((fibre_singleton hc).flatMap_right g.blocksAt).symm
    rw [List.flatMap_singleton]
  power := fun _ _ _ => rfl

/-- The blocks of some survivors are those of all nodes that have fallen together with them. -/
theorem flatMap_blocksAt {r : NodeId → NodeId} (h : MergesBy r g g') (p : NodeId → Bool) :
    ((g'.nodeIds.filter p).flatMap g'.blocksAt).Perm
      ((g.nodeIds.filter fun j => p (r j)).flatMap g.blocksAt) := by
  refine List.Perm.trans (.flatMap_left _ fun j hj => ?_)
    (flatMap_fibres_perm g'.nodeIds_nodup g.nodeIds_nodup (fun j hj => ?_) p g.blocksAt)
  · exact h.blocks (mem_nodeIds.mp (List.mem_filter.mp hj).1)
  · exact mem_nodeIds.mpr (h.maps (mem_nodeIds.mp hj))

/-- No block is lost, and none is doubled. -/
theorem allBlocks_perm {r : NodeId → NodeId} (h : MergesBy r g g') :
    g'.allBlocks.Perm g.allBlocks := by
  have hperm := h.flatMap_blocksAt fun _ => true
  rw [List.filter_true, List.filter_true] at hperm
  exact hperm

/-- Quotients one after the other. -/
theorem trans {g₁ g₂ g₃ : Circuit} {r r' : NodeId → NodeId} (h : MergesBy r g₁ g₂)
    (h' : MergesBy r' g₂ g₃) : MergesBy (r' ∘ r) g₁ g₃ where
  wellFormed := h'.wellFormed
  within := fun hc => h.within (h'.within hc)
  maps := fun hc => h'.maps (h.maps hc)
  fixes := by
    intro id hc
    rw [Function.comp_apply, h.fixes (h'.within hc), h'.fixes hc]
  gate_eq := by
    intro id n₁ n₃ hn₁ hn₃
    obtain ⟨n₂, hn₂⟩ := contains_iff.mp (h.maps (contains_of_node? hn₁))
    exact (h'.gate_eq hn₂ hn₃).trans (h.gate_eq hn₁ hn₂)
  kept := by
    intro id n₁ n₃ hn₁ hn₃
    obtain ⟨n₂, hn₂⟩ := contains_iff.mp (h'.within (contains_of_node? hn₃))
    rw [h'.kept hn₂ hn₃, h.kept hn₁ hn₂]
  removed := by
    intro id n₁ hn₁ hc
    cases hc₂ : g₂.contains id with
    | false => exact h.removed hn₁ hc₂
    | true =>
        -- removed later, it is still the node that it was
        obtain ⟨n₂, hn₂⟩ := contains_iff.mp hc₂
        have hremoved := h'.removed hn₂ hc
        rw [h.kept hn₁ hn₂] at hremoved
        exact hremoved
  blocks := by
    intro id hc
    exact (h'.blocks hc).trans (h.flatMap_blocksAt fun j => r' j = id)
  power := by
    intro σ hσ id hc
    have hσ₂ {j k : NodeId} (hj : g₂.contains j = true) (hk : g₂.contains k = true)
        (hjk : r' j = r' k) : σ j = σ k := by
      refine hσ (h.within hj) (h.within hk) ?_
      rw [Function.comp_apply, Function.comp_apply, h.fixes hj, h.fixes hk, hjk]
    rw [h'.power hσ₂ hc]
    exact h.power (fun hj hk hjk => hσ hj hk (congrArg r' hjk)) (h'.within hc)

end MergesBy

/-! ## Handing over links -/

section TakeOver

variable {into : NodeId} {i : LinkId} {l : Link}

/-- Under strengths that do not tell the two nodes apart, taking over a link makes no difference:
the link that goes, if any, is outdone by the one that stays. -/
theorem powerUnder_takeOver (h : g.WellFormed) (hc : g.contains into = true)
    (hl : g.link? i = some l) (hne : l.source ≠ into) {σ : NodeId → UInt8}
    (hσ : σ into = σ l.source) (id : NodeId) :
    (takeOver into g i).powerUnder σ id = g.powerUnder σ id := by
  have hother {j : LinkId} {o : Link} (ho : g.link? j = some o) (hsource : o.source = into) :
      i ≠ j := by
    rintro rfl
    rw [hl] at ho
    cases ho
    exact hne hsource
  rcases takeOver_cases h into hl with
    ⟨-, heq⟩ | ⟨j, o, ho, hsource, htarget, hchannel, ⟨hle, heq⟩ | ⟨hlt, heq⟩⟩
  · rw [heq]
    refine h.powerUnder_setSource hc (fun m hm => ?_) id
    rw [hl] at hm
    cases hm
    exact hσ
  · rw [heq]
    refine h.powerUnder_removeLink hl ho (hother ho hsource) htarget hchannel ?_ id
    rw [hsource, hσ]
    exact attenuate_mono (UInt8.le_refl _) hle
  · -- the link of the other node goes, and then the one at hand moves
    have hstays : (g.removeLink j).link? i = some l := by
      rw [link?_removeLink, if_neg (hother ho hsource).symm, hl]
    rw [heq, (h.removeLink j).powerUnder_setSource ((contains_removeLink j into).trans hc)
      (fun m hm => ?_) id]
    · refine h.powerUnder_removeLink ho hl (hother ho hsource).symm htarget.symm hchannel.symm ?_ id
      rw [hsource, hσ]
      exact attenuate_mono (UInt8.le_refl _) (UInt8.le_of_lt hlt)
    · rw [hstays] at hm
      cases hm
      exact hσ

end TakeOver

/-- So does handing over all links. -/
theorem HandsOver.powerUnder_foldl {twin into : NodeId} {rest : List LinkId}
    (h : HandsOver g twin into rest g') (hc : g.contains into = true) (hne : twin ≠ into)
    (hnodup : rest.Nodup) {σ : NodeId → UInt8} (hσ : σ into = σ twin) (id : NodeId) :
    (rest.foldl (Optimize.takeOver into) g').powerUnder σ id = g'.powerUnder σ id := by
  induction rest generalizing g' with
  | nil => rfl
  | cons i rest ih =>
      obtain ⟨l, hl, hstart⟩ := h.pending i List.mem_cons_self
      rw [List.foldl_cons, ih (h.takeOver hc hne hnodup) (List.nodup_cons.mp hnodup).2]
      exact powerUnder_takeOver h.wellFormed ((h.contains_eq into).trans hc) hl (hstart ▸ hne)
        (hstart ▸ hσ) id

/-! ## A single merge -/

/-- The map of a single merge. -/
def standIn (twin into id : NodeId) : NodeId :=
  if id = twin then into else id

section Merge

variable {twin into : NodeId} {n m : Node}

theorem contains_merge_iff (hn : g.node? twin = some n) (hm : g.node? into = some m)
    (hne : twin ≠ into) {id : NodeId} :
    (merge g twin into).contains id = true ↔ g.contains id = true ∧ twin ≠ id := by
  rw [contains_iff, contains_iff, node?_merge hn hm]
  by_cases htwin : twin = id
  · simp [htwin]
  · by_cases hinto : into = id
    · simp [← hinto, hm, hne]
    · simp [htwin, hinto]

/-- As long as the two nodes put out the same, all others have the power that they had. -/
theorem powerUnder_merge (h : g.WellFormed) (hn : g.node? twin = some n)
    (hm : g.node? into = some m) (hne : twin ≠ into) {σ : NodeId → UInt8} (hσ : σ into = σ twin)
    {id : NodeId} (hid : id ≠ twin) :
    (merge g twin into).powerUnder σ id = g.powerUnder σ id := by
  have hstart : HandsOver g twin into (g.outputs twin) g := .start h
  have hhands := hstart.foldl_takeOver (contains_of_node? hm) hne (h.outputs_nodup twin)
  have hwf := hhands.wellFormed.modifyNode into fun m => { m with blocks := m.blocks ++ n.blocks }
  rw [merge_eq hn, Refines.powerUnder_removeNode hwf hid (fun _ _ hl => hhands.source_ne hl)
    (fun _ _ => rfl), ← hstart.powerUnder_foldl (contains_of_node? hm) hne (h.outputs_nodup twin) hσ]
  exact powerUnder_congr hwf hhands.wellFormed fun _ _ _ => Iff.rfl

/-- A survivor stands for itself, and one of them for the other node, too. -/
theorem fibre_standIn (hn : g.node? twin = some n) (hne : twin ≠ into) {id : NodeId}
    (hid : g.contains id = true) (hother : twin ≠ id) :
    (g.nodeIds.filter fun j => standIn twin into j = id).Perm
      (if into = id then [into, twin] else [id]) := by
  have hnodup : (if into = id then [into, twin] else [id]).Nodup := by
    split
    · simp [hne.symm]
    · simp
  refine (List.perm_ext_iff_of_nodup (g.nodeIds_nodup.filter _) hnodup).mpr fun j => ?_
  rw [List.mem_filter, mem_nodeIds, decide_eq_true_eq, standIn]
  by_cases hj : j = twin
  · subst hj
    rw [if_pos rfl, and_iff_right (contains_of_node? hn)]
    split
    case isTrue hinto => simp [hinto]
    case isFalse hinto => simp [hinto, hother]
  · rw [if_neg hj]
    split
    case isTrue hinto =>
      subst hinto
      simp only [List.mem_cons, List.not_mem_nil, or_false, hj]
      exact ⟨fun h => h.2, fun h => ⟨h ▸ hid, h⟩⟩
    case isFalse =>
      rw [List.mem_singleton]
      exact ⟨fun h => h.2, fun h => ⟨h ▸ hid, h⟩⟩

theorem blocksAt_merge (hn : g.node? twin = some n) (hm : g.node? into = some m)
    (hne : twin ≠ into) {id : NodeId} (hid : g.contains id = true) (hother : twin ≠ id) :
    ((merge g twin into).blocksAt id).Perm
      ((g.nodeIds.filter fun j => standIn twin into j = id).flatMap g.blocksAt) := by
  refine List.Perm.trans ?_ ((fibre_standIn hn hne hid hother).flatMap_right g.blocksAt).symm
  rw [blocksAt, node?_merge hn hm, if_neg hother]
  split
  case isTrue => simp [blocksAt, hn, hm]
  case isFalse => simp [blocksAt]

theorem mergesBy_merge (h : g.WellFormed) (hn : g.node? twin = some n)
    (hm : g.node? into = some m) (hne : twin ≠ into) (hgate : n.gate = m.gate)
    (hrole : n.isRemovable = true) (hcomparator : n.gate.isComparator = false) :
    MergesBy (standIn twin into) g (merge g twin into) where
  wellFormed := wellFormed_merge h twin into
  within := fun hc => ((contains_merge_iff hn hm hne).mp hc).1
  maps := by
    intro id hc
    rw [contains_merge_iff hn hm hne]
    unfold standIn
    split
    · exact ⟨contains_of_node? hm, hne⟩
    case isFalse hid => exact ⟨hc, fun heq => hid heq.symm⟩
  fixes := fun hc => if_neg ((contains_merge_iff hn hm hne).mp hc).2.symm
  gate_eq := by
    intro id k k' hk hk'
    unfold standIn at hk'
    rw [node?_merge hn hm] at hk'
    -- the twin falls together with the other node, whose gate is the same
    by_cases hid : id = twin
    · rw [if_pos hid, if_neg hne, if_pos rfl] at hk'
      rw [hid, hn] at hk
      cases hk
      cases hk'
      exact hgate.symm
    · rw [if_neg hid, if_neg (Ne.symm hid)] at hk'
      split at hk'
      case isTrue hinto =>
        rw [← hinto, hm] at hk
        cases hk
        cases hk'
        rfl
      case isFalse =>
        rw [hk] at hk'
        cases hk'
        rfl
  kept := by
    intro id k k' hk hk'
    rw [node?_merge hn hm] at hk'
    split at hk'
    · cases hk'
    split at hk'
    case isTrue hinto =>
      rw [← hinto, hm] at hk
      cases hk
      cases hk'
      rfl
    case isFalse =>
      rw [hk] at hk'
      cases hk'
      rfl
  removed := by
    intro id k hk hc
    -- only the twin is gone
    have htwin : twin = id := by
      by_contra hid
      rw [(contains_merge_iff hn hm hne).mpr ⟨contains_of_node? hk, hid⟩] at hc
      cases hc
    rw [← htwin, hn] at hk
    cases hk
    exact ⟨hrole, hcomparator⟩
  blocks := by
    intro id hc
    obtain ⟨hid, hother⟩ := (contains_merge_iff hn hm hne).mp hc
    exact blocksAt_merge hn hm hne hid hother
  power := by
    intro σ hσ id hc
    -- the two fall together, so that they put out the same
    have hsame : σ into = σ twin := by
      refine hσ (contains_of_node? hm) (contains_of_node? hn) ?_
      rw [standIn, standIn, if_pos rfl, if_neg hne.symm]
    exact powerUnder_merge h hn hm hne hsame ((contains_merge_iff hn hm hne).mp hc).2.symm

end Merge

/-- Merges one after the other make up one quotient. -/
theorem mergesBy_mergeDuplicates (h : g.WellFormed) :
    ∃ r, MergesBy r g (mergeDuplicates g).circuit := by
  refine mergeDuplicates_keeps (P := fun g' => ∃ r, MergesBy r g g') ?_ ⟨_, .refl h⟩
  rintro g' twin into n m ⟨r, hr⟩ hpair
  have hcomparator : n.gate.isComparator = false := hpair.gate_eq ▸ hpair.not_comparator
  exact ⟨_, hr.trans (mergesBy_merge hr.wellFormed hpair.twin_node hpair.into_node hpair.ne
    hpair.gate_eq hpair.twin_removable hcomparator)⟩

/-! ## No duplicates are left -/

/-- Two nodes that may both be removed, with equal gates other than comparators, each with a single
link: to the main input, with equal loss, and from one and the same third node, which is no
comparator. -/
structure Duplicates (g : Circuit) (a b : NodeId) : Prop where
  ne : a ≠ b
  gates : ∃ n m, g.node? a = some n ∧ g.node? b = some m ∧ n.gate = m.gate ∧
    n.gate.isComparator = false ∧ n.isRemovable = true ∧ m.isRemovable = true
  links : ∃ i j l m s, g.inputs a = [i] ∧ g.inputs b = [j] ∧ g.link? i = some l ∧
    g.link? j = some m ∧ l.channel = .main ∧ m.channel = .main ∧ l.loss = m.loss ∧
    l.source = m.source ∧ l.source ≠ a ∧ l.source ≠ b ∧ g.node? l.source = some s ∧
    s.gate.isComparator = false

theorem circuit_mergeTwin_of_changes {source into : NodeId} {l : Link} (i : LinkId) (g : Circuit)
    (h : (mergeTwin source into l i g).changes = 0) :
    (mergeTwin source into l i g).circuit = g := by
  rcases mergeTwin_cases source into l i g with ⟨heq, -⟩ | ⟨twin, -, heq⟩
  · rw [heq]
    rfl
  · rw [heq] at h
    cases h

theorem circuit_mergeTwins_of_changes (id : NodeId) (g : Circuit)
    (h : (mergeTwins id g).changes = 0) : (mergeTwins id g).circuit = g := by
  rcases mergeTwins_cases id g with ⟨heq, -⟩ | ⟨l, -, heq⟩
  · rw [heq]
    rfl
  · rw [heq] at h ⊢
    exact (Revision.sweep_changes_eq_zero circuit_mergeTwin_of_changes h).1

/-- Every merge is paid for with a node. -/
theorem mergeTwin_pays {source into : NodeId} {l : Link} (i : LinkId) (g : Circuit) :
    (mergeTwin source into l i g).changes +
      (mergeTwin source into l i g).circuit.nodeIds.length ≤ g.nodeIds.length := by
  rcases mergeTwin_cases source into l i g with ⟨heq, -⟩ | ⟨twin, htwin, heq⟩
  · rw [heq]
    exact Nat.le_of_eq (Nat.zero_add _)
  · obtain ⟨-, n, -, -, -, hn, -⟩ := twin?_eq_some_iff.mp htwin
    have hmem : twin ∈ g.nodeIds := mem_nodeIds.mpr (contains_of_node? hn)
    rw [heq]
    change 1 + (merge g twin into).nodeIds.length ≤ _
    rw [nodeIds_merge, Nat.add_comm, List.length_erase_add_one hmem]

theorem mergeTwins_pays (id : NodeId) (g : Circuit) :
    (mergeTwins id g).changes + (mergeTwins id g).circuit.nodeIds.length ≤ g.nodeIds.length := by
  rcases mergeTwins_cases id g with ⟨heq, -⟩ | ⟨l, -, heq⟩
  · rw [heq]
    exact Nat.le_of_eq (Nat.zero_add _)
  · rw [heq]
    exact Revision.sweep_pays (m := fun g => g.nodeIds.length) mergeTwin_pays _ g

theorem loops_mergeDuplicates (g : Circuit) :
    Revision.Loops mergeSweep g (mergeDuplicates g) :=
  Revision.loops_untilStable (m := fun g => g.nodeIds.length)
    (fun g' => Revision.sweep_pays (m := fun g => g.nodeIds.length) mergeTwins_pays _ g')
    (Nat.lt_succ_of_le g.length_nodeIds_le)

/-- A sweep would have merged duplicates. -/
theorem changes_mergeTwins_of_duplicates (h : g.WellFormed) {a b : NodeId}
    (hdup : Duplicates g a b) : (mergeTwins a g).changes ≠ 0 := by
  obtain ⟨hne, ⟨n, m, hn, hm, hgate, hcomparator, hrole, hrole'⟩, i, j, l, o, s, hi, hj, hl, ho,
    hchannel, hchannel', hloss, hsource, hsa, hsb, hs, hcomparator'⟩ := hdup
  have htarget : o.target = b := h.target_eq ho (hj ▸ List.mem_singleton_self j)
  have hsole : soleLink? g a = some l := soleLink?_eq_some_iff.mpr
    ⟨n, i, s, hn, hi, hl, hs, hcomparator, hrole, hchannel, hsa, hcomparator'⟩
  have htwin : twin? g l.source a l j = some b := twin?_eq_some_iff.mpr
    ⟨o, m, n, ho, htarget, hm, hn, hne.symm, hsb.symm, hchannel'.trans hchannel.symm, hloss.symm,
      hgate.symm, hrole', by rw [hj]; rfl⟩
  intro hzero
  rcases mergeTwins_cases a g with ⟨-, hnone⟩ | ⟨l', hsole', heq⟩
  · cases hsole.symm.trans hnone
  cases hsole.symm.trans hsole'
  rw [heq] at hzero
  have hidle := (Revision.sweep_changes_eq_zero circuit_mergeTwin_of_changes hzero).2 j
    (hsource ▸ h.mem_outputs ho)
  rcases mergeTwin_cases l.source a l j g with ⟨-, hnone⟩ | ⟨twin, -, hmerged⟩
  · cases htwin.symm.trans hnone
  · rw [hmerged] at hidle
    cases hidle

/-- Merging is a quotient.  The loop comes to an end; the nodes fall together along a map onto the
survivors, no two of which are duplicates then, and a second call has nothing to do. -/
theorem mergeDuplicates_is_quotient (g : Circuit) (h : g.WellFormed) :
    Revision.Loops mergeSweep g (mergeDuplicates g) ∧
    (∃ r, MergesBy r g (mergeDuplicates g).circuit) ∧
    (mergeDuplicates g).circuit.allBlocks.Perm g.allBlocks ∧
    (∀ a b, ¬Duplicates (mergeDuplicates g).circuit a b) ∧
    mergeDuplicates (mergeDuplicates g).circuit = .unchanged (mergeDuplicates g).circuit := by
  have hsame (g : Circuit) (hzero : (mergeSweep g).changes = 0) : (mergeSweep g).circuit = g :=
    (Revision.sweep_changes_eq_zero circuit_mergeTwins_of_changes hzero).1
  have hzero := (loops_mergeDuplicates g).changes_eq_zero hsame
  obtain ⟨r, hr⟩ := mergesBy_mergeDuplicates h
  refine ⟨loops_mergeDuplicates g, ⟨r, hr⟩, hr.allBlocks_perm, fun a b hdup => ?_, ?_⟩
  · obtain ⟨n, -, hn, -⟩ := hdup.gates
    refine changes_mergeTwins_of_duplicates hr.wellFormed hdup ?_
    exact (Revision.sweep_changes_eq_zero circuit_mergeTwins_of_changes hzero).2 a
      (mem_nodeIds.mpr (contains_of_node? hn))
  · exact Revision.untilStable_of_changes_eq_zero hzero (hsame _ hzero) _

/-- Two equal torches behind a lever, an equal repeater behind each of them, and a lamp behind
both repeaters, with less loss on the way from the second one. -/
def doubledChain : Circuit :=
  let nodes := Circuit.empty.addNodes
    [ { gate := .plain .lever, isInput := true }, { gate := .plain .torch }
    , { gate := .plain .torch }, { gate := .repeater 1 false }, { gate := .repeater 1 false }
    , { gate := .plain .lamp, isOutput := true } ]
  (((((nodes.addLink { source := 0, target := 1, channel := .main, loss := 0 }).addLink
    { source := 0, target := 2, channel := .main, loss := 0 }).addLink
    { source := 1, target := 3, channel := .main, loss := 2 }).addLink
    { source := 2, target := 4, channel := .main, loss := 2 }).addLink
    { source := 3, target := 5, channel := .main, loss := 3 }).addLink
    { source := 4, target := 5, channel := .main, loss := 1 }

/-- The torches fall together, and then the repeaters behind them. -/
theorem mergeDuplicates_is_quotient_doubledChain :
    (mergeDuplicates doubledChain).changes = 2 ∧
      ∃ r, MergesBy r doubledChain (mergeDuplicates doubledChain).circuit ∧ r 2 = 1 ∧ r 4 = 3 := by
  have hwf : doubledChain.WellFormed :=
    ((((((WellFormed.empty.addNodes _).addLink _).addLink _).addLink _).addLink _).addLink _).addLink _
  obtain ⟨-, ⟨r, hr⟩, -⟩ := mergeDuplicates_is_quotient doubledChain hwf
  have hnodes : ∀ p ∈ (mergeDuplicates doubledChain).circuit.nodes,
      (p.2.gate = .plain .torch → p.1 = 1) ∧ (p.2.gate = .repeater 1 false → p.1 = 3) := by decide
  have hstands {id : NodeId} {n : Node} (hn : doubledChain.node? id = some n) :
      (n.gate = .plain .torch → r id = 1) ∧ (n.gate = .repeater 1 false → r id = 3) := by
    obtain ⟨n', hn'⟩ := contains_iff.mp (hr.maps (contains_of_node? hn))
    rw [← hr.gate_eq hn hn']
    exact hnodes (r id, n') (mem_nodes.mpr hn')
  exact ⟨by decide, r, hr, (hstands (n := { gate := .plain .torch }) rfl).1 rfl,
    (hstands (n := { gate := .repeater 1 false }) rfl).2 rfl⟩

end Redstone.Optimize
