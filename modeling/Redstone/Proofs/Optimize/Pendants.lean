import Redstone.Proofs.Optimize.DeadLinks
import Redstone.Proofs.Optimize.Exhaustion
import Redstone.Proofs.Optimize.ParallelLinks
import Redstone.Proofs.Optimize.Servers

/-!
# Circuits of pendants

In some circuits nothing is left to be computed: constants feed outputs, each output over one link
that loses nothing.  Only the sharing of constants finds something to do there, and it makes the
circuit larger.  Each output is a connected part of its own and gets a constant of its own, so that
in the end there are two nodes for each link.
-/

namespace Redstone.Optimize

open Circuit

/-- Nothing can be folded, and every link leads without a loss from a constant to an output that has
no other link. -/
structure Pendants (g : Circuit) : Prop where
  wellFormed : g.WellFormed
  inert : g.Inert
  main : ∀ {i l}, g.link? i = some l → l.channel = .main
  lossless : ∀ {i l}, g.link? i = some l → l.loss = 0
  source : ∀ {i l}, g.link? i = some l →
    ∃ n, g.node? l.source = some n ∧ isSharable n = true ∧ 0 < n.state.strength
  target : ∀ {i l}, g.link? i = some l → ∃ n, g.node? l.target = some n ∧ n.isOutput = true
  sole : ∀ {i j l m}, g.link? i = some l → g.link? j = some m → l.target = m.target → i = j

/-- Every constant feeds one output only. -/
structure Pairs (g : Circuit) : Prop extends Pendants g where
  own : ∀ {i j l m}, g.link? i = some l → g.link? j = some m → l.source = m.source → i = j

theorem isSharable_eq_false_of_isOutput {n : Node} (h : n.isOutput = true) :
    isSharable n = false := by
  simp [isSharable, Node.isRemovable, h]

variable {g : Circuit} {i : LinkId} {l : Link}

namespace Pendants

/-- Outputs are kept and no link changes but for its source, which is a constant again. -/
theorem rewire (h : Pendants g) {g' : Circuit} (hwf : g'.WellFormed) (hinert : g'.Inert)
    (hlink : ∀ {i l'}, g'.link? i = some l' → ∃ l, g.link? i = some l ∧ l'.target = l.target ∧
      l'.channel = l.channel ∧ l'.loss = l.loss)
    (hsource : ∀ {i l'}, g'.link? i = some l' →
      ∃ n, g'.node? l'.source = some n ∧ isSharable n = true ∧ 0 < n.state.strength)
    (hnode : ∀ {id n}, g.node? id = some n → n.isOutput = true →
      ∃ m, g'.node? id = some m ∧ m.isOutput = true) : Pendants g' where
  wellFormed := hwf
  inert := hinert
  main := by
    intro i l' hl'
    obtain ⟨l, hl, -, hchannel, -⟩ := hlink hl'
    exact hchannel.trans (h.main hl)
  lossless := by
    intro i l' hl'
    obtain ⟨l, hl, -, -, hloss⟩ := hlink hl'
    exact hloss.trans (h.lossless hl)
  source := hsource
  target := by
    intro i l' hl'
    obtain ⟨l, hl, htarget, -⟩ := hlink hl'
    obtain ⟨n, hn, hout⟩ := h.target hl
    rw [htarget]
    exact hnode hn hout
  sole := by
    intro i j l' m' hl' hm' heq
    obtain ⟨l, hl, htarget, -⟩ := hlink hl'
    obtain ⟨m, hm, htarget', -⟩ := hlink hm'
    exact h.sole hl hm (htarget.symm.trans (heq.trans htarget'))

/-! ## Passes that find nothing to do -/

theorem constantsAreSources (h : Pendants g) : ConstantsAreSources g := by
  intro i l n hl hn
  obtain ⟨m, hm, hout⟩ := h.target hl
  cases hn.symm.trans hm
  exact isSharable_eq_false_of_isOutput hout

theorem clampLosses_eq (h : Pendants g) : clampLosses g = .unchanged g :=
  clampLosses_of_le fun hl => (h.lossless hl).symm ▸ by decide

theorem dedupLinks_eq (h : Pendants g) : dedupLinks g = .unchanged g := by
  have hnone : redundantLinks g = [] := by
    refine List.eq_nil_iff_forall_not_mem.mpr fun i hi => ?_
    obtain ⟨l, j, m, hl, hm, hout⟩ :=
      (isRedundant_iff h.wellFormed).mp ((mem_redundantLinks h.wellFormed).mp hi)
    obtain ⟨hparallel, hbetter⟩ := outdoes_iff.mp hout
    -- the better link would be the link itself
    cases h.sole hl hm (areParallel_iff.mp hparallel).2.1
    cases hl.symm.trans hm
    simp at hbetter
  rw [dedupLinks, hnone, removeLinks_nil]
  rfl

theorem collapseBuses_eq (h : Pendants g) : collapseBuses g = .unchanged g := by
  refine Revision.sweep_of_unchanged fun id _ => ?_
  rcases collapseBusAt_cases id g with heq | ⟨-, -, hcomparator, -, -⟩
  · exact heq
  · obtain ⟨n, hn, htype⟩ := (Option.any_eq_true _ _).mp hcomparator
    have hnot := h.inert id n hn
    simp_all [Gate.isFoldable, Gate.isComparator]

theorem foldConstants_eq (h : Pendants g) : foldConstants g = .unchanged g := by
  have hsweep : foldSweep g = .unchanged g := by
    refine Revision.sweep_of_unchanged fun id _ => ?_
    rcases foldNode_cases id g with ⟨heq, -⟩ | ⟨n, s, hn, -, hfold, -⟩
    · exact heq
    · cases (h.inert id n hn).symm.trans (Gate.isFoldable_of_fold hfold)
  exact Revision.untilStable_of_changes_eq_zero (congrArg Revision.changes hsweep)
    (congrArg Revision.circuit hsweep) _

theorem pruneDeadLinks_eq (h : Pendants g) : pruneDeadLinks g = .unchanged g := by
  refine pruneDeadLinks_of_live h.wellFormed fun {i l} hl hdead => ?_
  obtain ⟨n, hn, hsharable, hpos⟩ := h.source hl
  have hconst : n.gate.type = .constant := by simp_all [isSharable, Gate.isConstant]
  have hmax : maxOutput g l.source = n.state.strength := by simp [maxOutput, hn, hconst]
  rw [IsDead, hmax, h.lossless hl] at hdead
  exact absurd hpos (UInt8.not_lt.mpr hdead)

/-- An output is not removed, and so it is no duplicate. -/
theorem mergeDuplicates_eq (h : Pendants g) : mergeDuplicates g = .unchanged g := by
  have hsweep : mergeSweep g = .unchanged g := by
    refine Revision.sweep_of_unchanged fun id _ => ?_
    rcases mergeTwins_cases id g with ⟨heq, -⟩ | ⟨l, hsole, -⟩
    · exact heq
    · obtain ⟨n, i, -, hn, hi, hl, -, -, hrole, -⟩ := soleLink?_eq_some_iff.mp hsole
      obtain ⟨m, hm, hout⟩ := h.target hl
      have htarget : l.target = id := h.wellFormed.target_eq hl (hi ▸ List.mem_singleton_self i)
      rw [htarget, hn] at hm
      cases hm
      simp [Node.isRemovable, hout] at hrole
  exact Revision.untilStable_of_changes_eq_zero (congrArg Revision.changes hsweep)
    (congrArg Revision.circuit hsweep) _

/-! ## Settled outputs -/

/-- An output that is fed has been settled. -/
theorem isSettled_of_fed (h : Pendants g) {id : NodeId} (hfed : g.inputs id ≠ []) :
    isSettled g id = true := by
  obtain ⟨i, rest, hinputs⟩ := List.exists_cons_of_ne_nil hfed
  obtain ⟨l, hl, htarget⟩ := h.wellFormed.mem_inputs_iff.mp (hinputs ▸ List.mem_cons_self)
  have hrest : rest = [] := by
    refine List.eq_nil_iff_forall_not_mem.mpr fun j hj => ?_
    obtain ⟨m, hm, htarget'⟩ :=
      h.wellFormed.mem_inputs_iff.mp (hinputs ▸ List.mem_cons_of_mem i hj)
    have hnodup := h.wellFormed.inputs_nodup id
    rw [hinputs, h.sole hl hm (htarget.trans htarget'.symm)] at hnodup
    exact (List.nodup_cons.mp hnodup).1 hj
  simp [isSettled, inLinks, hinputs, hrest, hl, h.main hl, h.lossless hl]

/-- Another state of an output is of no account. -/
theorem settleNode (h : Pendants g) {id : NodeId} {n : Node} (hn : g.node? id = some n)
    (hout : n.isOutput = true) : Pendants (settleNode g id) := by
  have hnode (j : NodeId) : (Optimize.settleNode g id).node? j = if id = j then
      (g.node? j).map fun n => { n with state := n.gate.settle n.state (g.inputPower id) }
      else g.node? j := node?_modifyNode ..
  refine h.rewire (h.wellFormed.modifyNode id _) ?inert (fun {i l} hl => ⟨l, hl, rfl, rfl, rfl⟩)
    ?source ?node
  case inert =>
    intro j m hm
    rw [hnode] at hm
    split at hm
    case isTrue hj =>
      obtain ⟨k, hk, rfl⟩ := Option.map_eq_some_iff.mp hm
      exact h.inert j k hk
    case isFalse => exact h.inert j m hm
  case source =>
    intro i l hl
    obtain ⟨m, hm, hsharable, hpos⟩ := h.source hl
    have hne : id ≠ l.source := by
      rintro rfl
      cases hn.symm.trans hm
      cases (isSharable_eq_false_of_isOutput hout).symm.trans hsharable
    refine ⟨m, ?_, hsharable, hpos⟩
    rw [hnode, if_neg hne, hm]
  case node =>
    intro j m hm hout
    rw [hnode, hm]
    split
    · exact ⟨_, rfl, hout⟩
    · exact ⟨m, rfl, hout⟩

/-- No output is given other sources. -/
theorem settleOutputs (h : Pendants g) :
    Pendants (settleOutputs g).circuit ∧ (settleOutputs g).circuit.linkCount = g.linkCount := by
  refine Revision.sweep_keeps (P := fun g' => Pendants g' ∧ g'.linkCount = g.linkCount)
    (fun id _ g' hg' => ?_) ⟨h, rfl⟩
  obtain ⟨hg', hlinks⟩ := hg'
  rcases settleOutput_cases id g' with ⟨heq, -⟩ | ⟨n, hfed, ⟨heq, -⟩ | ⟨-, hnot⟩⟩
  · rw [heq]
    exact ⟨hg', hlinks⟩
  · rw [heq]
    exact ⟨hg'.settleNode hfed.node hfed.isOutput, hlinks⟩
  · cases hnot.symm.trans (hg'.isSettled_of_fed hfed.fed)

/-! ## Shared constants -/

/-- Constants connect nothing. -/
theorem joined_iff (h : Pendants g) {a b : NodeId} : Joined g a b ↔ a = b := by
  constructor
  · intro hjoined
    induction hjoined with
    | rel a b hlink =>
        obtain ⟨i, l, hl, hstarts, -, -⟩ := hlink
        obtain ⟨n, hn, hsharable, -⟩ := h.source hl
        cases hstarts.symm.trans ((startsShared_eq hn).trans hsharable)
    | refl => rfl
    | symm _ _ _ ih => exact ih.symm
    | trans _ _ _ _ _ ih ih' => exact ih.trans ih'
  · rintro rfl
    exact .refl a

/-- Every link gets a constant of its own. -/
theorem shareConstants (h : Pendants g) :
    Pairs (shareConstants g).circuit ∧ (shareConstants g).circuit.linkCount = g.linkCount := by
  obtain ⟨s, hexact, heq⟩ := exact_shareConstants h.wellFormed h.constantsAreSources
  have hshared := hexact.constantsShared h.wellFormed
  have hstarts {i : LinkId} {l : Link} (hl : g.link? i = some l) : startsShared g l = true := by
    obtain ⟨n, hn, hsharable, -⟩ := h.source hl
    exact (startsShared_eq hn).trans hsharable
  -- a link is as it was but for its source, which is the server of its demand
  have hlink {i : LinkId} {l' : Link} (hl' : s.circuit.link? i = some l') :
      ∃ l, g.link? i = some l ∧ l'.target = l.target ∧ l'.channel = l.channel ∧ l'.loss = l.loss ∧
        ∃ n, s.circuit.node? l'.source = some n ∧ isSharable n = true ∧ 0 < n.state.strength := by
    obtain ⟨l, hl, -⟩ := hexact.link hl'
    obtain ⟨server, hserver, hplaced⟩ := hexact.placed hl (hstarts hl) (Sharing.Exact.not_pending i)
    obtain ⟨m, hm, hsharable, hstrength⟩ := hexact.served hserver
    obtain ⟨n, hn, -, hpos⟩ := h.source hl
    cases hl'.symm.trans hplaced
    rw [demand_eq hn] at hstrength
    exact ⟨l, hl, rfl, rfl, rfl, m, hm, hsharable, hstrength ▸ hpos⟩
  have hnode {id : NodeId} {n : Node} (hn : g.node? id = some n) (hout : n.isOutput = true) :
      s.circuit.node? id = some n := by
    refine (hexact.kept hn).resolve_right ?_
    rintro ⟨-, hsharable, -⟩
    cases (isSharable_eq_false_of_isOutput hout).symm.trans hsharable
  have hpendants : Pendants s.circuit := by
    refine h.rewire hshared.wellFormed (h.inert.of_gatesWithin (heq ▸ gatesWithin_shareConstants g))
      (fun hl' => ?_) (fun hl' => ?_) fun hn hout => ⟨_, hnode hn hout, hout⟩
    · obtain ⟨l, hl, htarget, hchannel, hloss, -⟩ := hlink hl'
      exact ⟨l, hl, htarget, hchannel, hloss⟩
    · obtain ⟨-, -, -, -, -, hsource⟩ := hlink hl'
      exact hsource
  rw [heq]
  constructor
  · refine { hpendants with own := fun hl' hm' heq => ?_ }
    obtain ⟨l, hl, htarget, -, -, n, hn, hsharable, -⟩ := hlink hl'
    obtain ⟨m, hm, htarget', -, -, k, hk, hsharable', -⟩ := hlink hm'
    -- one server for both means one part, which is one output
    have hjoined := ((hshared.source_eq_iff hl' hm' ((startsShared_eq hn).trans hsharable)
      ((startsShared_eq hk).trans hsharable')).mp heq).2
    have hsame := h.joined_iff.mp (hshared.joined.mp hjoined)
    exact h.sole hl hm (htarget.symm.trans (hsame.trans htarget'))
  · refine h.wellFormed.linkCount_congr hshared.wellFormed fun i => ⟨fun ⟨l', hl'⟩ => ?_, ?_⟩
    · exact hshared.link_of hl'
    · rintro ⟨l, hl⟩
      obtain ⟨source, hl', -⟩ := hshared.link hl
      exact ⟨_, hl'⟩

end Pendants

namespace Pairs

/-! ## Orphans -/

/-- A constant that feeds nothing takes no link with it. -/
theorem removeNode (h : Pairs g) {id : NodeId} {n : Node} (hn : g.node? id = some n)
    (hrole : n.isRemovable = true) (hnone : g.outputs id = []) :
    Pairs (g.removeNode id) ∧ (g.removeNode id).linkCount = g.linkCount := by
  have hnode {j : NodeId} {m : Node} (hm : g.node? j = some m) (hout : m.isOutput = true) :
      (g.removeNode id).node? j = some m := by
    refine node?_removeNode_eq_some_iff.mpr ⟨?_, hm⟩
    rintro rfl
    cases hn.symm.trans hm
    simp [Node.isRemovable, hout] at hrole
  have hsource {i : LinkId} {l : Link} (hl : g.link? i = some l) : l.source ≠ id :=
    h.wellFormed.source_ne hnone hl
  have hlink {i : LinkId} {l : Link} : (g.removeNode id).link? i = some l ↔ g.link? i = some l := by
    rw [h.wellFormed.link?_removeNode_eq_some_iff]
    refine ⟨And.left, fun hl => ⟨hl, hsource hl, ?_⟩⟩
    obtain ⟨m, hm, hout⟩ := h.target hl
    exact (node?_removeNode_eq_some_iff.mp (hnode hm hout)).1.symm
  have hwf := h.wellFormed.removeNode id
  have hpendants : Pendants (g.removeNode id) := by
    refine h.rewire hwf (fun j m hm => h.inert j m (node?_removeNode_eq_some_iff.mp hm).2)
      (fun hl => ⟨_, hlink.mp hl, rfl, rfl, rfl⟩) (fun hl => ?_)
      fun hm hout => ⟨_, hnode hm hout, hout⟩
    obtain ⟨m, hm, hrest⟩ := h.source (hlink.mp hl)
    exact ⟨m, node?_removeNode_eq_some_iff.mpr ⟨(hsource (hlink.mp hl)).symm, hm⟩, hrest⟩
  exact ⟨{ hpendants with own := fun hl hm => h.own (hlink.mp hl) (hlink.mp hm) },
    h.wellFormed.linkCount_congr hwf fun i => exists_congr fun _ => hlink⟩

/-- Nothing goes but constants that feed nothing. -/
theorem pruneOrphans (h : Pairs g) :
    Pairs (pruneOrphans g).circuit ∧ (pruneOrphans g).circuit.linkCount = g.linkCount := by
  refine pruneOrphans_keeps (P := fun g' => Pairs g' ∧ g'.linkCount = g.linkCount)
    (fun {g' id n} hg' hn hrole hnone => ?_) ⟨h, rfl⟩
  obtain ⟨hpairs, hlinks⟩ := hg'.1.removeNode hn hrole hnone
  exact ⟨hpairs, hlinks.trans hg'.2⟩

/-! ## Counting -/

/-- The two ends of the links are different nodes, and so there are two nodes for each link. -/
theorem two_mul_linkCount_le (h : Pairs g) : 2 * g.linkCount ≤ g.nodeCount := by
  let ends (side : Link → NodeId) : List NodeId :=
    g.linkIds.map fun i => ((g.link? i).map side).getD 0
  have hmem {side : Link → NodeId} {id : NodeId} (hid : id ∈ ends side) :
      ∃ i l, g.link? i = some l ∧ side l = id := by
    obtain ⟨i, hi, rfl⟩ := List.mem_map.mp hid
    obtain ⟨l, hl⟩ := mem_linkIds.mp hi
    exact ⟨i, l, hl, by rw [hl]; rfl⟩
  have hnodup {side : Link → NodeId} (hside : ∀ {i j l m}, g.link? i = some l →
      g.link? j = some m → side l = side m → i = j) : (ends side).Nodup := by
    refine List.Nodup.map_on (fun i hi j hj heq => ?_) g.linkIds_nodup
    obtain ⟨l, hl⟩ := mem_linkIds.mp hi
    obtain ⟨m, hm⟩ := mem_linkIds.mp hj
    rw [hl, hm] at heq
    exact hside hl hm heq
  -- a source is no output
  have hdisjoint : (ends Link.source).Disjoint (ends Link.target) := by
    intro id hsource htarget
    obtain ⟨i, l, hl, rfl⟩ := hmem hsource
    obtain ⟨j, m, hm, heq⟩ := hmem htarget
    obtain ⟨n, hn, hsharable, -⟩ := h.source hl
    obtain ⟨k, hk, hout⟩ := h.target hm
    rw [heq, hn] at hk
    cases hk
    cases (isSharable_eq_false_of_isOutput hout).symm.trans hsharable
  have hnodes : ends Link.source ++ ends Link.target ⊆ g.nodeIds := by
    intro id hid
    rcases List.mem_append.mp hid with hid | hid
    · obtain ⟨i, l, hl, rfl⟩ := hmem hid
      exact mem_nodeIds.mpr (h.wellFormed.contains_source hl)
    · obtain ⟨i, l, hl, rfl⟩ := hmem hid
      exact mem_nodeIds.mpr (h.wellFormed.contains_target hl)
  have hle := (List.subperm_of_subset
    ((hnodup h.own).append (hnodup h.sole) hdisjoint) hnodes).length_le
  rw [h.wellFormed.linkCount_eq, h.wellFormed.nodeCount_eq]
  simpa [ends, Nat.two_mul] using hle

end Pairs

end Redstone.Optimize
