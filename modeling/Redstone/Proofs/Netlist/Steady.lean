import Mathlib.Data.List.Pairwise
import Redstone.Proofs.Netlist.Flatten
import Redstone.Proofs.Netlist.Settle
import Redstone.Proofs.Optimize.Range

/-!
# Settled netlists and balanced strengths

The netlist of a circuit is evaluated in the place of the circuit.  Once it has settled, the
strengths of its nodes are balanced strengths of the circuit, except that a repeater is folded by
what its stored state says of its lock and evaluated by the power at its side input.  Where the
stored locks hold in the settled netlist, folding and evaluation agree on repeaters, too.
-/

namespace Redstone

/-- The lock that a state tells of holds for a repeater that puts out the given strength: if it is
locked, it keeps its strength, and if not, it follows its main input, even with power at its
side. -/
def GateState.LockHolds (s : GateState) (p : Power) (out : UInt8) : Prop :=
  if s.locked then s.strength = out else 0 < p.side → digital (0 < p.main) = out

instance (s : GateState) (p : Power) (out : UInt8) : Decidable (s.LockHolds p out) :=
  inferInstanceAs (Decidable
    (if s.locked then s.strength = out else 0 < p.side → digital (0 < p.main) = out))

/-- A repeater that has settled is folded to the strength that it puts out exactly if the stored
lock holds. -/
theorem Gate.fold_eq_some_iff_lockHolds {k : Gate} (htype : k.type = .repeater) {t : GateState}
    {p : Power} (hsettled : k.settle t p = t) (s : GateState) :
    k.fold s p = some t.strength ↔ s.LockHolds p t.strength := by
  have hstrength := congrArg GateState.strength hsettled
  simp only [Gate.settle, htype] at hstrength
  simp only [Gate.fold, htype, GateState.LockHolds, Option.some.injEq]
  cases s.locked with
  | true => rfl
  | false =>
      simp only [Bool.false_eq_true, if_false]
      refine ⟨fun h _ => h, fun h => ?_⟩
      by_cases hside : 0 < p.side
      · exact h hside
      · rw [if_neg hside] at hstrength
        exact hstrength

/-- The locks of all repeaters of `n` hold with the strengths of `n'`. -/
def Netlist.LocksHold (n n' : Netlist) : Prop :=
  ∀ p ∈ n.nodes.toList.zipIdx, p.1.gate.type = .repeater →
    p.1.state.LockHolds (powerOf n'.strength p.1.inputs) (n'.strength p.2)

instance (n n' : Netlist) : Decidable (n.LocksHold n') :=
  inferInstanceAs (Decidable (∀ p ∈ n.nodes.toList.zipIdx, _))

namespace Circuit

variable {g : Circuit} {id : NodeId} {n : Node} {flat settled : Netlist}

/-! ## The nodes of a netlist -/

theorem getElem?_nodes (hn : g.node? id = some n) :
    g.nodes[g.nodeIds.idxOf id]? = some (id, n) := by
  have hmem : id ∈ g.nodeIds := mem_nodeIds.mpr (contains_of_node? hn)
  have hid : g.nodeIds[g.nodeIds.idxOf id]? = some id := List.getElem?_idxOf hmem
  rw [← map_fst_nodes, List.getElem?_map, map_fst_nodes] at hid
  obtain ⟨q, hq, hfst⟩ := Option.map_eq_some_iff.mp hid
  have hnode := mem_nodes.mp (List.mem_of_getElem? hq)
  rw [hfst, hn, Option.some.injEq] at hnode
  rw [hq, hnode, ← hfst]

theorem length_nodeIds_le_of_flatten (h : g.flatten = .ok flat) :
    g.nodeIds.length ≤ ForwardLink.maxNodes := by
  by_contra hcount
  rw [flatten_of_lt (Nat.lt_of_not_le hcount)] at h
  cases h

/-- The nodes of the netlist of a circuit. -/
theorem getElem?_flatten (hloss : ∀ {i l}, g.link? i = some l → l.loss ≤ maxStrength)
    (h : g.flatten = .ok flat) (i : Nat) :
    ∃ links : Node → List ForwardLink, flat.nodes[i]? = g.nodes[i]?.map fun p =>
      { g.flatNode p.1 p.2 with links := links p.2 } := by
  rw [flatten_eq hloss (length_nodeIds_le_of_flatten h), Except.ok.injEq] at h
  subst h
  refine ⟨fun _ => (Netlist.forwardLinks { nodes := g.flatNodes.toArray }).getD i [], ?_⟩
  unfold Netlist.relink
  dsimp only
  rw [Array.getElem?_mapIdx, List.getElem?_toArray, flatNodes, List.getElem?_map, Option.map_map]
  rfl

theorem getElem?_flatten_of_node? (hloss : ∀ {i l}, g.link? i = some l → l.loss ≤ maxStrength)
    (h : g.flatten = .ok flat) (hn : g.node? id = some n) :
    ∃ links, flat.nodes[g.nodeIds.idxOf id]? = some { g.flatNode id n with links } := by
  obtain ⟨links, hnode⟩ := getElem?_flatten hloss h (g.nodeIds.idxOf id)
  rw [getElem?_nodes hn] at hnode
  exact ⟨links n, hnode⟩

/-- Strengths in the netlist, read back for the circuit. -/
def readBack (g : Circuit) (n : Netlist) (id : NodeId) : UInt8 :=
  n.strength (g.nodeIds.idxOf id)

theorem powerOf_flatInputs (hcount : g.nodeIds.length ≤ ForwardLink.maxNodes) (hwf : g.WellFormed)
    (m : Netlist) (id : NodeId) :
    Netlist.powerOf m.strength ((g.inLinks id).map (flatInput g.nodeIds)) =
      g.powerUnder (g.readBack m) id := by
  unfold Netlist.powerOf powerUnder powerOf
  rw [List.foldl_map]
  refine List.foldl_ext _ _ _ fun p l hl => ?_
  obtain ⟨i, hi, -⟩ := hwf.mem_inLinks_iff.mp hl
  have hsource := toNat_netIndex hcount (hwf.contains_source hi)
  change p.receive l.channel (attenuate (m.strength (netIndex g.nodeIds l.source).toNat) l.loss) = _
  rw [hsource]
  rfl

/-! ## Settled netlists -/

theorem Sound.bounded_flatten (h : g.Sound) (hflat : g.flatten = .ok flat) : flat.Bounded := by
  intro i node hnode
  obtain ⟨links, heq⟩ := getElem?_flatten (fun hl => (h.inRange.link hl).loss_le) hflat i
  rw [heq] at hnode
  obtain ⟨p, hp, rfl⟩ := Option.map_eq_some_iff.mp hnode
  have hn := mem_nodes.mp (List.mem_of_getElem? hp)
  exact ⟨(h.inRange.node hn).strength_le, (h.regular.nodes hn).farInput_le⟩

/-- What a settled node does: it keeps its state under the power that it has, and as a constant it
still has the state from the circuit. -/
theorem Sound.settled_node (h : g.Sound) (hflat : g.flatten = .ok flat) {rounds : Nat}
    (hsettle : flat.settle rounds = (settled, true)) (hn : g.node? id = some n) :
    ∃ state : GateState, state.strength = g.readBack settled id ∧
      n.gate.settle state (g.powerUnder (g.readBack settled) id) = state ∧
      (n.gate.isConstant = true → state = n.state) := by
  have hloss {i : LinkId} {l : Link} (hl : g.link? i = some l) : l.loss ≤ maxStrength :=
    (h.inRange.link hl).loss_le
  obtain ⟨links, hnode⟩ := getElem?_flatten_of_node? hloss hflat hn
  have hevolves := Netlist.evolves_settle rounds flat
  rw [hsettle] at hevolves
  rcases hevolves (g.nodeIds.idxOf id) with ⟨hnone, -⟩ | ⟨node, state, hold, hnew, hconst⟩
  · rw [hnode] at hnone
    cases hnone
  · rw [hnode, Option.some.injEq] at hold
    subst hold
    have hnext := Netlist.nextState_eq_of_round (Netlist.round_eq_of_settle hsettle) hnew
    refine ⟨state, (Netlist.strength_of_getElem? hnew).symm, ?_, hconst⟩
    rw [← powerOf_flatInputs (length_nodeIds_le_of_flatten hflat) h.regular.wellFormed]
    exact hnext

/-- The strengths of a settled netlist are balanced in the circuit, if its repeaters fold to what
they settle to. -/
theorem Sound.balanced_readBack (h : g.Sound) (hflat : g.flatten = .ok flat) {rounds : Nat}
    (hsettle : flat.settle rounds = (settled, true))
    (hfolds : ∀ {id n}, g.node? id = some n → n.gate.type = .repeater →
      n.gate.fold n.state (g.powerUnder (g.readBack settled) id) =
        some (g.readBack settled id)) :
    g.Balanced (g.readBack settled) where
  upholds := by
    intro id n hn
    obtain ⟨state, hstrength, hsettled, hconst⟩ := h.settled_node hflat hsettle hn
    have hkeeps (s : GateState) (hs : s.strength = g.readBack settled id) :
        (n.gate.settle s (g.powerUnder (g.readBack settled) id)).strength =
          g.readBack settled id := by
      rw [Gate.settle_strength_congr (hs.trans hstrength.symm), hsettled, hstrength]
    refine ⟨hkeeps _ rfl, ?_, ?_⟩
    · intro out hfold
      by_cases htype : n.gate.type = .repeater
      · rw [hfolds hn htype, Option.some.injEq] at hfold
        exact hfold.symm
      · rw [← Gate.settle_strength_of_fold (fun ht => absurd ht htype)
          (fun ht => absurd ht htype) hfold]
        exact hkeeps state hstrength
    · intro hc
      rw [← hstrength, hconst hc]
  bounded := by
    intro id n _
    have hbounded := (h.bounded_flatten hflat).settle rounds
    rw [hsettle] at hbounded
    exact hbounded.strength_le _

theorem Sound.folds_of_locksHold (h : g.Sound) (hflat : g.flatten = .ok flat) {rounds : Nat}
    (hsettle : flat.settle rounds = (settled, true)) (hlocks : flat.LocksHold settled)
    (hn : g.node? id = some n) (htype : n.gate.type = .repeater) :
    n.gate.fold n.state (g.powerUnder (g.readBack settled) id) = some (g.readBack settled id) := by
  obtain ⟨links, hnode⟩ :=
    getElem?_flatten_of_node? (fun hl => (h.inRange.link hl).loss_le) hflat hn
  obtain ⟨state, hstrength, hsettled, -⟩ := h.settled_node hflat hsettle hn
  rw [← hstrength, Gate.fold_eq_some_iff_lockHolds htype hsettled, hstrength,
    ← powerOf_flatInputs (length_nodeIds_le_of_flatten hflat) h.regular.wellFormed]
  refine hlocks ({ g.flatNode id n with links }, g.nodeIds.idxOf id) ?_ htype
  rw [List.mem_zipIdx_iff_getElem?, Array.getElem?_toList]
  exact hnode

/-! ## Positions -/

/-- No two nodes share a position. -/
theorem eq_of_position_eq (hnodup : (g.allBlocks.map BlockRef.position).Nodup)
    (hn : g.node? id = some n) {id' : NodeId} {n' : Node} (hn' : g.node? id' = some n')
    {b b' : BlockRef} (hb : b ∈ n.blocks) (hb' : b' ∈ n'.blocks)
    (hposition : b.position = b'.position) : id = id' := by
  rw [allBlocks, List.map_flatMap, List.nodup_flatMap] at hnodup
  by_contra hne
  have hblocks {j : NodeId} {m : Node} (hm : g.node? j = some m) : g.blocksAt j = m.blocks := by
    rw [blocksAt, hm]
    rfl
  have : Std.Symm (Function.onFun List.Disjoint fun j => (g.blocksAt j).map BlockRef.position) :=
    ⟨fun _ _ h _ hfirst hsecond => h hsecond hfirst⟩
  have hdisjoint := hnodup.2.forall
    (mem_nodeIds.mpr (contains_of_node? hn)) (mem_nodeIds.mpr (contains_of_node? hn')) hne
  refine hdisjoint (a := b.position) ?_ ?_
  · dsimp only
    rw [hblocks hn]
    exact List.mem_map_of_mem hb
  · dsimp only
    rw [hblocks hn', hposition]
    exact List.mem_map_of_mem hb'

/-- The node of the netlist that stands for the position of a block. -/
theorem lookup_flatten (hloss : ∀ {i l}, g.link? i = some l → l.loss ≤ maxStrength)
    (hnodup : (g.allBlocks.map BlockRef.position).Nodup) (hflat : g.flatten = .ok flat)
    (hn : g.node? id = some n) {b : BlockRef} (hb : b ∈ n.blocks) :
    flat.lookup b.position = some (g.nodeIds.idxOf id) := by
  obtain ⟨links, hnode⟩ := getElem?_flatten_of_node? hloss hflat hn
  obtain ⟨hlt, hget⟩ := Array.getElem?_eq_some_iff.mp hnode
  unfold Netlist.lookup
  rw [List.findIdx?_eq_some_iff_getElem]
  refine ⟨by simpa using hlt, ?_, ?_⟩
  · rw [Array.getElem_toList, hget, List.any_eq_true]
    exact ⟨b, hb, beq_self_eq_true _⟩
  · intro j hj
    obtain ⟨links', hearlier⟩ := getElem?_flatten hloss hflat j
    have hjlt : j < flat.nodes.size := Nat.lt_trans hj hlt
    rw [Array.getElem?_eq_getElem hjlt] at hearlier
    obtain ⟨p, hp, hpeq⟩ := Option.map_eq_some_iff.mp hearlier.symm
    have hpn := mem_nodes.mp (List.mem_of_getElem? hp)
    rw [Array.getElem_toList, ← hpeq, List.any_eq_true]
    rintro ⟨b', hb', hposition⟩
    have hid := eq_of_position_eq hnodup hn hpn hb hb' (beq_iff_eq.mp hposition).symm
    -- an earlier node with this name would have been found first
    have hname : g.nodeIds[j]? = some id := by
      rw [← map_fst_nodes, List.getElem?_map, hp, hid]
      rfl
    obtain ⟨hjids, hjid⟩ := List.getElem?_eq_some_iff.mp hname
    have hidx := g.nodeIds_nodup.idxOf_getElem j hjids
    rw [hjid] at hidx
    exact absurd hidx (Nat.ne_of_gt hj)

end Circuit

end Redstone
