import Mathlib.Logic.Equiv.Basic
import Redstone.Proofs.Circuit.Cascade
import Redstone.Proofs.Netlist.Forward
import Redstone.Proofs.Netlist.Rounds

/-!
# Netlists without loops

In a netlist without loops every node has a rank, the number of nodes upstream, and there are fewer
ranks than nodes.  A round brings at least the nodes of the next rank to rest, in whatever order the
nodes are evaluated: their inputs do not change any more, and evaluating a gate twice with the same
power is the same as evaluating it once.  So as many rounds as there are nodes end in a steady state,
latches included.

Without latches the steady state is unique.  The strength of a node follows from the strengths
upstream, so that neither the states at the start nor the numbers of the nodes make a difference.
-/

namespace Redstone

/-- Without a latch, what follows from the power does not depend on the state before. -/
theorem Gate.settle_forgets {k : Gate} {p : Power} (hdefined : k.type.isDefined = true)
    (hsource : k.type.isSource = false) (hside : k.type = .repeater → p.side = 0) (s t : GateState) :
    (k.settle s p).strength = (k.settle t p).strength ∧
      (k.settle s p).powered = (k.settle t p).powered := by
  cases htype : k.type <;>
    simp_all [Gate.settle, GateType.isDefined, GateType.isSource, GateType.isSwitch]

namespace Netlist

variable {n n' : Netlist} {node : NetNode} {i j : Nat}

/-! ## Power -/

/-- Power depends on the strengths of the sources only. -/
theorem powerOf_congr {σ τ : Nat → UInt8} {inputs : List NetInput}
    (h : ∀ input ∈ inputs, σ input.source.toNat = τ input.source.toNat) :
    powerOf σ inputs = powerOf τ inputs := by
  unfold powerOf
  refine List.foldl_ext _ _ _ fun p input hinput => ?_
  rw [h input hinput]

/-- Without a side input there is no power at the side. -/
theorem side_powerOf_eq_zero (σ : Nat → UInt8) {inputs : List NetInput}
    (h : ∀ input ∈ inputs, input.channel ≠ .side) : (powerOf σ inputs).side = 0 := by
  have hfold {p : Power} (hp : p.at true = 0) :
      (inputs.foldl (fun p i => p.receive i.channel (attenuate (σ i.source.toNat) i.loss)) p).at
        true = 0 := by
    induction inputs generalizing p with
    | nil => exact hp
    | cons input inputs ih =>
        obtain ⟨hfirst, hrest⟩ := List.forall_mem_cons.mp h
        apply ih hrest
        rw [Power.at_receive, if_neg (by simpa [Channel.isSide] using hfirst), hp]
  exact hfold rfl

/-! ## Ranks -/

/-- A link leads from the first node to the second. -/
def Feeds (n : Netlist) (source target : Nat) : Prop :=
  ∃ w ∈ n.inputWires, w.source = source ∧ w.target = target

/-- No node feeds itself, directly or through others. -/
def Acyclic (n : Netlist) : Prop :=
  ∀ i, ¬ Relation.TransGen n.Feeds i i

theorem mem_inputWires (hnode : n.nodes[i]? = some node) {input : NetInput}
    (hinput : input ∈ node.inputs) : .ofInput i input ∈ n.inputWires :=
  List.mem_map_of_mem (f := fun w : Nat × NetInput => Wire.ofInput w.1 w.2)
    (mem_wires_iff.mpr ⟨node, hnode, hinput⟩)

theorem feeds_of_mem_inputs (hnode : n.nodes[i]? = some node) {input : NetInput}
    (hinput : input ∈ node.inputs) : n.Feeds input.source.toNat i :=
  ⟨_, mem_inputWires hnode hinput, rfl, rfl⟩

/-- A netlist whose links lead up the ranks is acyclic. -/
theorem acyclic_of_rank (rank : Nat → Nat) (h : ∀ w ∈ n.inputWires, rank w.source < rank w.target) :
    n.Acyclic := by
  apply not_transGen_self rank
  intro source target ⟨w, hw, hsource, htarget⟩
  rw [← hsource, ← htarget]
  exact h w hw

/-- The number of nodes that feed a node, directly or through others. -/
noncomputable def rank (n : Netlist) (i : Nat) : Nat :=
  (upstreamIn (Finset.range n.size) n.Feeds i).card

theorem Acyclic.rank_lt_rank (h : n.Acyclic) (hi : i < n.size) (hfeeds : n.Feeds i j) :
    n.rank i < n.rank j :=
  card_upstreamIn_lt h (Finset.mem_range.mpr hi) hfeeds

theorem Acyclic.rank_lt_size (h : n.Acyclic) (hi : i < n.size) : n.rank i < n.size := by
  have hcard := card_upstreamIn_lt_card h (Finset.mem_range.mpr hi)
  rwa [Finset.card_range] at hcard

/-! ## Coming to rest -/

theorem evolves_iterate_round (n : Netlist) (k : Nat) : Evolves n (round^[k] n) := by
  rw [← fst_settle]
  exact evolves_settle k n

theorem getElem?_iterate_round_of_none (h : n.nodes[i]? = none) (k : Nat) :
    (round^[k] n).nodes[i]? = none := by
  rcases evolves_iterate_round n k i with ⟨-, hnone⟩ | ⟨node, state, hnode, -, -⟩
  · exact hnone
  · rw [h] at hnode
    cases hnode

theorem exists_getElem?_iterate_round (h : n.nodes[i]? = some node) (k : Nat) :
    ∃ state, (round^[k] n).nodes[i]? = some { node with state } := by
  rcases evolves_iterate_round n k i with ⟨hnone, -⟩ | ⟨old, state, hold, hnew, -⟩
  · rw [h] at hnone
    cases hnone
  · rw [h, Option.some.injEq] at hold
    subst hold
    exact ⟨state, hnew⟩

/-- The node is the same after `k` rounds and after any greater number. -/
def RestsFrom (n : Netlist) (k i : Nat) : Prop :=
  ∀ m, k ≤ m → (round^[m] n).nodes[i]? = (round^[k] n).nodes[i]?

theorem restsFrom_of_none (h : n.nodes[i]? = none) (k : Nat) : n.RestsFrom k i := by
  intro m _
  rw [getElem?_iterate_round_of_none h, getElem?_iterate_round_of_none h]

/-- A node sees no change in a node that is at rest. -/
theorem RestsFrom.seenBy_eq {k : Nat} (h : n.RestsFrom k j) (i : Nat) {m : Nat} (hm : k ≤ m) :
    (round^[m] n).seenBy i j = (round^[k] n).strength j := by
  unfold seenBy
  split
  · rw [← Function.iterate_succ_apply' round]
    exact strength_congr (h (m + 1) (by omega))
  · exact strength_congr (h m hm)

/-- A node whose sources are at rest is at rest one round later. -/
theorem restsFrom_succ {k : Nat} (hnode : n.nodes[i]? = some node)
    (hsources : ∀ input ∈ node.inputs, n.RestsFrom k input.source.toNat) :
    n.RestsFrom (k + 1) i := by
  obtain ⟨state, hstate⟩ := exists_getElem?_iterate_round hnode k
  -- from round `k` on, the node always sees the same power
  have hpower (m : Nat) (hm : k ≤ m) : powerOf ((round^[m] n).seenBy i) node.inputs =
      powerOf (round^[k] n).strength node.inputs :=
    powerOf_congr fun input hinput => (hsources input hinput).seenBy_eq i hm
  have hstep (m : Nat) (hm : k ≤ m) {s : GateState}
      (hs : (round^[m] n).nodes[i]? = some { node with state := s }) :
      (round^[m + 1] n).nodes[i]? =
        some { node with state := node.gate.settle s (powerOf (round^[k] n).strength node.inputs) } := by
    rw [Function.iterate_succ_apply', getElem?_round, hs, ← hpower m hm]
    rfl
  intro m hm
  induction m, hm using Nat.le_induction with
  | base => rfl
  | succ m hm ih =>
      rw [hstep k (Nat.le_refl k) hstate] at ih ⊢
      rw [hstep m (by omega) ih, Gate.settle_settle]

/-- After `k` rounds all nodes of rank below `k` are at rest. -/
theorem Acyclic.restsFrom (h : n.Acyclic) (k : Nat) (hi : n.rank i < k) : n.RestsFrom k i := by
  induction k generalizing i with
  | zero => omega
  | succ k ih =>
      cases hnode : n.nodes[i]? with
      | none => exact restsFrom_of_none hnode (k + 1)
      | some node =>
          refine restsFrom_succ hnode fun input hinput => ?_
          cases hsource : n.nodes[input.source.toNat]? with
          | none => exact restsFrom_of_none hsource k
          | some source =>
              have hlt := (Array.getElem?_eq_some_iff.mp hsource).1
              have hrank := h.rank_lt_rank hlt (feeds_of_mem_inputs hnode hinput)
              exact ih (by omega)

/-- As many rounds as there are nodes lead to a steady state. -/
theorem Acyclic.steady_iterate_round (h : n.Acyclic) : (round^[n.size] n).Steady := by
  rw [steady_iff_round_eq, ← Function.iterate_succ_apply' round]
  refine congrArg Netlist.mk (Array.ext_getElem? fun i => ?_)
  have hrests : n.RestsFrom n.size i := by
    cases hnode : n.nodes[i]? with
    | none => exact restsFrom_of_none hnode n.size
    | some node =>
        have hlt := (Array.getElem?_eq_some_iff.mp hnode).1
        exact h.restsFrom n.size (h.rank_lt_size hlt)
  exact hrests (n.size + 1) (by omega)

theorem Acyclic.settle_eq (h : n.Acyclic) :
    settle (n.size + 1) n = (round^[n.size] n, true) :=
  settle_of_steady h.steady_iterate_round (by omega)

/-! ## Other numbers and other states -/

/-- The link with the numbers of both ends replaced. -/
def Wire.renumber (π : Equiv.Perm Nat) (w : Wire) : Wire :=
  { w with source := π w.source, target := π w.target }

/-- The netlist `n'` has the gates and the links of `n`, and node `i` of `n` is node `π i` of `n'`.
The states of both may be any. -/
structure Renumbers (π : Equiv.Perm Nat) (n n' : Netlist) : Prop where
  gates : ∀ i, (n'.nodes[π i]?.map fun node => node.gate) = n.nodes[i]?.map fun node => node.gate
  links : n'.inputWires.Perm (n.inputWires.map (.renumber π))

theorem Evolves.inputWires_eq (h : Evolves n n') : n'.inputWires = n.inputWires := by
  have hwires (m : Netlist) : m.wires = (m.nodes.toList.map (fun node => node.inputs)).zipIdx.flatMap
      fun p => p.1.map (p.2, ·) := by
    rw [List.zipIdx_map, List.flatMap_map]
    rfl
  rw [inputWires, inputWires, hwires, hwires, h.map_eq fun _ _ => rfl]

theorem Evolves.gate_eq (h : Evolves n n') (i : Nat) :
    (n'.nodes[i]?.map fun node => node.gate) = n.nodes[i]?.map fun node => node.gate := by
  rcases h i with ⟨hnone, hnone'⟩ | ⟨node, state, hnode, hnode', -⟩
  · rw [hnone, hnone']
  · rw [hnode, hnode']
    rfl

theorem Evolves.acyclic (h : Evolves n n') (hacyclic : n.Acyclic) : n'.Acyclic := by
  unfold Acyclic Feeds
  rw [h.inputWires_eq]
  exact hacyclic

theorem Evolves.exists_mem (h : Evolves n n') (hnode : node ∈ n'.nodes) :
    ∃ old ∈ n.nodes, old.gate = node.gate ∧ old.inputs = node.inputs := by
  obtain ⟨i, hi⟩ := Array.mem_iff_getElem?.mp hnode
  rcases h i with ⟨-, hnone⟩ | ⟨old, state, hold, hnew, -⟩
  · rw [hi] at hnone
    cases hnone
  · rw [hi, Option.some.injEq] at hnew
    subst hnew
    exact ⟨old, Array.mem_of_getElem? hold, rfl, rfl⟩

namespace Renumbers

variable {π : Equiv.Perm Nat} {m m' : Netlist}

/-- Evaluation on both sides makes no difference. -/
theorem of_evolves (h : Renumbers π n n') (hm : Evolves n m) (hm' : Evolves n' m') :
    Renumbers π m m' where
  gates := by
    intro i
    rw [hm'.gate_eq, hm.gate_eq, h.gates]
  links := by
    rw [hm'.inputWires_eq, hm.inputWires_eq]
    exact h.links

theorem acyclic (h : Renumbers π n n') (hacyclic : n.Acyclic) : n'.Acyclic := by
  intro i hloop
  apply hacyclic (π.symm i)
  refine hloop.lift π.symm fun source target hfeeds => ?_
  obtain ⟨w', hw', rfl, rfl⟩ := hfeeds
  obtain ⟨w, hw, rfl⟩ := List.mem_map.mp (h.links.mem_iff.mp hw')
  exact ⟨w, hw, (π.symm_apply_apply _).symm, (π.symm_apply_apply _).symm⟩

theorem exists_node (h : Renumbers π n n') (hnode : n.nodes[i]? = some node) :
    ∃ node', n'.nodes[π i]? = some node' ∧ node'.gate = node.gate := by
  have hgate := h.gates i
  rw [hnode, Option.map_some] at hgate
  exact Option.map_eq_some_iff.mp hgate

theorem strength_of_none (h : Renumbers π n n') (hnone : n.nodes[i]? = none) :
    n'.strength (π i) = n.strength i := by
  have hgate := h.gates i
  rw [hnone, Option.map_none, Option.map_eq_none_iff] at hgate
  simp [strength, hnone, hgate]

/-- A node has the same power under both numbers if its sources put out the same. -/
theorem powerOf_eq (h : Renumbers π n n') {node' : NetNode} (hnode : n.nodes[i]? = some node)
    (hnode' : n'.nodes[π i]? = some node')
    (hsources : ∀ input ∈ node.inputs,
      n'.strength (π input.source.toNat) = n.strength input.source.toNat) :
    powerOf n'.strength node'.inputs = powerOf n.strength node.inputs := by
  have htarget (w : Wire) : (w.renumber π).target = π i ↔ w.target = i := π.injective.eq_iff
  have hlinks : (node'.inputs.map (Wire.ofInput (π i))).Perm
      ((node.inputs.map (Wire.ofInput i)).map (Wire.renumber π)) := by
    rw [← filter_inputWires hnode', ← filter_inputWires hnode]
    have hperm := h.links.filter fun w => w.target == π i
    rw [List.filter_map] at hperm
    simpa only [Function.comp_def, beq_eq_decide, htarget] using hperm
  rw [powerOf_eq_foldl_carry n' node'.inputs (π i), hlinks.foldl_eq, List.map_map, List.foldl_map,
    powerOf_eq_foldl_carry n node.inputs i, List.foldl_map]
  refine List.foldl_ext _ _ _ fun p input hinput => ?_
  change p.receive _ (attenuate (n'.strength (π input.source.toNat)) _) =
    p.receive _ (attenuate (n.strength input.source.toNat) _)
  rw [hsources input hinput]
  rfl

end Renumbers

/-! ## One steady state -/

/-- No repeater has a side input. -/
def Unlatched (n : Netlist) : Prop :=
  ∀ node ∈ n.nodes, node.gate.type = .repeater → ∀ input ∈ node.inputs, input.channel ≠ .side

instance (n : Netlist) : Decidable n.Unlatched :=
  inferInstanceAs (Decidable (∀ node ∈ n.nodes, _))

/-- All types are defined ones. -/
def Defined (n : Netlist) : Prop :=
  ∀ node ∈ n.nodes, node.gate.type.isDefined = true

instance (n : Netlist) : Decidable n.Defined :=
  inferInstanceAs (Decidable (∀ node ∈ n.nodes, _))

/-- Constants and switches put out the same under both numbers. -/
def SameSources (π : Equiv.Perm Nat) (n n' : Netlist) : Prop :=
  ∀ (i : Nat) (node : NetNode), n.nodes[i]? = some node → node.gate.type.isSource = true →
    n'.strength (π i) = n.strength i

theorem Defined.of_evolves (h : n.Defined) (hevolves : Evolves n n') : n'.Defined := by
  intro node hnode
  obtain ⟨old, hold, hgate, -⟩ := hevolves.exists_mem hnode
  rw [← hgate]
  exact h old hold

theorem Unlatched.of_evolves (h : n.Unlatched) (hevolves : Evolves n n') : n'.Unlatched := by
  intro node hnode
  obtain ⟨old, hold, hgate, hinputs⟩ := hevolves.exists_mem hnode
  rw [← hgate, ← hinputs]
  exact h old hold

theorem strength_settle_of_isSource (hnode : n.nodes[i]? = some node)
    (hsource : node.gate.type.isSource = true) (rounds : Nat) :
    (settle rounds n).1.strength i = n.strength i := by
  apply strength_congr
  rw [getElem?_settle_of_isSource hnode hsource, hnode]

theorem SameSources.settle {π : Equiv.Perm Nat} (h : SameSources π n n') (hnumbers : Renumbers π n n')
    (rounds rounds' : Nat) : SameSources π (settle rounds n).1 (settle rounds' n').1 := by
  intro i node hnode hsource
  rcases evolves_settle rounds n i with ⟨-, hnone⟩ | ⟨old, state, hold, hnew, -⟩
  · rw [hnode] at hnone
    cases hnone
  · rw [hnode, Option.some.injEq] at hnew
    subst hnew
    obtain ⟨old', hold', hgate⟩ := hnumbers.exists_node hold
    rw [strength_settle_of_isSource hold hsource, strength_settle_of_isSource hold' (hgate ▸ hsource)]
    exact h i old hold hsource

/-- The nodes of `n'` put out what the nodes of `n` do, and those that are evaluated are powered alike,
node `i` of `n` being node `π i` of `n'`. -/
def Matches (π : Equiv.Perm Nat) (n n' : Netlist) : Prop :=
  ∀ (i : Nat) (node : NetNode), n.nodes[i]? = some node →
    ∃ node', n'.nodes[π i]? = some node' ∧ node'.state.strength = node.state.strength ∧
      (node.gate.type.isSource = false → node'.state.powered = node.state.powered)

section Unique

variable {π : Equiv.Perm Nat} (h : Renumbers π n n') (hsteady : n.Steady) (hsteady' : n'.Steady)
  (hdefined : n.Defined) (hunlatched : n.Unlatched)

include h hsteady hsteady' hdefined hunlatched

/-- In steady states, a node that is evaluated has the strength and the power flag that follow from
its sources. -/
theorem Steady.state_eq {node' : NetNode} (hnode : n.nodes[i]? = some node)
    (hnode' : n'.nodes[π i]? = some node') (hgate : node'.gate = node.gate)
    (hsource : node.gate.type.isSource = false)
    (hsources : ∀ input ∈ node.inputs,
      n'.strength (π input.source.toNat) = n.strength input.source.toNat) :
    node'.state.strength = node.state.strength ∧ node'.state.powered = node.state.powered := by
  have hmem := Array.mem_of_getElem? hnode
  have hrest := hsteady.nextState_eq hnode
  have hrest' := hsteady'.nextState_eq hnode'
  rw [nextState, h.powerOf_eq hnode hnode' hsources, hgate] at hrest'
  rw [nextState] at hrest
  have hforgets := Gate.settle_forgets (hdefined node hmem) hsource
    (fun htype => side_powerOf_eq_zero n.strength (hunlatched node hmem htype)) node'.state node.state
  rwa [hrest, hrest'] at hforgets

/-- The strengths of a steady state follow from those of constants and switches. -/
theorem Steady.strength_eq (hacyclic : n.Acyclic) (hsame : SameSources π n n') (i : Nat) :
    n'.strength (π i) = n.strength i := by
  induction hrank : n.rank i using Nat.strong_induction_on generalizing i with
  | _ r ih =>
      cases hnode : n.nodes[i]? with
      | none => exact h.strength_of_none hnode
      | some node =>
          cases hsource : node.gate.type.isSource with
          | true => exact hsame i node hnode hsource
          | false =>
              obtain ⟨node', hnode', hgate⟩ := h.exists_node hnode
              rw [strength_of_getElem? hnode, strength_of_getElem? hnode']
              refine (hsteady.state_eq h hsteady' hdefined hunlatched hnode hnode' hgate hsource
                fun input hinput => ?_).1
              cases hinner : n.nodes[input.source.toNat]? with
              | none => exact h.strength_of_none hinner
              | some source =>
                  have hlt := (Array.getElem?_eq_some_iff.mp hinner).1
                  have hless := hacyclic.rank_lt_rank hlt (feeds_of_mem_inputs hnode hinput)
                  exact ih _ (by omega) _ rfl

theorem Steady.matches (hacyclic : n.Acyclic) (hsame : SameSources π n n') : Matches π n n' := by
  have hstrength := hsteady.strength_eq h hsteady' hdefined hunlatched hacyclic hsame
  intro i node hnode
  obtain ⟨node', hnode', hgate⟩ := h.exists_node hnode
  refine ⟨node', hnode', ?_, fun hsource => ?_⟩
  · rw [← strength_of_getElem? hnode, ← strength_of_getElem? hnode', hstrength]
  · exact (hsteady.state_eq h hsteady' hdefined hunlatched hnode hnode' hgate hsource
      fun input _ => hstrength input.source.toNat).2

end Unique

/-- A netlist without loops settles in one round more than it has nodes.  Without latches it settles
to the same strengths under all numbers of its nodes and from all states that have the same strengths
of constants and switches. -/
theorem acyclic_netlists_settle (n : Netlist) (hacyclic : n.Acyclic) :
    (settle (n.size + 1) n).2 = true ∧
    (n.Defined → n.Unlatched → ∀ (π : Equiv.Perm Nat) (n' : Netlist), Renumbers π n n' →
      SameSources π n n' →
      Matches π (settle (n.size + 1) n).1 (settle (n'.size + 1) n').1) := by
  have hsettles {m : Netlist} (hm : m.Acyclic) : (settle (m.size + 1) m).1.Steady := by
    rw [hm.settle_eq]
    exact hm.steady_iterate_round
  refine ⟨by rw [hacyclic.settle_eq], fun hdefined hunlatched π n' hnumbers hsame => ?_⟩
  have hevolves := evolves_settle (n.size + 1) n
  have hevolves' := evolves_settle (n'.size + 1) n'
  exact (hsettles hacyclic).matches (hnumbers.of_evolves hevolves hevolves')
    (hsettles (hnumbers.acyclic hacyclic)) (hdefined.of_evolves hevolves)
    (hunlatched.of_evolves hevolves) (hevolves.acyclic hacyclic) (hsame.settle hnumbers _ _)

/-- A lever that is off puts a torch on, and a comparator hands the signal of the torch to a lamp.
Everything stands behind what it feeds on, and nothing is evaluated yet. -/
def lampFirst : Netlist where
  nodes := #[
    { gate := .plain .lamp, inputs := [{ channel := .main, loss := 1, source := 3 }] },
    { gate := .plain .torch, inputs := [{ channel := .main, loss := 0, source := 2 }] },
    { gate := .plain .lever },
    { gate := .comparator .subtract false
      inputs := [{ channel := .main, loss := 2, source := 1 },
        { channel := .side, loss := 3, source := 2 }] } ]

/-- The same netlist with the numbers of the lamp and the lever exchanged, in other states. -/
def leverFirst : Netlist where
  nodes := #[
    { gate := .plain .lever, state := { powered := true } },
    { gate := .plain .torch, inputs := [{ channel := .main, loss := 0, source := 0 }]
      state := .ofStrength 3 },
    { gate := .plain .lamp, inputs := [{ channel := .main, loss := 1, source := 3 }]
      state := .ofStrength 15 },
    { gate := .comparator .subtract false, state := .ofStrength 9
      inputs := [{ channel := .side, loss := 3, source := 0 },
        { channel := .main, loss := 2, source := 1 }] } ]

theorem acyclic_lampFirst : lampFirst.Acyclic :=
  acyclic_of_rank (fun i => [3, 1, 0, 2].getD i 0) (by decide)

theorem renumbers_lampFirst : Renumbers (Equiv.swap 0 2) lampFirst leverFirst where
  gates := by
    intro i
    rcases i with _ | _ | _ | _ | i
    case succ.succ.succ.succ =>
      rw [Equiv.swap_apply_of_ne_of_ne (by omega) (by omega)]
      rfl
    all_goals decide
  links := by decide

/-- Only the lever counts, and it is off in both. -/
theorem sameSources_lampFirst : SameSources (Equiv.swap 0 2) lampFirst leverFirst := by
  intro i node hnode hsource
  rcases i with _ | _ | _ | _ | i <;> cases hnode
  case succ.succ.zero => rfl
  all_goals cases hsource

/-- From both orders and from both states the lamp comes to the same light. -/
theorem acyclic_netlists_settle_lampFirst :
    (settle 5 lampFirst).2 = true ∧ (settle 5 lampFirst).1.strength 0 = 12 ∧
      Matches (Equiv.swap 0 2) (settle 5 lampFirst).1 (settle 5 leverFirst).1 := by
  obtain ⟨hsettled, hunique⟩ := acyclic_netlists_settle lampFirst acyclic_lampFirst
  have hlamp : (settle 5 lampFirst).1.strength 0 = 12 := by decide +kernel
  exact ⟨hsettled, hlamp,
    hunique (by decide) (by decide) _ _ renumbers_lampFirst sameSources_lampFirst⟩

end Netlist

end Redstone
