import Mathlib.Logic.Function.Iterate
import Redstone.Proofs.Circuit.Balance
import Redstone.Proofs.Netlist.Settle

/-!
# Rounds of evaluation

A round evaluates the nodes in place, one after the other.  When it comes to a node, the nodes before
it are already in the states of the end of the round, and all others are still in those of its start.
As every node is evaluated once, a round that changes nothing has found all nodes at rest at the same
time.

Settling repeats rounds.  It stops when a round has changed nothing, but no further round would change
anything then, so that it always makes of a netlist what the given number of rounds makes of it.
-/

namespace Redstone

/-- Constants and switches keep their state. -/
theorem Gate.settle_of_isSource {k : Gate} (h : k.type.isSource = true) (s : GateState) (p : Power) :
    k.settle s p = s := by
  cases htype : k.type <;> simp_all [Gate.settle, GateType.isSource, GateType.isSwitch]

namespace Netlist

variable {n n' : Netlist} {node : NetNode} {i : Nat}

/-- Every node stays in its state under the power that it has. -/
def Steady (n : Netlist) : Prop :=
  ∀ (i : Nat) (node : NetNode), n.nodes[i]? = some node →
    ∃ p, n.inputPower i = .ok p ∧ node.gate.settle node.state p = node.state

/-- Some node is in another state in `n'` than in `n`. -/
def Differs (n n' : Netlist) : Prop :=
  ∃ (i : Nat) (node node' : NetNode), n.nodes[i]? = some node ∧ n'.nodes[i]? = some node' ∧
    node'.state ≠ node.state

theorem inputPower_eq (h : n.nodes[i]? = some node) :
    n.inputPower i = .ok (powerOf n.strength node.inputs) := by
  simp [inputPower, inputPower?, h]

theorem Steady.nextState_eq (h : n.Steady) (hnode : n.nodes[i]? = some node) :
    n.nextState node = node.state := by
  obtain ⟨p, hp, hsettle⟩ := h i node hnode
  rw [inputPower_eq hnode, Except.ok.injEq] at hp
  rw [nextState, hp]
  exact hsettle

/-! ## One round -/

theorem strength_congr (h : n'.nodes[i]? = n.nodes[i]?) : n'.strength i = n.strength i := by
  simp [strength, h]

/-- The strengths that node `i` sees in a round: those at the end of the round for the nodes before
it, and those at its start for the others. -/
def seenBy (n : Netlist) (i j : Nat) : UInt8 :=
  if j < i then n.round.strength j else n.strength j

theorem exists_range_eq {k : Nat} (h : i < k) :
    ∃ rest, List.range k = List.range i ++ i :: rest ∧ ∀ j ∈ rest, i < j := by
  obtain ⟨d, rfl⟩ : ∃ d, k = i + (d + 1) := ⟨k - i - 1, by omega⟩
  refine ⟨(List.range d).map (i + ·.succ), ?_, ?_⟩
  · simp [List.range_add, List.range_succ_eq_map]
  · intro j hj
    obtain ⟨m, -, rfl⟩ := List.mem_map.mp hj
    omega

/-- A round gives every node the state that follows from what it sees. -/
theorem getElem?_round (n : Netlist) (i : Nat) :
    n.round.nodes[i]? = n.nodes[i]?.map fun node =>
      { node with state := node.gate.settle node.state (powerOf (n.seenBy i) node.inputs) } := by
  cases hnode : n.nodes[i]? with
  | none =>
      have hi : i ∉ List.range n.size := by
        simpa [size] using hnode
      rw [round, getElem?_foldl_update _ hi, hnode]
      rfl
  | some node =>
      have hlt : i < n.size := (Array.getElem?_eq_some_iff.mp hnode).1
      obtain ⟨rest, hrange, hrest⟩ := exists_range_eq hlt
      have hround : n.round = rest.foldl update (((List.range i).foldl update n).update i) := by
        rw [round, hrange, List.foldl_append, List.foldl_cons]
      -- the netlist when it is the turn of node `i`
      generalize hmid : (List.range i).foldl update n = mid at hround
      have hmidNode : mid.nodes[i]? = some node := by
        rw [← hmid, getElem?_foldl_update _ (by simp), hnode]
      have hseen (j : Nat) : mid.strength j = n.seenBy i j := by
        unfold seenBy
        split
        case isTrue hj =>
          have hlater : j ∉ rest := fun hmem => by
            have := hrest j hmem
            omega
          refine (strength_congr ?_).symm
          rw [hround, getElem?_foldl_update _ hlater, getElem?_update_of_ne (by omega)]
        case isFalse hj =>
          refine strength_congr ?_
          rw [← hmid, getElem?_foldl_update _ (by simpa using hj)]
      have hlater : i ∉ rest := fun hmem => by
        have := hrest i hmem
        omega
      rw [hround, getElem?_foldl_update _ hlater, getElem?_update hmidNode, if_pos rfl, nextState,
        funext hseen]
      rfl

theorem foldl_update_eq_self {order : List Nat} (h : ∀ i, n.update i = n) :
    order.foldl update n = n := by
  induction order with
  | nil => rfl
  | cons i order ih => rw [List.foldl_cons, h i, ih]

/-- The steady netlists are those that a round does not change. -/
theorem steady_iff_round_eq : n.Steady ↔ n.round = n := by
  constructor
  · intro h
    apply foldl_update_eq_self
    intro i
    cases hnode : n.nodes[i]? with
    | none => exact update_of_none hnode
    | some node =>
        apply update_eq_self
        rw [getElem?_update hnode, if_pos rfl, h.nextState_eq hnode, hnode]
  · intro h i node hnode
    exact ⟨_, inputPower_eq hnode, nextState_eq_of_round h hnode⟩

/-- A round that changes the netlist changes the state of a node. -/
theorem differs_of_round_ne (h : n.round ≠ n) : Differs n n.round := by
  by_contra hsame
  have hnodes (i : Nat) : n.round.nodes[i]? = n.nodes[i]? := by
    cases hnode : n.nodes[i]? with
    | none =>
        rw [getElem?_round, hnode]
        rfl
    | some node =>
        have hnext := getElem?_round n i
        rw [hnode, Option.map_some] at hnext
        have hstate : node.gate.settle node.state (powerOf (n.seenBy i) node.inputs) = node.state := by
          by_contra hne
          exact hsame ⟨i, node, _, hnode, hnext, hne⟩
        rw [hnext, hstate]
  exact h (congrArg Netlist.mk (Array.ext_getElem? hnodes))

/-! ## Settling -/

theorem iterate_round_eq {k m : Nat} (h : (round^[k] n).Steady) (hkm : k ≤ m) :
    round^[m] n = round^[k] n := by
  obtain ⟨d, rfl⟩ := Nat.exists_eq_add_of_le' hkm
  rw [Function.iterate_add_apply]
  exact Function.iterate_fixed (steady_iff_round_eq.mp h) d

/-- Settling comes to the same as all of its rounds. -/
theorem fst_settle (rounds : Nat) (n : Netlist) : (settle rounds n).1 = round^[rounds] n := by
  induction rounds generalizing n with
  | zero => rfl
  | succ rounds ih =>
      rw [settle, Function.iterate_succ_apply]
      split
      case isTrue hsame =>
        rw [hsame]
        exact (Function.iterate_fixed hsame rounds).symm
      case isFalse => exact ih n.round

/-- Settling succeeds exactly if the start of one of its rounds is steady. -/
theorem snd_settle_iff (rounds : Nat) (n : Netlist) :
    (settle rounds n).2 = true ↔ ∃ k < rounds, (round^[k] n).Steady := by
  induction rounds generalizing n with
  | zero => simp [settle]
  | succ rounds ih =>
      rw [settle]
      split
      case isTrue hsame =>
        simp only [true_iff]
        exact ⟨0, by omega, steady_iff_round_eq.mpr hsame⟩
      case isFalse hchange =>
        rw [ih]
        constructor
        · rintro ⟨k, hk, hsteady⟩
          exact ⟨k + 1, by omega, hsteady⟩
        · rintro ⟨k, hk, hsteady⟩
          cases k with
          | zero => exact absurd (steady_iff_round_eq.mp hsteady) hchange
          | succ k => exact ⟨k, by omega, hsteady⟩

/-- Settling stops in the first steady state. -/
theorem settle_of_steady {k rounds : Nat} (h : (round^[k] n).Steady) (hk : k < rounds) :
    settle rounds n = (round^[k] n, true) := by
  apply Prod.ext
  · rw [fst_settle, iterate_round_eq h (by omega)]
  · rw [snd_settle_iff]
    exact ⟨k, hk, h⟩

/-- Constants and switches come out of settling as they are. -/
theorem getElem?_settle_of_isSource (h : n.nodes[i]? = some node)
    (hsource : node.gate.type.isSource = true) (rounds : Nat) :
    (settle rounds n).1.nodes[i]? = some node := by
  refine settle_keeps (P := fun m => m.nodes[i]? = some node) (fun m j hm => ?_) rounds h
  by_cases hij : j = i
  · subst hij
    rw [getElem?_update hm, if_pos rfl, nextState, Gate.settle_of_isSource hsource]
  · rw [getElem?_update_of_ne hij, hm]

/-- Settling succeeds only in a steady state and stays there.  After success all nodes are at rest,
settling once more changes nothing, and neither does a greater number of rounds.  After failure every
one of the rounds has changed a node.  In any case settling comes to the same as its rounds, it changes
states only, and it leaves constants and switches alone. -/
theorem settling_ends_steady (n : Netlist) (rounds : Nat) :
    ((settle rounds n).2 = true →
      (settle rounds n).1.Steady ∧
      (∀ k, 1 ≤ k → settle k (settle rounds n).1 = ((settle rounds n).1, true)) ∧
      ∀ m, rounds ≤ m → settle m n = settle rounds n) ∧
    ((settle rounds n).2 = false → ∀ k < rounds, Differs (round^[k] n) (round^[k + 1] n)) ∧
    (settle rounds n).1 = round^[rounds] n ∧
    Evolves n (settle rounds n).1 ∧
    ∀ (i : Nat) (node : NetNode), n.nodes[i]? = some node → node.gate.type.isSource = true →
      (settle rounds n).1.nodes[i]? = some node := by
  refine ⟨fun hsettled => ?_, fun hunsettled k hk => ?_, fst_settle rounds n,
    evolves_settle rounds n, fun i node hnode hsource => getElem?_settle_of_isSource hnode hsource _⟩
  · obtain ⟨k, hk, hsteady⟩ := (snd_settle_iff rounds n).mp hsettled
    rw [settle_of_steady hsteady hk]
    refine ⟨hsteady, fun m hm => ?_, fun m hm => ?_⟩
    · exact settle_of_steady (k := 0) hsteady hm
    · exact settle_of_steady hsteady (by omega)
  · rw [Function.iterate_succ_apply']
    apply differs_of_round_ne
    intro hsame
    have hsettled := (snd_settle_iff rounds n).mpr ⟨k, hk, steady_iff_round_eq.mpr hsame⟩
    rw [hunsettled] at hsettled
    cases hsettled

/-- Two torches, each of which puts the other out.  Both are still dark. -/
def crossedTorches : Netlist where
  nodes := #[
    { gate := .plain .torch, inputs := [{ channel := .main, loss := 0, source := 1 }] },
    { gate := .plain .torch, inputs := [{ channel := .main, loss := 0, source := 0 }] } ]

/-- A torch that puts itself out. -/
def flickeringTorch : Netlist where
  nodes := #[{ gate := .plain .torch, inputs := [{ channel := .main, loss := 0, source := 0 }] }]

/-- The torch that is evaluated first wins, and the other one never lights up; a single torch in a loop
changes in every round. -/
theorem settling_ends_steady_torches :
    (settle 2 crossedTorches).2 = true ∧ (settle 2 crossedTorches).1.Steady ∧
      (∀ m, 2 ≤ m → settle m crossedTorches = settle 2 crossedTorches) ∧
      (settle 9 flickeringTorch).2 = false ∧
      ∀ k < 9, Differs (round^[k] flickeringTorch) (round^[k + 1] flickeringTorch) := by
  have hsettled : (settle 2 crossedTorches).2 = true := by decide
  have hunsettled : (settle 9 flickeringTorch).2 = false := by decide
  obtain ⟨hsteady, -, hlater⟩ := (settling_ends_steady crossedTorches 2).1 hsettled
  exact ⟨hsettled, hsteady, hlater, hunsettled, (settling_ends_steady flickeringTorch 9).2.1 hunsettled⟩

end Netlist

end Redstone
