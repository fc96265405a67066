import Mathlib.Data.List.Nodup
import Redstone.Netlist.Settle
import Redstone.Proofs.Circuit.Power

/-!
# Settled netlists

Evaluation changes the states of nodes and nothing else, and it leaves constants alone.  When a
round changes nothing, every single evaluation in it has changed nothing: a node is evaluated once
in a round, so a change would still be there at its end.
-/

namespace Redstone.Netlist

variable {n n' : Netlist} {node : NetNode} {i j : Nat}

theorem strength_of_getElem? (h : n.nodes[i]? = some node) : n.strength i = node.state.strength := by
  rw [strength, h]
  rfl

/-! ## One evaluation -/

/-- All that an evaluation can do: nothing, or give the node its next state. -/
theorem getElem?_update (h : n.nodes[i]? = some node) (j : Nat) :
    (n.update i).nodes[j]? =
      if i = j then some { node with state := n.nextState node } else n.nodes[j]? := by
  unfold update
  rw [h]
  dsimp only
  split
  case isTrue hsame =>
    split
    case isTrue hij =>
      subst hij
      rw [hsame, h]
    case isFalse => rfl
  case isFalse =>
    dsimp only
    rw [Array.getElem?_setIfInBounds]
    have hlt : i < n.nodes.size := (Array.getElem?_eq_some_iff.mp h).1
    rw [if_pos hlt]

theorem update_of_none (h : n.nodes[i]? = none) : n.update i = n := by
  unfold update
  rw [h]

theorem getElem?_update_of_ne (hne : i ≠ j) : (n.update i).nodes[j]? = n.nodes[j]? := by
  cases h : n.nodes[i]? with
  | none => rw [update_of_none h]
  | some node => rw [getElem?_update h, if_neg hne]

/-- An evaluation that leaves its node as it is changes nothing. -/
theorem update_eq_self (h : (n.update i).nodes[i]? = n.nodes[i]?) : n.update i = n := by
  cases hnode : n.nodes[i]? with
  | none => exact update_of_none hnode
  | some node =>
      rw [getElem?_update hnode, if_pos rfl, hnode, Option.some.injEq] at h
      have hstate : n.nextState node = node.state := congrArg (fun m : NetNode => m.state) h
      unfold update
      rw [hnode]
      dsimp only
      rw [if_pos hstate]

theorem nextState_eq_of_update (h : n.update i = n) (hnode : n.nodes[i]? = some node) :
    n.nextState node = node.state := by
  have hupdate := getElem?_update hnode i
  rw [h, if_pos rfl, hnode, Option.some.injEq] at hupdate
  exact (congrArg (fun m : NetNode => m.state) hupdate).symm

/-! ## A round -/

theorem getElem?_foldl_update (order : List Nat) (hj : j ∉ order) :
    (order.foldl update n).nodes[j]? = n.nodes[j]? := by
  induction order generalizing n with
  | nil => rfl
  | cons i order ih =>
      obtain ⟨hne, hj⟩ := not_or.mp (mt List.mem_cons.mpr hj)
      rw [List.foldl_cons, ih hj, getElem?_update_of_ne (Ne.symm hne)]

/-- If evaluating nodes once each leaves the netlist as it is, so does each of the evaluations. -/
theorem update_eq_of_foldl_update {order : List Nat} (hnodup : order.Nodup)
    (h : order.foldl update n = n) : ∀ i ∈ order, n.update i = n := by
  induction order with
  | nil => nofun
  | cons i order ih =>
      obtain ⟨hi, hnodup⟩ := List.nodup_cons.mp hnodup
      rw [List.foldl_cons] at h
      -- no later evaluation touches node `i` again
      have hfirst : n.update i = n := by
        apply update_eq_self
        rw [← getElem?_foldl_update order hi, h]
      rw [hfirst] at h
      intro j hj
      rcases List.mem_cons.mp hj with rfl | hj
      · exact hfirst
      · exact ih hnodup h j hj

/-- In a netlist that a round does not change, every node stays in its state. -/
theorem nextState_eq_of_round (h : n.round = n) (hnode : n.nodes[i]? = some node) :
    n.nextState node = node.state := by
  have hlt : i < n.nodes.size := (Array.getElem?_eq_some_iff.mp hnode).1
  refine nextState_eq_of_update ?_ hnode
  exact update_eq_of_foldl_update List.nodup_range h i (List.mem_range.mpr hlt)

/-! ## Settling -/

/-- A netlist that has settled is not changed by another round. -/
theorem round_eq_of_settle {rounds : Nat} (h : settle rounds n = (n', true)) : n'.round = n' := by
  induction rounds generalizing n with
  | zero => cases h
  | succ rounds ih =>
      rw [settle] at h
      split at h
      case isTrue hsame =>
        rw [Prod.mk.injEq] at h
        rw [← h.1, hsame, hsame]
      case isFalse => exact ih h

/-- What every evaluation keeps is kept by settling. -/
theorem settle_keeps {P : Netlist → Prop} (hupdate : ∀ n i, P n → P (n.update i)) (rounds : Nat)
    (h : P n) : P (settle rounds n).1 := by
  have hround (n : Netlist) (hn : P n) : P n.round := by
    have hfold (order : List Nat) {n : Netlist} (hn : P n) : P (order.foldl update n) := by
      induction order generalizing n with
      | nil => exact hn
      | cons i order ih => exact ih (hupdate n i hn)
    exact hfold _ hn
  induction rounds generalizing n with
  | zero => exact h
  | succ rounds ih =>
      rw [settle]
      split
      · exact hround n h
      · exact ih (hround n h)

/-- The netlist `n'` comes from `n` by evaluations: nodes differ in their states only, and
constants not at all. -/
def Evolves (n n' : Netlist) : Prop :=
  ∀ i : Nat, (n.nodes[i]? = none ∧ n'.nodes[i]? = none) ∨
    ∃ (node : NetNode) (state : GateState), n.nodes[i]? = some node ∧
      n'.nodes[i]? = some { node with state } ∧ (node.gate.isConstant = true → state = node.state)

theorem Evolves.refl (n : Netlist) : Evolves n n := by
  intro i
  cases h : n.nodes[i]? with
  | none => exact .inl ⟨rfl, rfl⟩
  | some node => exact .inr ⟨node, node.state, rfl, rfl, fun _ => rfl⟩

theorem Evolves.update (h : Evolves n n') (j : Nat) : Evolves n (n'.update j) := by
  intro i
  rcases h i with ⟨hnone, hnone'⟩ | ⟨node, state, hnode, hnode', hconst⟩
  · refine .inl ⟨hnone, ?_⟩
    by_cases hij : j = i
    · rw [hij, update_of_none hnone', hnone']
    · rw [getElem?_update_of_ne hij, hnone']
  · by_cases hij : j = i
    · subst hij
      refine .inr ⟨node, _, hnode, (getElem?_update hnode' j).trans (if_pos rfl), fun hc => ?_⟩
      exact (Gate.settle_of_isConstant hc _ _).trans (hconst hc)
    · exact .inr ⟨node, state, hnode, (getElem?_update_of_ne hij).trans hnode', hconst⟩

theorem evolves_settle (rounds : Nat) (n : Netlist) : Evolves n (settle rounds n).1 :=
  settle_keeps (P := Evolves n) (fun _ j h => h.update j) rounds (.refl n)

/-- What does not depend on the states of nodes is the same after evaluations. -/
theorem Evolves.map_eq {α : Type} (h : Evolves n n') {f : NetNode → α}
    (hf : ∀ (node : NetNode) (state : GateState), f { node with state } = f node) :
    n'.nodes.toList.map f = n.nodes.toList.map f := by
  apply List.ext_getElem?
  intro i
  rw [List.getElem?_map, List.getElem?_map, Array.getElem?_toList, Array.getElem?_toList]
  rcases h i with ⟨hnone, hnone'⟩ | ⟨node, state, hnode, hnode', -⟩
  · rw [hnone, hnone']
  · rw [hnode, hnode', Option.map_some, Option.map_some, hf]

/-- Evaluation does not change which node stands for a position. -/
theorem Evolves.lookup_eq (h : Evolves n n') (p : Position) : n'.lookup p = n.lookup p := by
  have hlookup (m : Netlist) : m.lookup p =
      (m.nodes.toList.map (fun node => node.blocks)).findIdx?
        fun blocks => blocks.any fun b => b.position == p := by
    rw [List.findIdx?_map]
    rfl
  rw [hlookup, hlookup, h.map_eq fun _ _ => rfl]

/-! ## Strengths stay in range -/

/-- All strengths and far inputs are signals. -/
def Bounded (n : Netlist) : Prop :=
  ∀ (i : Nat) (node : NetNode), n.nodes[i]? = some node → node.state.strength ≤ maxStrength ∧
    (node.gate.hasFarInput = true → node.gate.farInput ≤ maxStrength)

theorem Bounded.strength_le (h : Bounded n) (i : Nat) : n.strength i ≤ maxStrength := by
  cases hnode : n.nodes[i]? with
  | none =>
      rw [strength, hnode]
      decide
  | some node =>
      rw [strength_of_getElem? hnode]
      exact (h i node hnode).1

theorem main_powerOf_le {σ : Nat → UInt8} (hσ : ∀ i, σ i ≤ maxStrength) (inputs : List NetInput) :
    (powerOf σ inputs).main ≤ maxStrength := by
  have hfold {p : Power} (hp : p.at false ≤ maxStrength) :
      (inputs.foldl (fun p i => p.receive i.channel (attenuate (σ i.source.toNat) i.loss))
        p).at false ≤ maxStrength := by
    induction inputs generalizing p with
    | nil => exact hp
    | cons input inputs ih =>
        apply ih
        rw [Power.at_receive]
        split
        · exact max_le_iff.mpr ⟨hp, UInt8.le_trans (attenuate_le _ _) (hσ _)⟩
        · exact hp
  exact hfold (by decide)

theorem Bounded.update (h : Bounded n) (i : Nat) : Bounded (n.update i) := by
  intro j node hnode
  by_cases hij : i = j
  · subst hij
    cases hold : n.nodes[i]? with
    | none =>
        rw [update_of_none hold] at hnode
        exact h i node hnode
    | some old =>
        rw [getElem?_update hold, if_pos rfl, Option.some.injEq] at hnode
        subst hnode
        obtain ⟨hstrength, hfar⟩ := h i old hold
        exact ⟨Gate.settle_le hfar (main_powerOf_le h.strength_le _) hstrength, hfar⟩
  · rw [getElem?_update_of_ne hij] at hnode
    exact h j node hnode

theorem Bounded.settle (h : Bounded n) (rounds : Nat) : Bounded (settle rounds n).1 :=
  settle_keeps (P := Bounded) (fun _ i hn => hn.update i) rounds h

end Redstone.Netlist
