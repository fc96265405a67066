import Redstone.Optimize.AnalogBuses
import Redstone.Optimize.DeadLinks
import Redstone.Optimize.Duplicates
import Redstone.Optimize.FoldedConstants
import Redstone.Optimize.Orphans
import Redstone.Optimize.SettledOutputs
import Redstone.Optimize.SharedConstants
import Redstone.Proofs.Circuit.Lineage
import Redstone.Proofs.Optimize.Sweeps

/-!
# Steps of the passes

A pass goes from node to node, and at each of them it leaves the circuit alone or makes one edit,
after it has checked that the edit is due.  Here it is said once, for each pass, what its step can
come to and what has been checked by then.  From this follows which edits a property of circuits has
to survive to be kept by the step and by the whole pass, and nothing else need be known of the pass
where a property is to be carried through it.
-/

namespace Redstone.Optimize

open Circuit

variable {P : Circuit → Prop} {g : Circuit}

/-! ## Buses -/

/-- The step at a node does nothing, or the node is a comparator from which a bus starts, and the
bus is replaced. -/
theorem collapseBusAt_cases (id : NodeId) (g : Circuit) :
    collapseBusAt id g = .unchanged g ∨
      ∃ first rest, ((g.node? id).any fun n => n.gate.isComparator) = true ∧
        busLines? g id = some (first :: rest) ∧
        collapseBusAt id g = .once (replaceBus g id (first :: rest) first) := by
  unfold collapseBusAt
  split
  case isFalse => exact .inl rfl
  case isTrue hcomparator =>
    unfold collapseBus
    split
    case h_1 first rest hlines => exact .inr ⟨first, rest, hcomparator, hlines, rfl⟩
    case h_2 => exact .inl rfl

theorem collapseBusAt_keeps {id : NodeId}
    (hreplace : ∀ {first rest}, ((g.node? id).any fun n => n.gate.isComparator) = true →
      busLines? g id = some (first :: rest) → P (replaceBus g id (first :: rest) first))
    (h : P g) : P (collapseBusAt id g).circuit := by
  rcases collapseBusAt_cases id g with heq | ⟨first, rest, hcomparator, hlines, heq⟩
  · rw [heq]
    exact h
  · rw [heq]
    exact hreplace hcomparator hlines

theorem collapseBuses_keeps
    (hreplace : ∀ {g id first rest}, P g →
      ((g.node? id).any fun n => n.gate.isComparator) = true →
      busLines? g id = some (first :: rest) → P (replaceBus g id (first :: rest) first))
    (h : P g) : P (collapseBuses g).circuit :=
  Revision.sweep_keeps (fun _ _ _ hg => collapseBusAt_keeps (hreplace hg) hg) h

/-! ## Folded constants -/

/-- The step at a node does nothing, because the node cannot be folded or has a source that is no
constant, or the node becomes the constant that its gate gives for constant sources. -/
theorem foldNode_cases (id : NodeId) (g : Circuit) :
    (foldNode id g = .unchanged g ∧ ∀ n, g.node? id = some n → n.gate.isFoldable = true →
        g.hasConstantInputs id = false) ∨
      ∃ n s, g.node? id = some n ∧ g.hasConstantInputs id = true ∧
        n.gate.fold n.state (g.inputPower id) = some s ∧
        foldNode id g = .once (makeConstant g id s) := by
  unfold foldNode
  split
  case h_1 hnone =>
    refine .inl ⟨rfl, fun n hn => ?_⟩
    cases hnone.symm.trans hn
  case h_2 n hn =>
    split
    case isTrue hguard =>
      refine .inl ⟨rfl, fun m hm hfoldable => ?_⟩
      cases hn.symm.trans hm
      rw [Gate.isConstant_of_isFoldable hfoldable, Bool.false_or, Bool.not_eq_true'] at hguard
      exact hguard
    case isFalse hguard =>
      simp only [Bool.or_eq_true, Bool.not_eq_true', not_or, Bool.not_eq_false] at hguard
      split
      case h_1 hnone =>
        refine .inl ⟨rfl, fun m hm hfoldable => ?_⟩
        cases hn.symm.trans hm
        obtain ⟨out, hout⟩ := Gate.exists_fold_of_isFoldable hfoldable n.state (g.inputPower id)
        cases hnone.symm.trans hout
      case h_2 s hfold => exact .inr ⟨n, s, hn, hguard.2, hfold, rfl⟩

theorem foldNode_keeps {id : NodeId}
    (hfold : ∀ {n s}, g.node? id = some n → g.hasConstantInputs id = true →
      n.gate.fold n.state (g.inputPower id) = some s → P (makeConstant g id s))
    (h : P g) : P (foldNode id g).circuit := by
  rcases foldNode_cases id g with ⟨heq, -⟩ | ⟨n, s, hn, hinputs, hs, heq⟩
  · rw [heq]
    exact h
  · rw [heq]
    exact hfold hn hinputs hs

theorem foldConstants_keeps
    (hfold : ∀ {g id n s}, P g → g.node? id = some n → g.hasConstantInputs id = true →
      n.gate.fold n.state (g.inputPower id) = some s → P (makeConstant g id s))
    (h : P g) : P (foldConstants g).circuit :=
  Revision.untilStable_keeps
    (fun _ hg => Revision.sweep_keeps (fun _ _ _ hg' => foldNode_keeps (hfold hg') hg') hg) _ h

/-! ## Dead links and settled outputs -/

theorem pruneDeadLinks_keeps (hremove : ∀ {g ids}, P g → P (g.removeLinks ids)) (h : P g) :
    P (pruneDeadLinks g).circuit :=
  Revision.sweep_keeps (P := P) (fun _ _ _ hg => hremove hg) h

/-- The node is an output that is fed, and by constants only. -/
structure FedOutput (g : Circuit) (id : NodeId) (n : Node) : Prop where
  node : g.node? id = some n
  isOutput : n.isOutput = true
  constant : g.hasConstantInputs id = true
  fed : g.inputs id ≠ []

/-- All that the step at a node can do: nothing, to settle it, or to replace its sources as well,
unless they are as they should be. -/
theorem settleOutput_cases (id : NodeId) (g : Circuit) :
    settleOutput id g = .unchanged g ∧ (∀ n, ¬FedOutput g id n) ∨
      ∃ n, FedOutput g id n ∧
        (settleOutput id g = .unchanged (settleNode g id) ∧ isSettled g id = true ∨
          settleOutput id g = .once (refeed (settleNode g id) id (g.inputPower id).main) ∧
            isSettled g id = false) := by
  unfold settleOutput
  split
  case h_1 hnone =>
    refine .inl ⟨rfl, fun n hn => ?_⟩
    cases hnone.symm.trans hn.node
  case h_2 n hn =>
    split
    case isTrue hguard =>
      refine .inl ⟨rfl, fun m hm => ?_⟩
      cases hn.symm.trans hm.node
      simp [hm.isOutput, hm.constant, hm.fed] at hguard
    case isFalse hguard =>
      simp only [Bool.or_eq_true, Bool.not_eq_true', not_or, Bool.not_eq_false,
        List.isEmpty_iff] at hguard
      refine .inr ⟨n, ⟨hn, hguard.1.1, hguard.1.2, hguard.2⟩, ?_⟩
      split
      case isTrue hsettled => exact .inl ⟨rfl, hsettled⟩
      case isFalse hnot => exact .inr ⟨rfl, Bool.eq_false_iff.mpr hnot⟩

theorem settleOutput_keeps {id : NodeId}
    (hsettle : ∀ {n}, FedOutput g id n → P (settleNode g id))
    (hrefeed : ∀ {n}, FedOutput g id n → P (settleNode g id) →
      P (refeed (settleNode g id) id (g.inputPower id).main))
    (h : P g) : P (settleOutput id g).circuit := by
  rcases settleOutput_cases id g with ⟨heq, -⟩ | ⟨n, hfed, ⟨heq, -⟩ | ⟨heq, -⟩⟩
  · rw [heq]
    exact h
  · rw [heq]
    exact hsettle hfed
  · rw [heq]
    exact hrefeed hfed (hsettle hfed)

theorem settleOutputs_keeps
    (hsettle : ∀ {g id n}, P g → FedOutput g id n → P (settleNode g id))
    (hrefeed : ∀ {g id n}, P g → FedOutput g id n → P (settleNode g id) →
      P (refeed (settleNode g id) id (g.inputPower id).main))
    (h : P g) : P (settleOutputs g).circuit :=
  Revision.sweep_keeps (fun _ _ _ hg => settleOutput_keeps (hsettle hg) (hrefeed hg) hg) h

/-- The sources of a node are removed, and there is a new one just if it brings power. -/
theorem refeed_keeps {id : NodeId} {main : UInt8}
    (hbare : P (g.removeLinks (g.inputs id)))
    (hfeed : P (g.removeLinks (g.inputs id)) → 0 < main →
      P (feedConstant (g.removeLinks (g.inputs id)) id main)) : P (refeed g id main) := by
  unfold refeed
  dsimp only
  split
  case isTrue hpos => exact hfeed hbare hpos
  case isFalse => exact hbare

/-! ## Shared constants -/

section Sharing

variable (part : NodeId → Nat)

/-- The server of the demand of a link is the constant at which the link starts or another one, or
there is none; then a new constant becomes the server if the one at hand serves already, and else
that one does. -/
theorem shareLink_cases (id : NodeId) (strength : UInt8) (s : Share) (i : LinkId) :
    shareLink part id strength s i = s ∧
        (∀ l, s.circuit.link? i = some l → s.servers.lookup (part l.target, strength) = some id) ∨
      ∃ l, s.circuit.link? i = some l ∧
        ((∃ server, s.servers.lookup (part l.target, strength) = some server ∧ server ≠ id ∧
            shareLink part id strength s i = s.move i server) ∨
          s.servers.lookup (part l.target, strength) = none ∧
            (s.serves = true ∧
                shareLink part id strength s i = Share.move
                  { s with
                    circuit := s.circuit.addNode (.constant strength)
                    servers := ((part l.target, strength), s.circuit.nodeBound) :: s.servers }
                  i s.circuit.nodeBound ∨
              s.serves = false ∧
                shareLink part id strength s i =
                  { s with
                    servers := ((part l.target, strength), id) :: s.servers, serves := true })) := by
  unfold shareLink
  split
  case h_1 hnone =>
    refine .inl ⟨rfl, fun l hl => ?_⟩
    cases hnone.symm.trans hl
  case h_2 l hl =>
    dsimp only
    split
    case h_1 server hlookup =>
      split
      case isTrue hid =>
        refine .inl ⟨rfl, fun m hm => ?_⟩
        cases hl.symm.trans hm
        rw [hlookup, hid]
      case isFalse hid => exact .inr ⟨l, hl, .inl ⟨server, hlookup, hid, rfl⟩⟩
    case h_2 hlookup =>
      refine .inr ⟨l, hl, .inr ⟨hlookup, ?_⟩⟩
      split
      case isTrue hserves => exact .inl ⟨hserves, rfl⟩
      case isFalse hserves => exact .inr ⟨Bool.eq_false_iff.mpr hserves, rfl⟩

/-- After its links have been looked at, a constant stays, or it has lost all of them and goes. -/
theorem shareConstant_cases (id : NodeId) (strength : UInt8) (s : Sharing) :
    let share := (s.circuit.outputs id).foldl (shareLink part id strength)
      { s with serves := false, moved := false }
    shareConstant part id strength s = (share.toSharing, 0) ∨
      share.moved = true ∧ share.circuit.outputs id = [] ∧
        shareConstant part id strength s =
          ({ circuit := share.circuit.removeNode id, servers := share.servers }, 1) := by
  intro share
  unfold shareConstant
  dsimp only
  split
  case isTrue hgone =>
    rw [Bool.and_eq_true, List.isEmpty_iff] at hgone
    exact .inr ⟨hgone.1, hgone.2, rfl⟩
  case isFalse => exact .inl rfl

theorem shareNode_cases (acc : Sharing × Nat) (id : NodeId) :
    shareNode part acc id = acc ∧
        (∀ n, acc.1.circuit.node? id = some n → isSharable n = false) ∨
      ∃ n, acc.1.circuit.node? id = some n ∧ isSharable n = true ∧
        shareNode part acc id = ((shareConstant part id n.state.strength acc.1).1,
          acc.2 + (shareConstant part id n.state.strength acc.1).2) := by
  unfold shareNode
  split
  case h_1 hnone =>
    refine .inl ⟨rfl, fun n hn => ?_⟩
    cases hnone.symm.trans hn
  case h_2 n hn =>
    split
    case isTrue hsharable => exact .inr ⟨n, hn, hsharable, rfl⟩
    case isFalse hnot =>
      refine .inl ⟨rfl, fun m hm => ?_⟩
      cases hn.symm.trans hm
      exact Bool.eq_false_iff.mpr hnot

variable {part}

/-- Three edits make up the sharing of a constant: its links move, constants of its strength are
added, and it may be removed. -/
theorem shareNode_keeps {acc : Sharing × Nat} {id : NodeId}
    (hmove : ∀ {g i server}, P g → P (g.setSource i server))
    (hadd : ∀ {g n}, P g → g.node? id = some n → isSharable n = true →
      P (g.addNode (.constant n.state.strength)))
    (hremove : ∀ {g n}, P g → g.node? id = some n → isSharable n = true →
      P (g.removeNode id))
    (h : P acc.1.circuit) : P (shareNode part acc id).1.circuit := by
  rcases shareNode_cases part acc id with ⟨heq, -⟩ | ⟨n, hn, hsharable, heq⟩
  · rw [heq]
    exact h
  -- the constant stays the node that it is while its links are looked at
  have hfold (rest : List LinkId) {s : Share} (hs : P s.circuit ∧ s.circuit.node? id = some n) :
      P (rest.foldl (shareLink part id n.state.strength) s).circuit ∧
        (rest.foldl (shareLink part id n.state.strength) s).circuit.node? id = some n := by
    induction rest generalizing s with
    | nil => exact hs
    | cons i rest ih =>
        obtain ⟨hP, hs⟩ := hs
        refine ih ?_
        rcases shareLink_cases part id n.state.strength s i with
          ⟨hlink, -⟩ | ⟨l, -, ⟨server, -, -, hlink⟩ | ⟨-, ⟨-, hlink⟩ | ⟨-, hlink⟩⟩⟩
        · rw [hlink]
          exact ⟨hP, hs⟩
        · rw [hlink]
          exact ⟨hmove hP, (node?_setSource i server id).trans hs⟩
        · rw [hlink]
          exact ⟨hmove (hadd hP hs hsharable),
            (node?_setSource i _ id).trans (node?_addNode_of_node? hs _)⟩
        · rw [hlink]
          exact ⟨hP, hs⟩
  obtain ⟨hshared, hn'⟩ := hfold (acc.1.circuit.outputs id)
    (s := { acc.1 with serves := false, moved := false }) ⟨h, hn⟩
  rw [heq]
  rcases shareConstant_cases part id n.state.strength acc.1 with heq' | ⟨-, -, heq'⟩
  · rw [heq']
    exact hshared
  · rw [heq']
    exact hremove hshared hn' hsharable

theorem shareConstants_keeps
    (hmove : ∀ {g i server}, P g → P (g.setSource i server))
    (hadd : ∀ {g id n}, P g → g.node? id = some n → isSharable n = true →
      P (g.addNode (.constant n.state.strength)))
    (hremove : ∀ {g id n}, P g → g.node? id = some n → isSharable n = true →
      P (g.removeNode id))
    (h : P g) : P (shareConstants g).circuit := by
  have hfold (ids : List NodeId) {acc : Sharing × Nat} (h : P acc.1.circuit) :
      P (ids.foldl (shareNode (components g).root) acc).1.circuit := by
    induction ids generalizing acc with
    | nil => exact h
    | cons id ids ih => exact ih (shareNode_keeps hmove hadd hremove h)
  exact hfold g.nodeIds h

end Sharing

/-! ## Duplicates -/

theorem takeOver_keeps {into : NodeId} (hset : ∀ {g i}, P g → P (g.setSource i into))
    (hremove : ∀ {g i}, P g → P (g.removeLink i)) (h : P g) (i : LinkId) :
    P (takeOver into g i) := by
  unfold takeOver
  split
  case h_1 => exact h
  case h_2 =>
    split
    case h_1 => exact hset h
    case h_2 =>
      split
      case isTrue => exact hremove h
      case isFalse => exact hset (hremove h)

theorem foldl_takeOver_keeps {into : NodeId} (hset : ∀ {g i}, P g → P (g.setSource i into))
    (hremove : ∀ {g i}, P g → P (g.removeLink i)) (h : P g) (ids : List LinkId) :
    P (ids.foldl (takeOver into) g) := by
  induction ids generalizing g with
  | nil => exact h
  | cons i ids ih => exact ih (takeOver_keeps hset hremove h i)

/-- Taking over links does nothing to the nodes. -/
theorem node?_foldl_takeOver (into : NodeId) (ids : List LinkId) (g : Circuit) (id : NodeId) :
    (ids.foldl (takeOver into) g).node? id = g.node? id :=
  foldl_takeOver_keeps (P := fun g' => g'.node? id = g.node? id)
    (fun h => (node?_setSource _ into id).trans h) (fun h => (node?_removeLink _ id).trans h) rfl ids

theorem nodeBound_foldl_takeOver (into : NodeId) (ids : List LinkId) (g : Circuit) :
    (ids.foldl (takeOver into) g).nodeBound = g.nodeBound :=
  foldl_takeOver_keeps (P := fun g' => g'.nodeBound = g.nodeBound)
    (fun h => (nodeBound_setSource _ into).trans h) (fun h => (nodeBound_removeLink _).trans h) rfl
    ids

/-- The node `into` takes over links, gets the blocks of the twin, and the twin is removed. -/
theorem merge_eq {twin : NodeId} {n : Node} (hn : g.node? twin = some n) (into : NodeId) :
    merge g twin into =
      (((g.outputs twin).foldl (takeOver into) g).modifyNode into fun m =>
        { m with blocks := m.blocks ++ n.blocks }).removeNode twin := by
  unfold merge
  dsimp only
  rw [node?_foldl_takeOver, hn]
  rfl

theorem merge_keeps {twin into : NodeId} (hset : ∀ {g i}, P g → P (g.setSource i into))
    (hremove : ∀ {g i}, P g → P (g.removeLink i))
    (habsorb : ∀ {g blocks}, P g →
      P ((g.modifyNode into fun m => { m with blocks := m.blocks ++ blocks }).removeNode twin))
    (h : P g) : P (merge g twin into) :=
  habsorb (foldl_takeOver_keeps hset hremove h (g.outputs twin))

theorem wellFormed_takeOver (h : g.WellFormed) (into : NodeId) (i : LinkId) :
    (takeOver into g i).WellFormed :=
  takeOver_keeps (fun h => h.setSource _ into) (fun h => h.removeLink _) h i

theorem wellFormed_merge (h : g.WellFormed) (twin into : NodeId) : (merge g twin into).WellFormed :=
  merge_keeps (fun h => h.setSource _ into) (fun h => h.removeLink _)
    (fun h => (h.modifyNode into _).removeNode twin) h

theorem node?_merge {twin into : NodeId} {n m : Node} (hn : g.node? twin = some n)
    (hm : g.node? into = some m) (id : NodeId) :
    (merge g twin into).node? id =
      if twin = id then none
      else if into = id then some { m with blocks := m.blocks ++ n.blocks } else g.node? id := by
  rw [merge_eq hn, node?_removeNode, node?_modifyNode, node?_foldl_takeOver]
  split
  · rfl
  split
  case isTrue hinto =>
    rw [← hinto, hm]
    rfl
  case isFalse => rfl

theorem soleLink?_eq_some_iff {id : NodeId} {l : Link} :
    soleLink? g id = some l ↔
      ∃ n i s, g.node? id = some n ∧ g.inputs id = [i] ∧ g.link? i = some l ∧
        g.node? l.source = some s ∧ n.gate.isComparator = false ∧ n.isRemovable = true ∧
        l.channel = .main ∧ l.source ≠ id ∧ s.gate.isComparator = false := by
  simp only [soleLink?, Option.bind_eq_bind, Option.bind_eq_some_iff]
  constructor
  · rintro ⟨n, hn, hsole⟩
    split at hsole
    case h_2 => cases hsole
    case h_1 i hi =>
      simp only [Option.bind_eq_some_iff] at hsole
      obtain ⟨o, ho, s, hs, hguard⟩ := hsole
      split at hguard
      case isFalse => cases hguard
      case isTrue hcond =>
        cases hguard
        obtain ⟨hcomparator, hrole, hchannel, hne, hcomparator'⟩ := hcond
        exact ⟨n, i, s, hn, hi, ho, hs, by simpa using hcomparator, hrole, hchannel, hne,
          by simpa using hcomparator'⟩
  · rintro ⟨n, i, s, hn, hi, hl, hs, hcomparator, hrole, hchannel, hne, hcomparator'⟩
    refine ⟨n, hn, ?_⟩
    rw [hi]
    simp [hl, hs, hcomparator, hrole, hchannel, hne, hcomparator']

theorem twin?_eq_some_iff {source into twin : NodeId} {l : Link} {i : LinkId} :
    twin? g source into l i = some twin ↔
      ∃ o n m, g.link? i = some o ∧ o.target = twin ∧ g.node? twin = some n ∧
        g.node? into = some m ∧ twin ≠ into ∧ twin ≠ source ∧ o.channel = l.channel ∧
        o.loss = l.loss ∧ n.gate = m.gate ∧ n.isRemovable = true ∧
        (g.inputs twin).length = 1 := by
  simp only [twin?, Option.bind_eq_bind, Option.bind_eq_some_iff]
  constructor
  · rintro ⟨o, ho, n, hn, m, hm, hguard⟩
    split at hguard
    case isFalse => cases hguard
    case isTrue hcond =>
      cases hguard
      exact ⟨o, n, m, ho, rfl, hn, hm, hcond⟩
  · rintro ⟨o, n, m, ho, rfl, hn, hm, hcond⟩
    exact ⟨o, ho, n, hn, m, hm, if_pos hcond⟩

/-- The node `n`, which is `twin`, may be merged into the node `m`, which is `into`: their gates are
equal, but no comparators, and neither has a role. -/
structure Mergeable (g : Circuit) (twin into : NodeId) (n m : Node) : Prop where
  twin_node : g.node? twin = some n
  into_node : g.node? into = some m
  ne : twin ≠ into
  gate_eq : n.gate = m.gate
  not_comparator : m.gate.isComparator = false
  twin_removable : n.isRemovable = true
  into_removable : m.isRemovable = true

theorem mergeTwin_cases (source into : NodeId) (l : Link) (i : LinkId) (g : Circuit) :
    mergeTwin source into l i g = .unchanged g ∧ twin? g source into l i = none ∨
      ∃ twin, twin? g source into l i = some twin ∧
        mergeTwin source into l i g = .once (merge g twin into) := by
  unfold mergeTwin
  cases htwin : twin? g source into l i with
  | none => exact .inl ⟨rfl, rfl⟩
  | some twin => exact .inr ⟨twin, rfl, rfl⟩

theorem mergeTwins_cases (id : NodeId) (g : Circuit) :
    mergeTwins id g = .unchanged g ∧ soleLink? g id = none ∨
      ∃ l, soleLink? g id = some l ∧
        mergeTwins id g = Revision.sweep (mergeTwin l.source id l) (g.outputs l.source) g := by
  unfold mergeTwins
  cases hsole : soleLink? g id with
  | none => exact .inl ⟨rfl, rfl⟩
  | some l => exact .inr ⟨l, rfl, rfl⟩

theorem mergeTwins_keeps {id : NodeId}
    (hmerge : ∀ {g twin n m}, P g → Mergeable g twin id n m → P (merge g twin id)) (h : P g) :
    P (mergeTwins id g).circuit := by
  rcases mergeTwins_cases id g with ⟨heq, -⟩ | ⟨l, hsole, heq⟩
  · rw [heq]
    exact h
  obtain ⟨n, -, -, hn, -, -, -, hcomparator, hrole, -⟩ := soleLink?_eq_some_iff.mp hsole
  rw [heq]
  -- the node that takes over keeps its gate and has no role at any time
  refine (Revision.sweep_keeps (P := fun g' => P g' ∧ ∃ m, g'.node? id = some m ∧
    m.gate.isComparator = false ∧ m.isRemovable = true) (fun i _ g' hg' => ?_)
    ⟨h, n, hn, hcomparator, hrole⟩).1
  obtain ⟨hg', m, hm, hcomparator, hrole⟩ := hg'
  rcases mergeTwin_cases l.source id l i g' with ⟨heq, -⟩ | ⟨twin, htwin, heq⟩
  · rw [heq]
    exact ⟨hg', m, hm, hcomparator, hrole⟩
  obtain ⟨-, k, m', -, -, hk, hm', hne, -, -, -, hgate, hrole', -⟩ := twin?_eq_some_iff.mp htwin
  cases hm.symm.trans hm'
  rw [heq]
  refine ⟨hmerge hg' ⟨hk, hm, hne, hgate, hcomparator, hrole', hrole⟩,
    { m with blocks := m.blocks ++ k.blocks }, ?_, hcomparator, hrole⟩
  exact (node?_merge hk hm id).trans ((if_neg hne).trans (if_pos rfl))

theorem mergeDuplicates_keeps
    (hmerge : ∀ {g twin into n m}, P g → Mergeable g twin into n m → P (merge g twin into))
    (h : P g) : P (mergeDuplicates g).circuit :=
  Revision.untilStable_keeps
    (fun _ hg => Revision.sweep_keeps (fun _ _ _ hg' => mergeTwins_keeps hmerge hg') hg) _ h

/-! ## Orphans -/

theorem isOrphan_iff {id : NodeId} :
    isOrphan g id = true ↔
      ∃ n, g.node? id = some n ∧ n.isRemovable = true ∧ g.outputs id = [] := by
  rw [isOrphan, Bool.and_eq_true, Option.any_eq_true, List.isEmpty_iff]
  constructor
  · rintro ⟨⟨n, hn, hrole⟩, hnone⟩
    exact ⟨n, hn, hrole, hnone⟩
  · rintro ⟨n, hn, hrole, hnone⟩
    exact ⟨⟨n, hn, hrole⟩, hnone⟩

/-- All that a step of the removal can do: it leaves the circuit as it is, or it removes a node
without a role that feeds nothing. -/
theorem pruneNode_cases (id : NodeId) (g : Circuit) :
    (pruneNode id g = .unchanged g ∧ isOrphan g id = false) ∨
      (pruneNode id g = .once (g.removeNode id) ∧ g.contains id = true ∧ isOrphan g id = true) := by
  unfold pruneNode
  split
  case isFalse hnot => exact .inl ⟨rfl, Bool.eq_false_iff.mpr hnot⟩
  case isTrue horphan =>
    obtain ⟨n, hn, -⟩ := isOrphan_iff.mp horphan
    exact .inr ⟨rfl, contains_of_node? hn, horphan⟩

theorem pruneNode_keeps {id : NodeId}
    (hremove : ∀ {n}, g.node? id = some n → n.isRemovable = true → g.outputs id = [] →
      P (g.removeNode id)) (h : P g) : P (pruneNode id g).circuit := by
  rcases pruneNode_cases id g with ⟨heq, -⟩ | ⟨heq, -, horphan⟩
  · rw [heq]
    exact h
  · obtain ⟨n, hn, hrole, hnone⟩ := isOrphan_iff.mp horphan
    rw [heq]
    exact hremove hn hrole hnone

theorem pruneOrphans_keeps
    (hremove : ∀ {g id n}, P g → g.node? id = some n → n.isRemovable = true →
      g.outputs id = [] → P (g.removeNode id)) (h : P g) : P (pruneOrphans g).circuit :=
  Revision.untilStable_keeps
    (fun _ hg => Revision.sweep_keeps (fun _ _ _ hg' => pruneNode_keeps (hremove hg') hg') hg) _ h

end Redstone.Optimize
