import Redstone.Proofs.Optimize.Constants

/-!
# What settled outputs settle to

An output with constant sources takes the state that it settles to, and all of its links are
replaced by one link to its main input.  The power at its main input is thereby kept, the power at
its side input is not.  Lamps, trapdoors and note blocks have no use for the latter; a comparator or
a repeater that is marked as an output may settle to another state than before, and this module says
exactly when.
-/

namespace Redstone

namespace Gate

variable {k : Gate} {p : Power}

/-- Without the power at its side input the gate would do the same.  Repeaters are locked by any
power; comparators put out what they compare, unless something is taken away from it or it is too
weak. -/
def ignoresSide (k : Gate) (p : Power) : Bool :=
  p.side == 0 ||
    match k.type with
    | .repeater => false
    | .comparator =>
        k.effectiveMain p.main == 0 ||
          (k.mode != .subtract && decide (p.side ≤ k.effectiveMain p.main))
    | _ => true

theorem comparatorOutput_main_eq_iff (hside : p.side ≠ 0) :
    k.comparatorOutput { p with side := 0 } = k.comparatorOutput p ↔
      k.effectiveMain p.main = 0 ∨ k.mode ≠ .subtract ∧ p.side ≤ k.effectiveMain p.main := by
  unfold comparatorOutput
  dsimp only
  cases k.mode <;> dsimp only <;> grind

/-- A gate that has settled stays as it is without the power at its side input, just if it ignores
that power. -/
theorem settle_main_settle_eq_iff (k : Gate) (s : GateState) (p : Power) :
    k.settle (k.settle s p) { p with side := 0 } = k.settle s p ↔ k.ignoresSide p = true := by
  by_cases hside : p.side = 0
  · have hbare : ({ p with side := 0 } : Power) = p := by rw [← hside]
    simp [hbare, settle_settle, ignoresSide, hside]
  · have hpos : 0 < p.side := by grind
    cases htype : k.type with
    | repeater => simp [settle, ignoresSide, htype, hside, hpos]
    | comparator =>
        have hout := comparatorOutput_main_eq_iff (k := k) hside
        constructor
        · intro hsame
          have hstrength := congrArg GateState.strength hsame
          simp only [settle, htype] at hstrength
          simpa [ignoresSide, htype, hside] using hout.mp hstrength
        · intro hignores
          have hcases : k.effectiveMain p.main = 0 ∨
              k.mode ≠ .subtract ∧ p.side ≤ k.effectiveMain p.main := by
            simpa [ignoresSide, htype, hside] using hignores
          simp [settle, htype, hout.mpr hcases]
    | _ => simp [settle, ignoresSide, htype]

end Gate

namespace Optimize

open Circuit

variable {g g' : Circuit} {id j : NodeId} {n : Node}

/-! ## One output -/

theorem wellFormed_settleNode (h : g.WellFormed) : (settleNode g id).WellFormed :=
  h.modifyNode id _

/-- Strengths differ at gates other than constants only. -/
def SameConstants (g g' : Circuit) : Prop :=
  ∀ j m, g.node? j = some m → m.gate.isConstant = true →
    ∃ m', g'.node? j = some m' ∧ m'.gate = m.gate ∧ m'.state = m.state

theorem SameConstants.trans {g'' : Circuit} (h : SameConstants g g') (h' : SameConstants g' g'') :
    SameConstants g g'' := by
  intro j m hm hconst
  obtain ⟨m', hm', hgate, hstate⟩ := h j m hm hconst
  obtain ⟨m'', hm'', hgate', hstate'⟩ := h' j m' hm' (hgate ▸ hconst)
  exact ⟨m'', hm'', hgate'.trans hgate, hstate'.trans hstate⟩

/-- A constant keeps its state, also when it is marked as an output. -/
theorem sameConstants_settleNode : SameConstants g (settleNode g id) := by
  intro j m hm hconst
  unfold settleNode
  rw [node?_modifyNode, hm]
  split
  · exact ⟨_, rfl, rfl, Gate.settle_of_isConstant hconst _ _⟩
  · exact ⟨m, rfl, rfl, rfl⟩

theorem sameConstants_refeed {main : UInt8} : SameConstants g (refeed g id main) := by
  intro j m hm _
  exact ⟨m, node?_refeed_of_some hm, rfl, rfl⟩

/-- The power at a node comes from constants. -/
structure Feeding (g : Circuit) (id : NodeId) (p : Power) : Prop where
  wellFormed : g.WellFormed
  constant : g.hasConstantInputs id = true
  power : g.inputPower id = p

/-- Power from constants stays as it is, as long as the links and the constants do. -/
theorem Feeding.of_links {p : Power} (h : Feeding g id p) (hwf : g'.WellFormed)
    (hconst : SameConstants g g')
    (hlink : ∀ {i l}, l.target = id → (g'.link? i = some l ↔ g.link? i = some l)) :
    Feeding g' id p where
  wellFormed := hwf
  constant := by
    rw [hasConstantInputs_iff hwf]
    intro i l hl htarget
    obtain ⟨m, hm, hc⟩ :=
      (hasConstantInputs_iff h.wellFormed).mp h.constant i l ((hlink htarget).mp hl) htarget
    obtain ⟨m', hm', hgate, -⟩ := hconst l.source m hm hc
    exact ⟨m', hm', hgate ▸ hc⟩
  power := by
    rw [← h.power]
    have hsame : g'.powerUnder g.strength id = g.powerUnder g.strength id := by
      apply powerUnder_congr hwf h.wellFormed
      intro side s _
      constructor
      · rintro ⟨i, l, hl, htarget, hrest⟩
        exact ⟨i, l, (hlink htarget).mp hl, htarget, hrest⟩
      · rintro ⟨i, l, hl, htarget, hrest⟩
        exact ⟨i, l, (hlink htarget).mpr hl, htarget, hrest⟩
    rw [inputPower, inputPower, ← hsame]
    apply powerUnder_congr_strength hwf
    intro i l hl htarget
    obtain ⟨m, hm, hc⟩ :=
      (hasConstantInputs_iff h.wellFormed).mp h.constant i l ((hlink htarget).mp hl) htarget
    obtain ⟨m', hm', -, hstate⟩ := hconst l.source m hm hc
    simp [strength, hm, hm', hstate]

/-- A node that is settled has no power at its side input. -/
theorem side_of_isSettled (h : g.WellFormed) (hsettled : isSettled g id = true) :
    (g.inputPower id).side = 0 := by
  show (g.inputPower id).at true = 0
  apply h.powerUnder_eq_zero
  intro i l hl htarget
  have hmem : l ∈ g.inLinks id := h.mem_inLinks_iff.mpr ⟨i, hl, htarget⟩
  unfold isSettled at hsettled
  split at hsettled
  case h_1 m hlinks =>
    rw [hlinks, List.mem_singleton] at hmem
    rw [Bool.and_eq_true, beq_iff_eq] at hsettled
    simp [hmem, hsettled.1, Channel.isSide]
  case h_2 => cases hsettled

/-- After its sources have been replaced, a node has power at its main input only. -/
theorem feeding_refeed (h : g.WellFormed) (hid : g.contains id = true) (main : UInt8) :
    Feeding (refeed g id main) id { main, side := 0 } where
  wellFormed := wellFormed_refeed h
  constant := by
    rw [hasConstantInputs_iff (wellFormed_refeed h)]
    intro i l hl htarget
    rcases (link?_refeed_eq_some_iff h hid).mp hl with ⟨-, hne⟩ | ⟨hpos, -, rfl⟩
    · exact absurd htarget hne
    · exact ⟨.constant main, by rw [node?_refeed, if_pos ⟨rfl, hpos⟩], rfl⟩
  power := by
    apply Power.ext_at
    intro side
    cases side with
    | false =>
        apply main_refeed h hid
        intro hpos
        simp [strength, node?_refeed, hpos, Node.constant, GateState.ofStrength]
    | true =>
        apply (wellFormed_refeed h).powerUnder_eq_zero
        intro i l hl htarget
        rcases (link?_refeed_eq_some_iff h hid).mp hl with ⟨-, hne⟩ | ⟨-, -, rfl⟩
        · exact absurd htarget hne
        · simp [feed, Channel.isSide]

/-! ## All outputs -/

/-- The step at one node does not concern the others. -/
structure Apart (id : NodeId) (g g' : Circuit) : Prop where
  wellFormed : g'.WellFormed
  constants : SameConstants g g'
  node : ∀ {j n}, j ≠ id → g.node? j = some n → g'.node? j = some n
  link : ∀ {i l}, l.target ≠ id → (g'.link? i = some l ↔ g.link? i = some l)

theorem apart_settleNode (h : g.WellFormed) (id : NodeId) : Apart id g (settleNode g id) where
  wellFormed := wellFormed_settleNode h
  constants := sameConstants_settleNode
  node := by
    intro j n hne hn
    unfold settleNode
    rw [node?_modifyNode, if_neg hne.symm, hn]
  link := fun _ => Iff.rfl

theorem apart_settleOutput (h : g.WellFormed) (id : NodeId) :
    Apart id g (settleOutput id g).circuit := by
  rcases settleOutput_cases id g with ⟨hsame, -⟩ | ⟨n, hfed, ⟨hsame, -⟩ | ⟨hsame, -⟩⟩
  · rw [hsame]
    exact ⟨h, fun _ m hm _ => ⟨m, hm, rfl, rfl⟩, fun _ hn => hn, fun _ => Iff.rfl⟩
  · rw [hsame]
    exact apart_settleNode h id
  · rw [hsame]
    have hsettle := apart_settleNode h id
    have hid : (settleNode g id).contains id = true :=
      (g.contains_modifyNode id id _).trans (contains_of_node? hfed.node)
    refine ⟨wellFormed_refeed hsettle.wellFormed,
      hsettle.constants.trans sameConstants_refeed, fun {j m} hne hm => ?_, fun {i l} hne => ?_⟩
    · exact node?_refeed_of_some (hsettle.node hne hm)
    · show (refeed (settleNode g id) id _).link? i = some l ↔ _
      rw [link?_refeed_eq_some_iff hsettle.wellFormed hid, hsettle.link hne]
      constructor
      · rintro (⟨hl, -⟩ | ⟨-, -, rfl⟩)
        · exact hl
        · exact absurd rfl hne
      · intro hl
        exact .inl ⟨hl, hne⟩

/-- The step at an output gives it the state that it settles to, and power at its main input
only. -/
theorem settled_settleOutput (h : g.WellFormed) (hfed : FedOutput g id n) :
    (settleOutput id g).circuit.node? id =
        some { n with state := n.gate.settle n.state (g.inputPower id) } ∧
      Feeding (settleOutput id g).circuit id { main := (g.inputPower id).main, side := 0 } := by
  have hnode : (settleNode g id).node? id =
      some { n with state := n.gate.settle n.state (g.inputPower id) } := by
    rw [node?_settleNode hfed.node, if_pos rfl]
  have hid := contains_of_node? hnode
  rcases settleOutput_cases id g with ⟨-, hnone⟩ | ⟨m, -, ⟨hsame, hsettled⟩ | ⟨hsame, -⟩⟩
  · exact absurd hfed (hnone n)
  · rw [hsame]
    refine ⟨hnode, ?_⟩
    rw [← side_of_isSettled h hsettled]
    have hstart : Feeding g id (g.inputPower id) := ⟨h, hfed.constant, rfl⟩
    exact hstart.of_links (wellFormed_settleNode h) sameConstants_settleNode fun _ => Iff.rfl
  · rw [hsame]
    refine ⟨?_, feeding_refeed (wellFormed_settleNode h) hid _⟩
    have hold : id ≠ (settleNode g id).nodeBound := Nat.ne_of_lt (lt_nodeBound_of_contains hid)
    show (refeed (settleNode g id) id _).node? id = _
    rw [node?_refeed, if_neg (fun hnew => hold hnew.1), hnode]

/-- What the steps at other nodes leave alone: a node, and the links and constants that feed it. -/
theorem sweep_apart {order : List NodeId} (horder : id ∉ order) {p : Power} (hn : g.node? id = some n)
    (h : Feeding g id p) :
    let g' := (Revision.sweep settleOutput order g).circuit
    g'.node? id = some n ∧ Feeding g' id p ∧
      ∀ {i l}, l.target = id → (g'.link? i = some l ↔ g.link? i = some l) := by
  -- the links into the node are compared with those at the start of the sweep
  refine Revision.sweep_keeps
    (P := fun g' => g'.node? id = some n ∧ Feeding g' id p ∧
      ∀ {i l}, l.target = id → (g'.link? i = some l ↔ g.link? i = some l))
    (fun j hj g' hg' => ?_) ⟨hn, h, fun _ => Iff.rfl⟩
  obtain ⟨hnode, hfeeding, hlink⟩ := hg'
  have hne : id ≠ j := fun heq => horder (heq ▸ hj)
  have hstep := apart_settleOutput hfeeding.wellFormed j
  refine ⟨hstep.node hne hnode, ?_, fun htarget => ?_⟩
  · exact hfeeding.of_links hstep.wellFormed hstep.constants
      fun htarget => hstep.link (htarget ▸ hne)
  · exact (hstep.link (htarget ▸ hne)).trans (hlink htarget)

/-- After the sweep an output has the state that it settles to at the start, and the power at its
main input. -/
theorem settled_settleOutputs (h : g.WellFormed) (hfed : FedOutput g id n) :
    (settleOutputs g).circuit.node? id =
        some { n with state := n.gate.settle n.state (g.inputPower id) } ∧
      (settleOutputs g).circuit.inputPower id = { main := (g.inputPower id).main, side := 0 } := by
  -- the sweep comes to the node once; before and after that it is at other nodes
  obtain ⟨before, after, hsplit⟩ :=
    List.append_of_mem (mem_nodeIds.mpr (contains_of_node? hfed.node))
  have hnodup := g.nodeIds_nodup
  rw [hsplit, List.nodup_append, List.nodup_cons] at hnodup
  have hbefore : id ∉ before := fun hmem => hnodup.2.2 id hmem id List.mem_cons_self rfl
  obtain ⟨hnode, hfeeding, hlink⟩ :=
    sweep_apart hbefore hfed.node ⟨h, hfed.constant, rfl⟩
  have hfed' : FedOutput (Revision.sweep settleOutput before g).circuit id n := by
    refine ⟨hnode, hfed.isOutput, hfeeding.constant, fun hnil => ?_⟩
    obtain ⟨i, hi⟩ := List.exists_mem_of_ne_nil _ hfed.fed
    obtain ⟨l, hl, htarget⟩ := h.mem_inputs_iff.mp hi
    have hmem := hfeeding.wellFormed.mem_inputs ((hlink htarget).mpr hl)
    rw [htarget, hnil] at hmem
    cases hmem
  obtain ⟨hnode', hfeeding'⟩ := settled_settleOutput hfeeding.wellFormed hfed'
  rw [hfeeding.power] at hnode' hfeeding'
  obtain ⟨hnode'', hfeeding'', -⟩ := sweep_apart hnodup.2.1.1 hnode' hfeeding'
  have hsweep : (settleOutputs g).circuit =
      (Revision.sweep settleOutput after
        (settleOutput id (Revision.sweep settleOutput before g).circuit).circuit).circuit := by
    rw [settleOutputs, hsplit, Revision.sweep_append]
    show (Revision.sweep settleOutput (id :: after) _).circuit = _
    rw [Revision.sweep_cons]
    rfl
  rw [hsweep]
  exact ⟨hnode'', hfeeding''.power⟩

/-- Settling an output that is fed by constants keeps its gate, gives it the state that it settles
to, and leaves it the power at its main input.  What it settles to afterwards is the same as before,
just if its gate ignores the power at its side input. -/
theorem settled_output_stays_iff (g : Circuit) (h : g.WellFormed) (id : NodeId) (n : Node)
    (hfed : FedOutput g id n) :
    let g' := (settleOutputs g).circuit
    ∃ n', g'.node? id = some n' ∧ n'.gate = n.gate ∧
      n'.state = n.gate.settle n.state (g.inputPower id) ∧
      g'.inputPower id = { main := (g.inputPower id).main, side := 0 } ∧
      (n'.gate.settle n'.state (g'.inputPower id) = n.gate.settle n.state (g.inputPower id) ↔
        n.gate.ignoresSide (g.inputPower id) = true) := by
  obtain ⟨hnode, hpower⟩ := settled_settleOutputs h hfed
  refine ⟨_, hnode, rfl, rfl, hpower, ?_⟩
  rw [hpower]
  exact n.gate.settle_main_settle_eq_iff n.state (g.inputPower id)

/-- Two constants at the inputs of a comparator that is marked as an output, and a lamp behind the
stronger one. -/
def weighing (main side : UInt8) : Circuit :=
  let nodes := Circuit.empty.addNodes
    [ .constant main, .constant side, { gate := .comparator .compare false, isOutput := true }
    , { gate := .plain .lamp, isOutput := true } ]
  (((nodes.addLink { source := 0, target := 2, channel := .main, loss := 2 }).addLink
    { source := 1, target := 2, channel := .side, loss := 0 }).addLink
    { source := 0, target := 3, channel := .main, loss := 2 }).addLink
    { source := 0, target := 3, channel := .main, loss := 5 }

theorem wellFormed_weighing (main side : UInt8) : (weighing main side).WellFormed :=
  ((((WellFormed.empty.addNodes _).addLink _).addLink _).addLink _).addLink _

/-- A comparator that is not outvoted settles to ten before and after its sources are replaced. -/
theorem settled_output_stays_iff_weighing :
    FedOutput (weighing 12 3) 2 { gate := .comparator .compare false, isOutput := true } ∧
    ∃ n', (settleOutputs (weighing 12 3)).circuit.node? 2 = some n' ∧
      n'.gate.settle n'.state ((settleOutputs (weighing 12 3)).circuit.inputPower 2) =
        .ofStrength 10 := by
  have hfed : FedOutput (weighing 12 3) 2
      { gate := .comparator .compare false, isOutput := true } :=
    ⟨by decide, rfl, by decide, by decide⟩
  obtain ⟨n', hn', -, -, -, hiff⟩ :=
    settled_output_stays_iff (weighing 12 3) (wellFormed_weighing 12 3) 2 _ hfed
  exact ⟨hfed, n', hn', (hiff.mpr (by decide)).trans (by decide)⟩

/-- A comparator that is outvoted by the constant at its side is off, and turns on when its sources
are replaced. -/
theorem settled_output_turns_on_weighing :
    let g := weighing 12 12
    let g' := (settleOutputs g).circuit
    FedOutput g 2 { gate := .comparator .compare false, isOutput := true } ∧
      (∀ p ∈ g.nodes, p.2.state.strength ≤ maxStrength) ∧
      ((g.node? 2).map fun n => (n.gate.settle n.state (g.inputPower 2)).strength) = some 0 ∧
      ((g'.node? 2).map fun n => (n.gate.settle n.state (g'.inputPower 2)).strength) = some 10 := by
  exact ⟨⟨by decide, rfl, by decide, by decide⟩, by decide, by decide, by decide⟩

end Optimize

end Redstone
