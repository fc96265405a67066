import Redstone.Proofs.Optimize.Roles
import Redstone.Proofs.Outputs

/-!
# Where the blocks of a circuit come from

A node names the blocks that it stands for by their positions and ids.  Finding the components takes
both from the world, and after that blocks only ever move from node to node or go away.  So wherever
a compilation stops, the id at a position is that of the block in the world, no position is named
twice, and every switch and indicator of the world is found in the netlist under its position.
-/

namespace Redstone

namespace Survey

open Circuit

variable {w : World} {r : Region} {p : Position} {b : Block} {n : Node}

theorem isInput_eq_of_component? (h : component? w p b = some n) :
    n.isInput = b.material.isSwitch := by
  unfold component? at h
  dsimp only at h
  cases hm : b.material <;> simp only [hm] at h <;> cases h <;> rfl

theorem isOutput_eq_of_component? (h : component? w p b = some n) :
    n.isOutput = b.material.isIndicator := by
  unfold component? at h
  dsimp only at h
  cases hm : b.material <;> simp only [hm] at h <;> cases h <;> rfl

/-- Neither switches nor indicators can be folded. -/
theorem isFoldable_of_gateType? {m : Material} {k : Gate} (h : gateType? m = some k.type)
    (hrole : m.isSwitch = true ∨ m.isIndicator = true) : k.isFoldable = false := by
  unfold Gate.isFoldable
  cases m <;> simp only [gateType?, Option.some.injEq, reduceCtorEq] at h <;>
    simp_all [Material.isSwitch, Material.isIndicator, ← h]

/-- Before any pass revises the circuit, its blocks have the ids of the world. -/
theorem Placed.ofId_block {g : Circuit} (h : Placed w g) (hw : w.InRange) {ref : BlockRef}
    (href : ref ∈ g.allBlocks) : Block.ofId ref.id = .ok (w.get ref.position) := by
  obtain ⟨id, n, hn, hblock⟩ := mem_allBlocks.mp href
  obtain ⟨p, hp⟩ := h.stands hn
  rw [blocks_of_component? hp, List.mem_singleton] at hblock
  subst hblock
  have hstored := mem_toList_iff.mp (mem_toList_of_standsAt hp)
  exact Block.ofId_id (hw p _ hstored).1

/-- Every component of a region is found there. -/
theorem exists_node_of_contains (hr : r.contains p = true) (hn : StandsAt w p n) :
    ∃ id, (addComponents w r .empty).node? id = some n := by
  have hstored := mem_toList_iff.mp (mem_toList_of_standsAt hn)
  have hmem : n ∈ components w r := mem_components.mpr ⟨p, hstored, hr, hn⟩
  obtain ⟨id, hid⟩ := List.mem_iff_getElem?.mp hmem
  refine ⟨id, ?_⟩
  rw [addComponents, node?_addNodes_empty]
  exact hid

/-- Every component of a world is found in its extent. -/
theorem exists_node_addComponents (hextent : w.extent = some r) (hn : StandsAt w p n) :
    ∃ id, (addComponents w r .empty).node? id = some n :=
  exists_node_of_contains
    (World.contains_of_extent hextent (mem_toList_iff.mp (mem_toList_of_standsAt hn))) hn

end Survey

namespace Compile

open Circuit Survey

variable {settings : Settings} {world : World} {region : Region} {g₀ g : Circuit}

/-- What a compilation knows of its circuit once it has found the components `g₀`. -/
structure Traced (g₀ g : Circuit) : Prop where
  lineage : Lineage g₀ g
  sound : g.Sound

/-- The passes after the survey keep track of the components. -/
theorem Traced.run (h : Traced g₀ g) {scene : Option Scene} {pass : Pass}
    (hpass : pass ∈ Pass.all.drop 2) {w : Workspace} (hw : w.circuit = g) :
    Traced g₀ (pass.run settings scene w).1.circuit := by
  subst hw
  rw [drop_two_all, List.mem_append, List.mem_singleton] at hpass
  rcases hpass with hpass | rfl
  · exact ⟨h.lineage.trans (Pass.upkept_run hpass settings scene w).lineage,
      Pass.sound_run hpass settings scene h.sound⟩
  · rw [circuit_exportGraph]
    exact h

/-- Wherever a compilation stops after finding the components, it has kept track of them. -/
theorem Traced.of_reaches (hpowered : world.Powered) (hplaced : Placed world g₀)
    (h : Run.Reaches settings (some { world, region }) (Pass.all.drop 1) g₀ g) : Traced g₀ g := by
  have hstart : Traced g₀ g₀ :=
    ⟨.refl g₀, hplaced.regular hpowered, hplaced.inRange hpowered⟩
  have hlater {g₁ : Circuit} (h₁ : Traced g₀ g₁)
      (h : Run.Reaches settings (some { world, region }) (Pass.all.drop 2) g₁ g) : Traced g₀ g :=
    h.keeps (fun pass hpass w hw => hw.run hpass rfl) h₁
  -- the wiring may be disabled, or the compilation may stop before it
  cases h with
  | stop => exact hstart
  | skip _ hrest => exact hlater hstart hrest
  | @step _ _ w _ _ hrest =>
      have hwired : Wired w.circuit (addWiring world w.circuit) := wired_addWiring hplaced
      exact hlater ⟨hwired.lineage, hwired.regular hplaced hpowered,
        hwired.circuit_inRange hplaced hpowered⟩ hrest

/-- The run of all passes of a compilation, from the components on. -/
theorem reaches_of_sceneIn {σ : Type} (env : Surroundings (StateM σ)) (world : World)
    (hidentify : settings.isDisabled Pass.identifyNodes.name = false)
    (hvalid : region.isValid = true) {w : Workspace} (hcancelled : w.monitor.cancelled = false)
    {s : σ} (hasked : (env.stopRequested.run s).1 = false) :
    ∃ g, ((sceneIn env settings { world, region } w).run s).1.circuit? = some g ∧
      Run.Reaches settings (some { world, region }) (Pass.all.drop 1)
        (addComponents world region .empty) g := by
  let r := Run.start (w.debug "compiling" [("bounds", region.text)]) Pass.all.length
  have henabled : Run.isEnabled settings Pass.identifyNodes = true := by
    rw [Run.isEnabled, hidentify]
    rfl
  obtain ⟨w', hw', hreaches⟩ := Run.reaches_after_first env (some { world, region })
    (Pass.all.drop 1) (r := r) hcancelled hasked henabled
  rw [run_identifyNodes settings world hvalid, hw'] at hreaches
  exact ⟨_, circuit?_outcome .., hreaches⟩

/-- A switch or an indicator of the world is found in the netlist, in its role. -/
theorem Traced.exists_lookup (h : Traced (addComponents world region .empty) g)
    (hextent : world.extent = some region) {flat : Netlist} (hflat : g.flatten = .ok flat)
    {p : Position} (hrole : (world.get p).material.isSwitch = true ∨
      (world.get p).material.isIndicator = true) :
    ∃ i node, flat.lookup p = some i ∧ flat.nodes[i]? = some node ∧
      gateType? (world.get p).material = some node.gate.type ∧
      node.isInput = (world.get p).material.isSwitch ∧
      node.isOutput = (world.get p).material.isIndicator := by
  obtain ⟨n, hn⟩ : ∃ n, StandsAt world p n := by
    unfold StandsAt component?
    cases hm : (world.get p).material <;> simp_all [Material.isSwitch, Material.isIndicator]
  have hin := isInput_eq_of_component? hn
  have hout := isOutput_eq_of_component? hn
  have htype := gateType?_of_component? hn
  have hkeep : n.isRemovable = false := by
    rw [Node.isRemovable_eq_false_iff, hin, hout]
    exact hrole
  obtain ⟨id, hid⟩ := exists_node_addComponents hextent hn
  obtain ⟨n', hn', hcont⟩ := h.lineage.kept hid hkeep
  -- a constant that has been folded would no longer be of the kind of the block
  have hgate : n'.gate = n.gate := by
    refine hcont.gate_eq.resolve_right fun hfold => ?_
    rw [isFoldable_of_gateType? htype hrole] at hfold
    cases hfold.1
  have hloss {i : LinkId} {l : Link} (hl : g.link? i = some l) : l.loss ≤ maxStrength :=
    (h.sound.inRange.link hl).loss_le
  have hnodup := h.lineage.positions_nodup (placed_addComponents world region).positions_nodup
  have hblock : (⟨p, (world.get p).id⟩ : BlockRef) ∈ n'.blocks := by
    rw [hcont.blocks_eq, blocks_of_component? hn]
    exact List.mem_singleton_self _
  obtain ⟨links, hnode⟩ := getElem?_flatten_of_node? hloss hflat hn'
  refine ⟨_, _, lookup_flatten hloss hnodup hflat hn' hblock, hnode, ?_, ?_, ?_⟩
  · exact htype.trans (congrArg (fun k => some k.type) hgate.symm)
  · exact hcont.isInput_eq.trans hin
  · exact hcont.isOutput_eq.trans hout

/-- Wherever the compilation of a world stops once its components have been found, the blocks of the
circuit are those of the world.  Each id gives back the block at its position, no position is named
twice, and unless the circuit is too large for a netlist, every switch and every indicator is found
in it under its position. -/
theorem blocks_are_true_to_world {σ : Type} (env : Surroundings (StateM σ)) (settings : Settings)
    (hidentify : settings.isDisabled Pass.identifyNodes.name = false) (data : Bytes) (world : World)
    (hread : World.read data = .ok world) (region : Region) (hextent : world.extent = some region)
    (w : Workspace) (hcancelled : w.monitor.cancelled = false) (s : σ)
    (hasked : (env.stopRequested.run s).1 = false) :
    ∃ g, ((sceneIn env settings { world, region } w).run s).1.circuit? = some g ∧
      (∀ id n, g.node? id = some n →
        ∀ b ∈ n.blocks, Block.ofId b.id = .ok (world.get b.position)) ∧
      (g.allBlocks.map BlockRef.position).Nodup ∧
      (ForwardLink.maxNodes < g.nodeCount → g.flatten = .error (.tooManyNodes g.nodeCount)) ∧
      (g.nodeCount ≤ ForwardLink.maxNodes → ∃ flat, g.flatten = .ok flat ∧
        ∀ p, (world.get p).material.isSwitch = true ∨ (world.get p).material.isIndicator = true →
          ∃ i node, flat.lookup p = some i ∧ flat.nodes[i]? = some node ∧
            gateType? (world.get p).material = some node.gate.type ∧
            node.isInput = (world.get p).material.isSwitch ∧
            node.isOutput = (world.get p).material.isIndicator) := by
  have hinRange := World.inRange_of_read hread
  have hplaced := placed_addComponents world region
  have hvalid := World.isValid_of_extent hextent
  obtain ⟨g, hcircuit, hreaches⟩ := reaches_of_sceneIn env world hidentify hvalid hcancelled
    hasked
  have htraced := Traced.of_reaches hinRange.powered hplaced hreaches
  have hcount := htraced.sound.regular.wellFormed.nodeCount_eq
  refine ⟨g, hcircuit, fun id n hn b hb => ?_, ?_, fun hlarge => ?_, fun hsmall => ?_⟩
  · exact hplaced.ofId_block hinRange
      (htraced.lineage.mem_allBlocks (mem_allBlocks.mpr ⟨id, n, hn, hb⟩))
  · exact htraced.lineage.positions_nodup hplaced.positions_nodup
  · rw [hcount] at hlarge ⊢
    exact flatten_of_lt hlarge
  · have hflat := flatten_eq (fun hl => (htraced.sound.inRange.link hl).loss_le) (hcount ▸ hsmall)
    exact ⟨_, hflat, fun p hrole => htraced.exists_lookup hextent hflat hrole⟩

/-- The lamp and its lever are found in the netlist, though the compilation is stopped before its
fifth pass. -/
theorem blocks_are_true_to_world_litLamp :
    ∃ g flat, ((sceneIn impatient .default ⟨litLamp, ⟨⟨0, 0, 0⟩, ⟨1, 0, 0⟩⟩⟩
        { log := { verbose := false } }).run 0).1.circuit? = some g ∧ g.flatten = .ok flat ∧
      (∀ id n, g.node? id = some n →
        ∀ b ∈ n.blocks, Block.ofId b.id = .ok (litLamp.get b.position)) ∧
      (∃ i node, flat.lookup ⟨0, 0, 0⟩ = some i ∧ flat.nodes[i]? = some node ∧
        node.gate.type = .lever ∧ node.isInput = true) ∧
      ∃ i node, flat.lookup ⟨1, 0, 0⟩ = some i ∧ flat.nodes[i]? = some node ∧
        node.gate.type = .lamp ∧ node.isOutput = true := by
  obtain ⟨g, hcircuit, htrue, -, -, hflattens⟩ := blocks_are_true_to_world impatient .default
    (by decide) (Bytes.ofString "0 0 0 lever powered=true\n1 0 0 lamp") litLamp rfl
    ⟨⟨0, 0, 0⟩, ⟨1, 0, 0⟩⟩ (by decide +kernel) { log := { verbose := false } } rfl 0 rfl
  have hsmall : (((sceneIn impatient .default ⟨litLamp, ⟨⟨0, 0, 0⟩, ⟨1, 0, 0⟩⟩⟩
      { log := { verbose := false } }).run 0).1.circuit?.all
        fun g => g.nodeCount ≤ ForwardLink.maxNodes) = true := by decide +kernel
  rw [hcircuit] at hsmall
  obtain ⟨flat, hflat, hlookup⟩ := hflattens (of_decide_eq_true hsmall)
  have hlever : litLamp.get ⟨0, 0, 0⟩ = { Block.placed .lever with powered := true } := by
    decide +kernel
  have hlamp : litLamp.get ⟨1, 0, 0⟩ = Block.placed .lamp := by decide +kernel
  obtain ⟨i, node, hi, hnode, htype, hin, -⟩ := hlookup ⟨0, 0, 0⟩ (.inl (hlever ▸ rfl))
  obtain ⟨j, node', hj, hnode', htype', -, hout⟩ := hlookup ⟨1, 0, 0⟩ (.inr (hlamp ▸ rfl))
  rw [hlever] at htype hin
  rw [hlamp] at htype' hout
  exact ⟨g, flat, hcircuit, hflat, htrue, ⟨i, node, hi, hnode, (Option.some.inj htype).symm, hin⟩,
    j, node', hj, hnode', (Option.some.inj htype').symm, hout⟩

end Compile

end Redstone
