import Redstone.Proofs.Compile
import Redstone.Proofs.Netlist.Steady
import Redstone.Proofs.Optimize.Exhaustion

/-!
# Outputs of worlds without switches

A world without switches and without loops settles to one state.  The optimization finds out what
its outputs show by folding, while a netlist is evaluated until it settles; both agree as long as
each repeater folds to the strength that it settles to.  A repeater may fail to do so, since it is
folded by the lock that its stored state tells of and evaluated by the power at its side input.
-/

namespace Redstone

/-- A block of the material is switched from outside. -/
def Material.isSwitch : Material → Bool
  | lever | button | pressurePlate => true
  | _ => false

/-- A block of the material shows the power that it is given. -/
def Material.isIndicator : Material → Bool
  | lamp | trapdoor | noteBlock => true
  | _ => false

/-- A gate that drives others is switched, or it can be folded, or it is a constant. -/
theorem Gate.isFoldable_or_isConstant_of_drives {k : Gate} (h : k.type.drives = true)
    (hswitch : k.type.isSwitch = false) : k.isFoldable = true ∨ k.isConstant = true := by
  unfold Gate.isFoldable Gate.isConstant
  cases htype : k.type <;> simp_all [GateType.drives, GateType.isSwitch]

namespace Optimize

open Circuit

variable {g : Circuit}

/-- The circuit after the passes up to the folding of constants. -/
def folded (g : Circuit) : Circuit :=
  (foldConstants (collapseBuses (dedupLinks g).circuit).circuit).circuit

/-- The circuit after the passes from the folding of constants on. -/
def tidied (g : Circuit) : Circuit :=
  (pruneOrphans (mergeDuplicates (shareConstants (Pass.removeUnreachable g).1).circuit).circuit).circuit

theorem refines_folded (h : g.Regular) : Refines g (folded g) := by
  have hdedup := refines_dedupLinks h
  have hbuses := refines_collapseBuses hdedup.regular
  exact (hdedup.trans hbuses).trans (refines_foldConstants hbuses.regular)

theorem refines_tidied (h : g.Regular) : Refines g (tidied g) := by
  have hreachable := Pass.refines_removeUnreachable h
  have hshared := refines_shareConstants hreachable.regular
  have hmerged := refines_mergeDuplicates hshared.regular
  exact ((hreachable.trans hshared).trans hmerged).trans (refines_pruneOrphans hmerged.regular)

theorem sound_folded (h : g.Sound) : (folded g).Sound :=
  sound_foldConstants (sound_collapseBuses (sound_dedupLinks h))

theorem sound_tidied (h : g.Sound) : (tidied g).Sound :=
  sound_pruneOrphans (sound_mergeDuplicates (sound_shareConstants
    (sound_settleOutputs (sound_pruneDeadLinks h))))

theorem gatesWithin_tidied (g : Circuit) : GatesWithin g (tidied g) :=
  (((gatesWithin_removeUnreachable g).trans (gatesWithin_shareConstants _)).trans
    (gatesWithin_mergeDuplicates _)).trans (gatesWithin_pruneOrphans _)

/-- Folding a cascade leaves an inert one. -/
theorem inert_folded {rank : NodeId → Nat} (h : g.Cascade rank) (hregular : g.Regular) :
    (folded g).Inert ∧ ∃ rank', (folded g).Cascade rank' := by
  have hdedup := refines_dedupLinks hregular
  have hbuses := (refines_collapseBuses hdedup.regular).regular
  obtain ⟨rank', hcascade⟩ := cascade_collapseBuses (h.removeLinks _) hdedup.regular
  exact ⟨inert_foldConstants hcascade hbuses, rank', cascade_foldConstants hcascade hbuses⟩

/-- The outputs of a cascade and of its optimized circuit settle to the same strengths, if the
repeaters of the cascade fold to what they settle to. -/
theorem readBack_tidied_folded {rank : NodeId → Nat} (h : g.Sound) (hcascade : g.Cascade rank)
    {flat settled flat' settled' : Netlist} {rounds rounds' : Nat} (hflat : g.flatten = .ok flat)
    (hsettle : flat.settle rounds = (settled, true)) (hlocks : flat.LocksHold settled)
    (hflat' : (tidied (folded g)).flatten = .ok flat')
    (hsettle' : flat'.settle rounds' = (settled', true)) {id : NodeId} {n : Node}
    (hn : g.node? id = some n) (hout : n.isOutput = true) :
    (tidied (folded g)).readBack settled' id = g.readBack settled id := by
  have hfolded := refines_folded h.regular
  have htidied := refines_tidied hfolded.regular
  obtain ⟨hinert, rank', hcascade'⟩ := inert_folded hcascade h.regular
  -- the output is in all three circuits, and it is an indicator in each
  have hrole : n.isRemovable = false := by simp [Node.isRemovable, hout]
  obtain ⟨m, hm, hcontinues⟩ := hfolded.lineage.kept hn hrole
  obtain ⟨m', hm', -⟩ := htidied.lineage.kept hm (hcontinues.isRemovable_eq.trans hrole)
  have hind := (hfolded.regular.nodes hm).output_indicator (hcontinues.isOutput_eq.trans hout)
  -- the strengths of the plain netlist are carried to the folded circuit
  have hplain := h.balanced_readBack hflat hsettle
    fun hn htype => h.folds_of_locksHold hflat hsettle hlocks hn htype
  obtain ⟨τ, hτ, hagree⟩ := hfolded.forward _ hplain
  -- those of the optimized netlist are carried back to it; there are no repeaters any more
  have hoptimized : (tidied (folded g)).Balanced ((tidied (folded g)).readBack settled') := by
    refine (sound_tidied (sound_folded h)).balanced_readBack hflat' hsettle' fun hn htype => ?_
    have hnot := hinert.of_gatesWithin (gatesWithin_tidied _) _ _ hn
    simp [Gate.isFoldable, htype] at hnot
  obtain ⟨τ', hτ', hagree'⟩ := htidied.backward (unlatched_of_inert hinert) _ hoptimized
  calc (tidied (folded g)).readBack settled' id
      = τ' id := hagree' id (contains_of_node? hm) (contains_of_node? hm')
    _ = τ id := indicator_eq_of_inert hinert hcascade' hfolded.regular.wellFormed hτ' hτ hm hind
    _ = g.readBack settled id := hagree id (contains_of_node? hn) (contains_of_node? hm)

end Optimize

namespace Survey

open Circuit

variable {w : World} {r : Region}

/-- The circuit of a world before any revision. -/
def surveyed (w : World) (r : Region) : Circuit :=
  addWiring w (addComponents w r .empty)

theorem wired_surveyed (w : World) (r : Region) :
    Wired (addComponents w r .empty) (surveyed w r) :=
  wired_addWiring (placed_addComponents w r)

theorem sound_surveyed (hpowered : w.Powered) : (surveyed w r).Sound :=
  ⟨(wired_surveyed w r).regular (placed_addComponents w r) hpowered,
    (wired_surveyed w r).circuit_inRange (placed_addComponents w r) hpowered⟩

theorem mem_toList_of_standsAt {p : Position} {n : Node} (h : StandsAt w p n) :
    (p, w.get p) ∈ w.toList := by
  cases hp : w.blocks[p]? with
  | some b =>
      have hmem := mem_toList_iff.mpr hp
      rw [get_of_mem_toList hmem]
      exact hmem
  | none =>
      have hair : w.get p = .air := by
        rw [World.get, hp]
        rfl
      rw [StandsAt, hair] at h
      cases h

/-- The component at a position of the world has a node. -/
theorem exists_node_of_standsAt (hextent : w.extent = some r) {p : Position} {n : Node}
    (h : StandsAt w p n) : ∃ id, (addComponents w r .empty).node? id = some n := by
  have hstored := mem_toList_iff.mp (mem_toList_of_standsAt h)
  have hmem : n ∈ components w r :=
    mem_components.mpr ⟨p, hstored, World.contains_of_extent hextent hstored, h⟩
  obtain ⟨id, hid⟩ := List.mem_iff_getElem?.mp hmem
  exact ⟨id, (node?_addNodes_empty _ id).trans hid⟩

theorem isSwitch_eq_of_gateType? {m : Material} {t : GateType} (h : gateType? m = some t) :
    t.isSwitch = m.isSwitch := by
  cases m <;> cases h <;> rfl

/-- Without switches, links start at constants and at gates that can be folded. -/
theorem driven_surveyed (hswitch : ∀ p ∈ w.toList, p.2.material.isSwitch = false) {i : LinkId}
    {l : Link} {n : Node} (hl : (surveyed w r).link? i = some l)
    (hn : (surveyed w r).node? l.source = some n) :
    n.gate.isFoldable = true ∨ n.gate.isConstant = true := by
  rw [(wired_surveyed w r).node?_eq] at hn
  have hdrives := (wired_surveyed w r).driven hl hn
  obtain ⟨p, hstands⟩ := (placed_addComponents w r).stands hn
  have hmaterial := hswitch _ (mem_toList_of_standsAt hstands)
  refine Gate.isFoldable_or_isConstant_of_drives hdrives ?_
  rw [isSwitch_eq_of_gateType? (gateType?_of_component? hstands)]
  exact hmaterial

/-- Every block that shows power is an output. -/
theorem exists_output_surveyed (hextent : w.extent = some r) {p : Position} {b : Block}
    (hb : (p, b) ∈ w.toList) (hind : b.material.isIndicator = true) :
    ∃ id n, (surveyed w r).node? id = some n ∧ n.isOutput = true ∧
      ∃ block ∈ n.blocks, block.position = p := by
  have hget := get_of_mem_toList hb
  obtain ⟨n, hn, hout⟩ : ∃ n, StandsAt w p n ∧ n.isOutput = true := by
    unfold StandsAt component?
    rw [hget]
    cases hm : b.material <;> simp_all [Material.isIndicator]
  obtain ⟨id, hid⟩ := exists_node_of_standsAt hextent hn
  refine ⟨id, n, ((wired_surveyed w r).node?_eq id).trans hid, hout,
    { position := p, id := (w.get p).id }, ?_, rfl⟩
  rw [blocks_of_component? hn]
  exact List.mem_singleton_self _

theorem positions_nodup_surveyed (w : World) (r : Region) :
    ((surveyed w r).allBlocks.map BlockRef.position).Nodup :=
  (wired_surveyed w r).lineage.positions_nodup (placed_addComponents w r).positions_nodup

end Survey

namespace Compile

open Circuit Survey Optimize

variable {settings : Settings} {world : World} {region : Region} {g : Circuit}

/-! ## The circuits of finished compilations -/

theorem isEnabled_eq (hdisabled : settings.disabled = []) (pass : Pass) :
    Run.isEnabled settings pass = pass.applies settings := by
  rw [Run.isEnabled, Settings.isDisabled, hdisabled]
  exact Bool.and_true _

theorem circuit_exportGraph (settings : Settings) (scene : Option Scene) (w : Workspace) :
    (Pass.exportGraph.run settings scene w).1.circuit = w.circuit := by
  unfold Pass.exportGraph
  dsimp only
  split
  case h_2 => rfl
  case h_1 w' hexport =>
    unfold Pass.exportCircuit Pass.writeArtifact at hexport
    split at hexport
    · cases hexport
    · split at hexport <;> split at hexport <;> cases hexport <;> rfl

theorem Finishes.exportGraph {scene : Option Scene} {g' : Circuit}
    (h : Run.Finishes settings scene [Pass.exportGraph] g g') : g' = g := by
  cases h with
  | skip _ hrest =>
      cases hrest
      rfl
  | step _ _ hrest =>
      rw [circuit_exportGraph] at hrest
      cases hrest
      rfl

/-- The two survey passes and the clamping of losses are always performed. -/
theorem finishes_clamped (hdisabled : settings.disabled = [])
    (h : Run.Finishes settings (some { world, region }) Pass.all .empty g) :
    Run.Finishes settings (some { world, region }) (Pass.all.drop 3)
      (clampLosses (surveyed world region)).circuit g := by
  have hcomponents := h.after (addComponents world region) (isEnabled_eq hdisabled _)
    fun w hok => ?_
  · have hwiring := hcomponents.after (addWiring world) (isEnabled_eq hdisabled _) fun _ _ => rfl
    exact hwiring.after (fun g => (clampLosses g).circuit) (isEnabled_eq hdisabled _)
      fun _ _ => Pass.circuit_run_ofRevision ..
  · change (if region.isValid then _ else _ : Workspace × Option PassError).2 = none at hok
    change (if region.isValid then _ else _ : Workspace × Option PassError).1.circuit = _
    split at hok
    case isTrue hvalid => rw [if_pos hvalid]
    case isFalse => cases hok

/-- Without optimization, a finished compilation has the circuit of the world with its losses
clamped. -/
theorem circuit_of_plain (hdisabled : settings.disabled = []) (hplain : settings.optimize = false)
    (h : Run.Finishes settings (some { world, region }) Pass.all .empty g) :
    g = (clampLosses (surveyed world region)).circuit := by
  have hskipped {pass : Pass} (happlies : pass.applies = Settings.optimize) :
      Run.isEnabled settings pass = false := by
    rw [isEnabled_eq hdisabled, happlies, hplain]
  have hfolding := (((finishes_clamped hdisabled h).afterSkipped (hskipped rfl)).afterSkipped
    (hskipped rfl)).afterSkipped (hskipped rfl)
  have htidying := (((hfolding.afterSkipped (hskipped rfl)).afterSkipped
    (hskipped rfl)).afterSkipped (hskipped rfl)).afterSkipped (hskipped rfl)
  exact Finishes.exportGraph htidying

/-- With optimization, this circuit has been through all revising passes. -/
theorem circuit_of_optimized (hdisabled : settings.disabled = [])
    (hoptimized : settings.optimize = true)
    (h : Run.Finishes settings (some { world, region }) Pass.all .empty g) :
    g = tidied (folded (clampLosses (surveyed world region)).circuit) := by
  have henabled {pass : Pass} (happlies : pass.applies = Settings.optimize) :
      Run.isEnabled settings pass = true := by
    rw [isEnabled_eq hdisabled, happlies, hoptimized]
  have hdedup := (finishes_clamped hdisabled h).after (fun g => (dedupLinks g).circuit)
    (henabled rfl) fun _ _ => Pass.circuit_run_ofRevision ..
  have hbuses := hdedup.after (fun g => (collapseBuses g).circuit)
    (henabled rfl) fun _ _ => Pass.circuit_run_ofRevision ..
  have hfolded := hbuses.after (fun g => (foldConstants g).circuit)
    (henabled rfl) fun _ _ => Pass.circuit_run_ofRevision ..
  have hreachable := hfolded.after (fun g => (Pass.removeUnreachable g).1)
    (henabled rfl) fun _ _ => Pass.circuit_run_ofRevision ..
  have hshared := hreachable.after (fun g => (shareConstants g).circuit)
    (henabled rfl) fun _ _ => Pass.circuit_run_ofRevision ..
  have hmerged := hshared.after (fun g => (mergeDuplicates g).circuit)
    (henabled rfl) fun _ _ => Pass.circuit_run_ofRevision ..
  have hpruned := hmerged.after (fun g => (pruneOrphans g).circuit)
    (henabled rfl) fun _ _ => Pass.circuit_run_ofRevision ..
  exact Finishes.exportGraph hpruned

/-- Compiling the text under the settings ends without an error, and the netlist of the circuit,
which is `flat`, settles to `settled`. -/
def Yields (settings : Settings) (data : Bytes) (flat settled : Netlist) : Prop :=
  ∃ (σ : Type) (env : Surroundings (StateM σ)) (w : Workspace) (s : σ) (rounds : Nat),
    let c := ((textIn env settings data w).run s).1
    c.error = none ∧ (c.circuit?.bind fun g => g.flatten.toOption) = some flat ∧
      flat.settle rounds = (settled, true)

theorem Yields.finishes {data : Bytes} {flat settled : Netlist}
    (h : Yields settings data flat settled)
    (hread : World.read data = .ok world) (hextent : world.extent = some region) :
    ∃ g rounds, Run.Finishes settings (some { world, region }) Pass.all .empty g ∧
      g.flatten = .ok flat ∧ flat.settle rounds = (settled, true) := by
  obtain ⟨σ, env, w, s, rounds, herror, hflat, hsettle⟩ := h
  rw [run_textIn env settings hread hextent] at herror hflat
  dsimp only at herror hflat
  rw [error_outcome, Option.map_eq_none_iff] at herror
  rw [circuit?_outcome, Option.bind_some] at hflat
  refine ⟨_, rounds, Run.finishes_of_allIn env herror, ?_, hsettle⟩
  generalize Circuit.flatten _ = flattened at hflat ⊢
  cases flattened with
  | error e => cases hflat
  | ok n =>
      cases hflat
      rfl

/-- Without switches and loops, every indicator shows the same in the plain and in the optimized
netlist once both have settled, if the repeaters of the plain netlist fold to what they settle
to. -/
theorem outputs_agree (plain optimized : Settings) (hplain : plain.optimize = false)
    (hoptimized : optimized.optimize = true) (hdisabled : plain.disabled = [])
    (hdisabled' : optimized.disabled = []) (data : Bytes) (world : World) (region : Region)
    (hread : World.read data = .ok world) (hextent : world.extent = some region)
    (hswitch : ∀ p ∈ world.toList, p.2.material.isSwitch = false)
    (hacyclic : (surveyed world region).Acyclic) (flat settled flat' settled' : Netlist)
    (h : Yields plain data flat settled) (h' : Yields optimized data flat' settled')
    (hlocks : flat.LocksHold settled) :
    ∀ p b, (p, b) ∈ world.toList → b.material.isIndicator = true →
      ∃ i j, settled.lookup p = some i ∧ settled'.lookup p = some j ∧
        settled.strength i = settled'.strength j := by
  have hsurveyed := sound_surveyed (r := region) (World.powered_of_read hread)
  have hcascade := cascade_clampLosses
    (hacyclic.cascade hsurveyed.regular.wellFormed (driven_surveyed hswitch))
  have hclamped := refines_clampLosses hsurveyed.regular
  have hsound := sound_clampLosses hsurveyed
  obtain ⟨g, rounds, hfinishes, hflat, hsettle⟩ := h.finishes hread hextent
  obtain ⟨g', rounds', hfinishes', hflat', hsettle'⟩ := h'.finishes hread hextent
  rw [circuit_of_plain hdisabled hplain hfinishes] at hflat
  rw [circuit_of_optimized hdisabled' hoptimized hfinishes'] at hflat'
  have hfolded := refines_folded hclamped.regular
  have htidied := refines_tidied hfolded.regular
  have hnodup := hclamped.lineage.positions_nodup (positions_nodup_surveyed world region)
  have hnodup' := (hfolded.trans htidied).lineage.positions_nodup hnodup
  rintro p b hb hind
  obtain ⟨id, n, hn, hout, block, hblock, rfl⟩ := exists_output_surveyed hextent hb hind
  have hrole : n.isRemovable = false := by simp [Node.isRemovable, hout]
  obtain ⟨m, hm, hcontinues⟩ := (hfolded.trans htidied).lineage.kept hn hrole
  have hstrength := readBack_tidied_folded hsound hcascade hflat hsettle hlocks hflat' hsettle'
    hn hout
  have hlookup := lookup_flatten (fun hl => (hsound.inRange.link hl).loss_le) hnodup hflat hn
    hblock
  have hlookup' := lookup_flatten
    (fun hl => ((sound_tidied (sound_folded hsound)).inRange.link hl).loss_le) hnodup' hflat' hm
    (hcontinues.blocks_eq ▸ hblock)
  have hevolves := Netlist.evolves_settle rounds flat
  have hevolves' := Netlist.evolves_settle rounds' flat'
  rw [hsettle] at hevolves
  rw [hsettle'] at hevolves'
  refine ⟨_, _, (hevolves.lookup_eq _).trans hlookup, (hevolves'.lookup_eq _).trans hlookup', ?_⟩
  exact hstrength.symm

/-- The netlist of a text, compiled while nobody asks to stop. -/
def netlistOf (optimize : Bool) (data : Bytes) : Netlist :=
  let c := ((textIn (m := StateM Unit) (.quiet (pure 0)) { Settings.default with optimize } data
    { log := { verbose := false } }).run ()).1
  (c.circuit?.bind fun g => g.flatten.toOption).getD .empty

/-- The netlist of a text after some rounds. -/
def settledOf (optimize : Bool) (data : Bytes) : Netlist :=
  ((netlistOf optimize data).settle 5).1

/-- A repeater that keeps its lamp lit, since another one locks it. -/
def latchText : Bytes :=
  Bytes.ofString ("1 0 0 repeater facing=east locked=true powered=true\n2 0 0 lamp\n" ++
    "1 0 1 repeater facing=north powered=true\n1 0 2 redstone_block")

/-- The world of the latch. -/
def latch : World :=
  (((World.empty.set { x := 1, y := 0, z := 0 }
    { Block.placed .repeater with facing := .east, locked := true, powered := true }).set
    { x := 2, y := 0, z := 0 } (Block.placed .lamp)).set
    { x := 1, y := 0, z := 1 } { Block.placed .repeater with facing := .north, powered := true }).set
    { x := 1, y := 0, z := 2 } (Block.placed .redstoneBlock)

/-- The region of the latch. -/
def latchRegion : Region where
  min := { x := 1, y := 0, z := 0 }
  max := { x := 2, y := 0, z := 2 }

/-- The nodes of the latch in the order in which they feed each other. -/
def latchRank : NodeId → Nat
  | 3 => 0
  | 2 => 1
  | 0 => 2
  | _ => 3

theorem acyclic_latch : (surveyed latch latchRegion).Acyclic := by
  have hlinks : ∀ i ∈ (surveyed latch latchRegion).linkIds,
      ((surveyed latch latchRegion).link? i).all fun l =>
        latchRank l.source < latchRank l.target := by decide +kernel
  refine acyclic_of_rank latchRank fun i l hl => ?_
  have hclimbs := hlinks i (mem_linkIds.mpr ⟨l, hl⟩)
  rw [hl] at hclimbs
  exact of_decide_eq_true hclimbs

/-- The lamp of the latch shows the same with and without optimization. -/
theorem outputs_agree_latch :
    ∃ i j, (settledOf false latchText).lookup { x := 2, y := 0, z := 0 } = some i ∧
      (settledOf true latchText).lookup { x := 2, y := 0, z := 0 } = some j ∧
      (settledOf false latchText).strength i = (settledOf true latchText).strength j := by
  have hyields (optimize : Bool) : Yields { Settings.default with optimize } latchText
      (netlistOf optimize latchText) (settledOf optimize latchText) := by
    refine ⟨Unit, .quiet (pure 0), { log := { verbose := false } }, (), 5, ?_⟩
    cases optimize <;> decide +kernel
  exact outputs_agree { Settings.default with optimize := false }
    { Settings.default with optimize := true } rfl rfl rfl rfl latchText latch latchRegion rfl
    (by decide +kernel) (by decide +kernel) acyclic_latch _ _ _ _ (hyields false) (hyields true)
    (by decide +kernel) { x := 2, y := 0, z := 0 } (Block.placed .lamp) (by decide +kernel) rfl

/-- A repeater that is stored as locked, but that nothing locks. -/
def looseText : Bytes :=
  Bytes.ofString "0 0 0 repeater facing=east locked=true powered=true\n1 0 0 lamp\n"

/-- Folding keeps the lamp of a loose repeater lit, while evaluation puts it out. -/
theorem outputs_differ_loose :
    (netlistOf false looseText).settle 5 = (settledOf false looseText, true) ∧
      (netlistOf true looseText).settle 5 = (settledOf true looseText, true) ∧
      (settledOf false looseText).lookup { x := 1, y := 0, z := 0 } = some 1 ∧
      (settledOf true looseText).lookup { x := 1, y := 0, z := 0 } = some 1 ∧
      (settledOf false looseText).strength 1 = 0 ∧
      (settledOf true looseText).strength 1 = maxStrength := by
  decide +kernel

end Compile

end Redstone
