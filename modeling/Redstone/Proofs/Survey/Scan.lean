import Redstone.Proofs.Outputs
import Redstone.Proofs.Space.Region

/-!
# The survey of a world is complete

A world lists its blocks in scanning order, and its extent is the smallest region that holds them
all, whatever has been placed and cleared before.  So looking at the blocks alone finds the same
components, in the same order, as looking at every position of the extent.  A compilation without
optimization leaves them as they are: its nodes are the components of the world, one for each
block that is one.
-/

namespace Redstone

namespace World

variable {w : World} {r : Region} {p : Position} {b : Block}

/-! ## Stored blocks -/

/-- No block of the world is air. -/
def NoAir (w : World) : Prop :=
  ∀ (p : Position) (b : Block), w.blocks[p]? = some b → b.material ≠ .air

theorem InRange.noAir (h : w.InRange) : w.NoAir :=
  fun p b hb => (h p b hb).2

theorem NoAir.set (h : w.NoAir) (p : Position) (b : Block) : (w.set p b).NoAir :=
  forall_blocks_set h p id

/-- The blocks are those that can be seen and are not air. -/
theorem NoAir.getElem?_eq_some_iff (h : w.NoAir) :
    w.blocks[p]? = some b ↔ w.get p = b ∧ b.material ≠ .air := by
  rw [get]
  cases hp : w.blocks[p]? with
  | none =>
      constructor
      · intro hb
        cases hb
      · rintro ⟨rfl, hair⟩
        exact absurd rfl hair
  | some c =>
      constructor
      · rintro ⟨⟩
        exact ⟨rfl, h p b hp⟩
      · rintro ⟨rfl, -⟩
        rfl

theorem NoAir.mem_keys (h : w.NoAir) : p ∈ w.blocks.keys ↔ (w.get p).material ≠ .air := by
  rw [Std.ExtTreeMap.mem_keys, Std.ExtTreeMap.mem_iff_isSome_getElem?, Option.isSome_iff_exists]
  constructor
  · rintro ⟨b, hb⟩
    obtain ⟨rfl, hair⟩ := h.getElem?_eq_some_iff.mp hb
    exact hair
  · intro hair
    exact ⟨w.get p, h.getElem?_eq_some_iff.mpr ⟨rfl, hair⟩⟩

theorem NoAir.mem_toList (h : w.NoAir) :
    (p, b) ∈ w.toList ↔ w.get p = b ∧ b.material ≠ .air :=
  Survey.mem_toList_iff.trans h.getElem?_eq_some_iff

/-- Blocks are listed in scanning order. -/
theorem pairwise_toList (w : World) : w.toList.Pairwise fun x y => x.1.Precedes y.1 :=
  Std.ExtTreeMap.ordered_keys_toList.imp Position.scanOrder_eq_lt_iff.mp

/-! ## The extent -/

/-- The world in which some blocks have been placed, one after the other. -/
def build (placements : List (Position × Block)) : World :=
  placements.foldl (fun w x => w.set x.1 x.2) .empty

theorem noAir_build (placements : List (Position × Block)) : (build placements).NoAir := by
  have hfold (placements : List (Position × Block)) (w : World) (h : w.NoAir) :
      (placements.foldl (fun w x => w.set x.1 x.2) w).NoAir := by
    induction placements generalizing w with
    | nil => exact h
    | cons x rest ih => exact ih _ (h.set x.1 x.2)
  refine hfold placements .empty fun p b hb => ?_
  simp [empty] at hb

/-- The region is the smallest one that holds all blocks, in whatever order these are looked at,
and whatever has been placed and cleared to get them. -/
structure Spans (w : World) (r : Region) : Prop where
  isValid : r.isValid = true
  contains : ∀ p, (w.get p).material ≠ .air → r.contains p = true
  smallest : ∀ r', (∀ p, (w.get p).material ≠ .air → r'.contains p = true) → r.Within r'
  hull_eq : ∀ ps, (∀ p, p ∈ ps ↔ (w.get p).material ≠ .air) → Region.hull ps = some r
  extent_build : ∀ placements, (∀ p, (build placements).get p = w.get p) →
    (build placements).extent = some r

theorem NoAir.spans (h : w.NoAir) (hextent : w.extent = some r) : w.Spans r where
  isValid := isValid_of_extent hextent
  contains := fun p hp => Region.contains_of_hull hextent (h.mem_keys.mpr hp)
  smallest := fun r' hr' => Region.within_of_hull hextent fun p hp => hr' p (h.mem_keys.mp hp)
  hull_eq := by
    intro ps hps
    rw [← hextent, extent]
    exact Region.hull_congr fun p => (hps p).trans h.mem_keys.symm
  extent_build := by
    intro placements hsame
    rw [← hextent, extent, extent]
    refine Region.hull_congr fun p => ?_
    rw [(noAir_build placements).mem_keys, h.mem_keys, hsame]

end World

namespace Circuit

variable {g g' : Circuit}

/-! ## The list of nodes -/

theorem nodes_congr (hbound : g'.nodeBound = g.nodeBound)
    (hnode : ∀ id, g'.node? id = g.node? id) : g'.nodes = g.nodes := by
  have hcontains (id : NodeId) : g'.contains id = g.contains id := by
    rw [Bool.eq_iff_iff, contains_iff, contains_iff, hnode]
  unfold nodes
  rw [nodeIds_congr hbound hcontains]
  simp only [hnode]

end Circuit

namespace Survey

open Circuit

variable {w : World} {r : Region} {p : Position} {b : Block}

/-! ## The list of components -/

/-- Every block of a known material is a component, but for air, solid blocks and containers. -/
theorem exists_component? (hb : b.InRange) (hair : b.material ≠ .air) (hsolid : b.material ≠ .solid)
    (hcontainer : b.material ≠ .container) : ∃ n, component? w p b = some n := by
  have hcode := hb.material_le
  unfold component?
  cases hm : b.material with
  | undefined e =>
      -- the codes of undefined materials begin behind the last one that can be read
      have hlt : 14 + e.val < 256 := by omega
      rw [hm, UInt8.le_iff_toNat_le] at hcode
      change (UInt8.ofNat (14 + e.val)).toNat ≤ 13 at hcode
      rw [UInt8.toNat_ofNat_of_lt' hlt] at hcode
      omega
  | _ => simp_all

theorem component?_eq_none (h : b.material = .solid ∨ b.material = .container) :
    component? w p b = none := by
  unfold component?
  rcases h with h | h <;> rw [h]

/-- The components of some blocks, one for each that is neither solid nor a container. -/
theorem map_filterMap_component? {blocks : List (Position × Block)}
    (h : ∀ x ∈ blocks, x.2.InRange ∧ x.2.material ≠ .air) :
    ((blocks.filterMap fun (p, b) => component? w p b).map fun n =>
        (some n.gate.type, n.blocks)) =
      (blocks.filter fun x => x.2.material ≠ .solid ∧ x.2.material ≠ .container).map fun x =>
        (gateType? x.2.material, [⟨x.1, x.2.id⟩]) := by
  induction blocks with
  | nil => rfl
  | cons x rest ih =>
      obtain ⟨p, b⟩ := x
      have hrest := ih fun y hy => h y (List.mem_cons_of_mem _ hy)
      obtain ⟨hb, hair⟩ := h (p, b) List.mem_cons_self
      by_cases hplain : b.material = .solid ∨ b.material = .container
      · rw [List.filterMap_cons_none (by exact component?_eq_none hplain), List.filter_cons_of_neg,
          hrest]
        simpa [imp_iff_not_or] using hplain
      · rw [not_or] at hplain
        obtain ⟨n, hn⟩ := exists_component? (w := w) (p := p) hb hair hplain.1 hplain.2
        rw [List.filterMap_cons_some (by exact hn), List.filter_cons_of_pos (by simpa using hplain),
          List.map_cons, List.map_cons, hrest, gateType?_of_component? hn,
          blocks_of_component? hn]

/-- Looking at every position of a region finds the blocks in it, in the order of their list. -/
theorem filter_toList_eq_scan (w : World) (r : Region) :
    (w.toList.filter fun (p, _) => r.contains p) =
      r.positions.filterMap fun p => w.blocks[p]?.map (p, ·) := by
  let before (x y : Position × Block) : Prop := x.1.Precedes y.1
  have hne {x y : Position × Block} (h : before x y) : x ≠ y :=
    fun heq => h.ne (congrArg Prod.fst heq)
  have hlist : (w.toList.filter fun (p, _) => r.contains p).Pairwise before :=
    w.pairwise_toList.filter _
  have hscan : (r.positions.filterMap fun p => w.blocks[p]?.map (p, ·)).Pairwise before := by
    rw [List.pairwise_filterMap]
    refine r.pairwise_positions.imp fun {p q} h x hx y hy => ?_
    obtain ⟨b, -, rfl⟩ := Option.map_eq_some_iff.mp hx
    obtain ⟨c, -, rfl⟩ := Option.map_eq_some_iff.mp hy
    exact h
  -- two lists in scanning order with the same members are the same
  refine List.Perm.eq_of_pairwise (fun x y _ _ h h' => (h.asymm h').elim) hlist hscan ?_
  rw [List.perm_ext_iff_of_nodup (hlist.imp hne) (hscan.imp hne)]
  rintro ⟨p, b⟩
  rw [List.mem_filter, mem_toList_iff, List.mem_filterMap]
  constructor
  · rintro ⟨hb, hp⟩
    exact ⟨p, Region.mem_positions.mpr hp, by rw [hb]; rfl⟩
  · rintro ⟨q, hq, hqb⟩
    obtain ⟨c, hc, heq⟩ := Option.map_eq_some_iff.mp hqb
    cases heq
    exact ⟨hc, Region.mem_positions.mp hq⟩

/-- Looking at every position of a region finds its components. -/
theorem components_eq_scan (w : World) (r : Region) :
    components w r = r.positions.filterMap fun p => component? w p (w.get p) := by
  unfold components
  rw [filter_toList_eq_scan, List.filterMap_filterMap]
  refine List.filterMap_congr fun p _ => ?_
  rw [World.get]
  cases w.blocks[p]? <;> rfl

/-- The nodes of the circuit are the components of the world, in scanning order: one for each block
that is neither solid nor a container, as they are found when the region is looked at position by
position. -/
structure Lists (world : World) (region : Region) (g : Circuit) : Prop where
  pairwise_ids : (g.nodes.map Prod.fst).Pairwise (· < ·)
  mem_nodes : ∀ id n, (id, n) ∈ g.nodes ↔ g.node? id = some n
  nodes_eq : (g.nodes.map fun x => (some x.2.gate.type, x.2.blocks)) =
    (world.toList.filter fun x => x.2.material ≠ .solid ∧ x.2.material ≠ .container).map fun x =>
      (gateType? x.2.material, [⟨x.1, x.2.id⟩])
  scan_eq : g.nodes.map Prod.snd = region.positions.filterMap fun p => component? world p (world.get p)

theorem lists_addComponents (hw : w.InRange) (hextent : w.extent = some r) :
    Lists w r (addComponents w r .empty) where
  pairwise_ids := by
    rw [map_fst_nodes]
    exact pairwise_nodeIds _
  mem_nodes := fun _ _ => Circuit.mem_nodes
  nodes_eq := by
    have hstored : ∀ x ∈ w.toList, w.blocks[x.1]? = some x.2 := fun x hx => mem_toList_iff.mp hx
    have hall : (w.toList.filter fun (p, _) => r.contains p) = w.toList :=
      List.filter_eq_self.mpr fun x hx => World.contains_of_extent hextent (hstored x hx)
    have hmap : ((addComponents w r .empty).nodes.map fun x => (some x.2.gate.type, x.2.blocks)) =
        (components w r).map fun n => (some n.gate.type, n.blocks) := by
      rw [addComponents, ← nodes_addNodes_empty (components w r), List.map_map,
        nodes_addNodes_empty]
      rfl
    rw [hmap, components, hall]
    exact map_filterMap_component? fun x hx => hw x.1 x.2 (hstored x hx)
  scan_eq := by
    rw [addComponents, nodes_addNodes_empty, components_eq_scan]

/-- Links do not matter. -/
theorem Lists.of_node?_eq {g g' : Circuit} (h : Lists w r g) (hbound : g'.nodeBound = g.nodeBound)
    (hnode : ∀ id, g'.node? id = g.node? id) : Lists w r g' where
  pairwise_ids := nodes_congr hbound hnode ▸ h.pairwise_ids
  mem_nodes := fun _ _ => Circuit.mem_nodes
  nodes_eq := nodes_congr hbound hnode ▸ h.nodes_eq
  scan_eq := nodes_congr hbound hnode ▸ h.scan_eq

end Survey

namespace Compile

open Circuit Survey Optimize

variable {settings : Settings} {world : World} {region : Region}

/-! ## Compiling without optimization -/

theorem isEnabled_exportGraph (hexports : settings.exports = false) :
    Run.isEnabled settings Pass.exportGraph = false := by
  rw [Run.isEnabled]
  change (settings.exports && _) = false
  rw [hexports, Bool.false_and]

/-- No pass asks the compilation to stop. -/
theorem cancelled_run (hexports : settings.exports = false) {pass : Pass} (hpass : pass ∈ Pass.all)
    (henabled : Run.isEnabled settings pass = true) (scene : Option Scene) (w : Workspace) :
    (pass.run settings scene w).1.monitor.cancelled = w.monitor.cancelled := by
  have hrevision (name status : String) (applies : Settings → Bool)
      (revise : Circuit → Circuit × List Nat) (summary : Option (String × List String)) :
      ((Pass.ofRevision name status applies revise summary).run settings scene w).1.monitor.cancelled =
        w.monitor.cancelled := by
    cases summary <;> rfl
  simp only [Pass.all, List.mem_cons, List.not_mem_nil, or_false] at hpass
  rcases hpass with rfl | rfl | rfl | rfl | rfl | rfl | rfl | rfl | rfl | rfl | rfl
  · unfold Pass.identifyNodes
    dsimp only
    split
    · rfl
    · split <;> rfl
  · unfold Pass.inputSearch
    dsimp only
    split <;> rfl
  case inr.inr.inr.inr.inr.inr.inr.inr.inr.inr =>
    rw [isEnabled_exportGraph hexports] at henabled
    cases henabled
  all_goals exact hrevision ..

/-- A compilation that is neither asked to stop nor to export ends without an error. -/
theorem finishes_of_unasked {σ : Type} (env : Surroundings (StateM σ))
    (hasked : ∀ s, (env.stopRequested.run s).1 = false) (hexports : settings.exports = false)
    (hpowered : world.Powered) (hvalid : region.isValid = true) {w : Workspace}
    (hcancelled : w.monitor.cancelled = false) (s : σ) :
    let out := (Run.allIn env settings (some { world, region }) Pass.all w).run s
    out.1.2 = none ∧ Run.Finishes settings (some { world, region }) Pass.all .empty
      out.1.1.workspace.circuit := by
  have hstart :
      Stage settings world Pass.all (Run.start w Pass.all.length).workspace.circuit :=
    .inl ⟨rfl, rfl⟩
  obtain ⟨-, herror⟩ := (stages hexports hpowered hvalid).stepsIn env hstart s
  have hunasked : ((Run.allIn env settings (some { world, region }) Pass.all w).run s).1.2 ≠
      some .cancelled :=
    Run.ne_cancelled_of_unasked env hasked
      (fun pass hpass henabled w => cancelled_run hexports hpass henabled _ w) hcancelled s
  have hnone := herror.resolve_right hunasked
  exact ⟨hnone, Run.finishes_of_allIn env hnone⟩

/-- Without optimization, the circuit has the nodes that the survey finds. -/
theorem lists_of_plain {g : Circuit} (hdisabled : settings.disabled = [])
    (hplain : settings.optimize = false) (hw : world.InRange) (hextent : world.extent = some region)
    (h : Run.Finishes settings (some { world, region }) Pass.all .empty g) :
    Lists world region g := by
  rw [circuit_of_plain hdisabled hplain h]
  have hwired := wired_surveyed world region
  have hsurveyed := (lists_addComponents hw hextent).of_node?_eq hwired.nodeBound_eq hwired.node?_eq
  exact hsurveyed.of_node?_eq rfl (fun _ => rfl)

/-- Compiling a world without optimization loses no component: the nodes of the circuit are those of
its blocks, in scanning order, but for solid blocks and containers.  The region that is looked at is
the smallest one that holds all blocks. -/
theorem survey_is_complete {σ : Type} (now : StateM σ Instant) (settings : Settings)
    (hplain : settings.optimize = false) (hdisabled : settings.disabled = [])
    (hexports : settings.exports = false) (data : Bytes) (world : World)
    (hread : World.read data = .ok world) (hblocks : 0 < world.size) (w : Workspace)
    (hcancelled : w.monitor.cancelled = false) (s : σ) :
    let c := ((worldIn (.quiet now) settings none world w).run s).1
    (∀ source : String, Bytes.ofString source = data →
      ((text now settings source w).run s).1 = c) ∧
    (∀ p b, (p, b) ∈ world.toList ↔ world.get p = b ∧ b.material ≠ .air) ∧
    (world.toList.Pairwise fun x y => x.1.Precedes y.1) ∧
    c.error = none ∧
    ∃ g region, c.circuit? = some g ∧ Lists world region g ∧ world.extent = some region ∧
      world.Spans region := by
  have hw := World.inRange_of_read hread
  obtain ⟨region, hextent, hvalid⟩ := World.exists_extent hblocks
  let w' := w.debug "compiling" [("bounds", region.text)]
  obtain ⟨hnone, hfinishes⟩ := finishes_of_unasked (.quiet now) (fun _ => rfl) hexports hw.powered
    hvalid (w := w') hcancelled s
  have hrun : ((worldIn (.quiet now) settings none world w).run s).1 =
      (let out := (Run.allIn (.quiet now) settings (some { world, region }) Pass.all w').run s
      outcome settings out.1.1 out.1.2) := by
    rw [worldIn, hextent]
    rfl
  refine ⟨fun source hsource => ?_, fun p b => hw.noAir.mem_toList, world.pairwise_toList, ?_, ?_⟩
  · rw [text, textIn, hsource, hread]
  · rw [hrun]
    dsimp only
    rw [error_outcome, hnone]
    rfl
  · rw [hrun]
    exact ⟨_, region, circuit?_outcome .., lists_of_plain hdisabled hplain hw hextent hfinishes,
      hextent, hw.noAir.spans hextent⟩

/-- Blocks at the limits of the coordinates, and a wire that is cleared again. -/
def cornersText : String :=
  "2147483647 0 0 lamp\n-2147483648 5 0 lever\n7 9 9 wire\n7 9 9 air\n0 -2147483648 0 solid"

/-- The world of the corners. -/
def corners : World :=
  .build [(⟨2147483647, 0, 0⟩, .placed .lamp), (⟨-2147483648, 5, 0⟩, .placed .lever),
    (⟨7, 9, 9⟩, .placed .wire), (⟨7, 9, 9⟩, .placed .air), (⟨0, -2147483648, 0⟩, .placed .solid)]

/-- The lamp and the lever are found, and the extent reaches from limit to limit. -/
theorem survey_is_complete_corners :
    let c := ((text (m := StateM Unit) (pure 0) { Settings.default with optimize := false }
      cornersText { log := { verbose := false } }).run ()).1
    c.error = none ∧
    (∃ g, c.circuit? = some g ∧ (g.nodes.map fun x => (some x.2.gate.type, x.2.blocks)) =
      [(some .lamp, [⟨⟨2147483647, 0, 0⟩, 6⟩]), (some .lever, [⟨⟨-2147483648, 5, 0⟩, 7⟩])]) ∧
    corners.Spans ⟨⟨-2147483648, -2147483648, 0⟩, ⟨2147483647, 5, 0⟩⟩ := by
  obtain ⟨htext, -, -, herror, g, region, hcircuit, hlists, hextent, hspans⟩ :=
    survey_is_complete (σ := Unit) (pure 0) { Settings.default with optimize := false } rfl rfl rfl
      (Bytes.ofString cornersText) corners rfl (by decide +kernel)
      { log := { verbose := false } } rfl ()
  have hblocks : (corners.toList.filter fun x =>
        x.2.material ≠ .solid ∧ x.2.material ≠ .container).map (fun x =>
          (gateType? x.2.material, [(⟨x.1, x.2.id⟩ : BlockRef)])) =
      [(some .lamp, [⟨⟨2147483647, 0, 0⟩, 6⟩]), (some .lever, [⟨⟨-2147483648, 5, 0⟩, 7⟩])] := by
    decide +kernel
  have hregion : corners.extent =
      some ⟨⟨-2147483648, -2147483648, 0⟩, ⟨2147483647, 5, 0⟩⟩ := by
    decide +kernel
  rw [hextent] at hregion
  cases hregion
  intro c
  have hc := htext cornersText rfl
  refine ⟨?_, ⟨g, ?_, hlists.nodes_eq.trans hblocks⟩, hspans⟩
  · exact (congrArg Compilation.error hc).trans herror
  · exact (congrArg Compilation.circuit? hc).trans hcircuit

end Compile

end Redstone
