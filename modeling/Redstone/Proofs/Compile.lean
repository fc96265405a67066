import Redstone.Compile
import Redstone.Proofs.Netlist.Flatten
import Redstone.Proofs.Optimize.Size
import Redstone.Proofs.Pipeline.Run
import Redstone.Proofs.Strict.Passes

/-!
# A compilation is valid wherever it stops

A compilation can be asked to stop before any of its passes, and any of its passes can be switched
off.  The circuit that it leaves behind is sound in all cases: it comes from the components of the
world, and every pass that has been performed was given a circuit that it can deal with.  So the
circuit can be flattened, written and read back, and no pass has used a name that stood for
nothing.
-/

namespace Redstone

namespace Compile

open Circuit Survey

/-- How many times as many nodes as they find the enabled ones of some passes can leave. -/
def growth (settings : Settings) (passes : List Pass) : Nat :=
  ((passes.filter (Run.isEnabled settings)).map Pass.growth).prod

/-- What is known of a circuit once the components have been linked, before the passes `rest`. -/
structure Grown (settings : Settings) (world : World) (rest : List Pass) (g : Circuit) : Prop where
  sound : g.Sound
  blocks_le : g.allBlocks.length ≤ world.size
  nodes_le : g.nodeIds.length * growth settings rest ≤ world.size * growth settings Pass.all

/-- The stages of a compilation: before components are found the circuit is empty, before they
are linked it has no links, and after that it is revised. -/
def Stage (settings : Settings) (world : World) (passes : List Pass) (g : Circuit) : Prop :=
  passes = Pass.all ∧ g = .empty ∨
    passes = Pass.all.drop 1 ∧ Placed world g ∨
    passes <:+ Pass.all.drop 2 ∧ Grown settings world passes g

variable {settings : Settings} {world : World} {region : Region} {g : Circuit}

/-! ## Growth -/

theorem growth_cons (settings : Settings) (pass : Pass) (rest : List Pass) :
    growth settings (pass :: rest) =
      (if Run.isEnabled settings pass then pass.growth else 1) * growth settings rest := by
  unfold growth
  rw [List.filter_cons]
  split
  · rw [List.map_cons, List.prod_cons]
  · rw [Nat.one_mul]

theorem growth_pos (settings : Settings) (passes : List Pass) : 0 < growth settings passes := by
  induction passes with
  | nil => exact Nat.one_pos
  | cons pass rest ih =>
      rw [growth_cons]
      refine Nat.mul_pos ?_ ih
      split
      · exact pass.growth_pos
      · exact Nat.one_pos

theorem growth_le_of_suffix {rest passes : List Pass} (h : rest <:+ passes) :
    growth settings rest ≤ growth settings passes := by
  obtain ⟨done, rfl⟩ := h
  have happend : growth settings (done ++ rest) = growth settings done * growth settings rest := by
    simp only [growth, List.filter_append, List.map_append, List.prod_append]
  rw [happend]
  exact Nat.le_mul_of_pos_left _ (growth_pos settings done)

/-- How many nodes a compilation can leave for each block of the world: one, unless passes are
performed that give outputs and connected parts constants of their own. -/
def nodesPerBlock (settings : Settings) : Nat :=
  (if Run.isEnabled settings Pass.unreachableOutput then 2 else 1) *
    (if Run.isEnabled settings Pass.constantCoalesce then 17 else 1)

theorem growth_all (settings : Settings) : growth settings Pass.all = nodesPerBlock settings := by
  have hone {pass : Pass} (hpass : pass.growth = 1) (rest : List Pass) :
      growth settings (pass :: rest) = growth settings rest := by
    rw [growth_cons, hpass, ite_self, Nat.one_mul]
  have hnil : growth settings [] = 1 := rfl
  rw [Pass.all, hone rfl, hone rfl, hone rfl, hone rfl, hone rfl, hone rfl, growth_cons, growth_cons,
    hone rfl, hone rfl, hone rfl, hnil, Nat.mul_one]
  rfl

theorem Grown.of_placed (h : Placed world g) (hpowered : world.Powered) {rest : List Pass}
    (hrest : rest <:+ Pass.all) : Grown settings world rest g where
  sound := ⟨h.regular hpowered, h.inRange hpowered⟩
  blocks_le := h.blocks_le
  nodes_le := by
    rw [← h.wellFormed.nodeCount_eq]
    exact Nat.mul_le_mul h.nodeCount_le (growth_le_of_suffix hrest)

theorem Grown.of_wired {g₀ : Circuit} (h : Wired g₀ g) (hplaced : Placed world g₀)
    (hpowered : world.Powered) {rest : List Pass} (hrest : rest <:+ Pass.all) :
    Grown settings world rest g where
  sound := ⟨h.regular hplaced hpowered, h.circuit_inRange hplaced hpowered⟩
  blocks_le := Nat.le_trans h.lineage.blocks.length_le hplaced.blocks_le
  nodes_le := by
    have hcontains (id : NodeId) : g.contains id = g₀.contains id := by
      rw [Bool.eq_iff_iff, contains_iff, contains_iff, h.node?_eq]
    rw [nodeIds_congr h.nodeBound_eq hcontains, ← hplaced.wellFormed.nodeCount_eq]
    exact Nat.mul_le_mul hplaced.nodeCount_le (growth_le_of_suffix hrest)

theorem snd_run_ofRevision (name status : String) (applies : Settings → Bool)
    (revise : Circuit → Circuit × List Nat) (summary : Option (String × List String))
    (settings : Settings) (scene : Option Scene) (w : Workspace) :
    ((Pass.ofRevision name status applies revise summary).run settings scene w).2 = none := by
  cases summary <;> rfl

theorem snd_run_of_mem_revisions {pass : Pass} (hpass : pass ∈ Pass.revisions)
    (settings : Settings) (scene : Option Scene) (w : Workspace) :
    (pass.run settings scene w).2 = none := by
  simp only [Pass.revisions, List.mem_cons, List.not_mem_nil, or_false] at hpass
  rcases hpass with rfl | rfl | rfl | rfl | rfl | rfl | rfl | rfl <;>
    exact snd_run_ofRevision ..

/-- A revising pass goes on with a circuit that is known as well. -/
theorem Grown.run {pass : Pass} {rest : List Pass} (hpass : pass ∈ Pass.revisions)
    (henabled : Run.isEnabled settings pass = true) (scene : Option Scene) {w : Workspace}
    (h : Grown settings world (pass :: rest) w.circuit) :
    Grown settings world rest (pass.run settings scene w).1.circuit where
  sound := Pass.sound_run hpass settings scene h.sound
  blocks_le := by
    have hlineage := (Pass.refines_run hpass settings scene h.sound.regular).lineage
    exact Nat.le_trans hlineage.blocks.length_le h.blocks_le
  nodes_le := by
    have hnodes := h.nodes_le
    rw [growth_cons, if_pos henabled, ← Nat.mul_assoc] at hnodes
    have hrun := Pass.length_nodeIds_run_le hpass settings scene h.sound.regular
    exact Nat.le_trans (Nat.mul_le_mul_right _ hrun) hnodes

theorem Grown.skip {pass : Pass} {rest : List Pass} (hskipped : Run.isEnabled settings pass = false)
    (h : Grown settings world (pass :: rest) g) : Grown settings world rest g where
  sound := h.sound
  blocks_le := h.blocks_le
  nodes_le := by
    have hnodes := h.nodes_le
    rw [growth_cons, hskipped, if_neg Bool.false_ne_true, Nat.one_mul] at hnodes
    exact hnodes

theorem drop_two_all : Pass.all.drop 2 = Pass.revisions ++ [Pass.exportGraph] := rfl

/-- A pass of the last stage is a revising one or the export. -/
theorem cons_suffix_cases {pass : Pass} {rest : List Pass}
    (h : pass :: rest <:+ Pass.all.drop 2) :
    (pass ∈ Pass.revisions ∨ pass = Pass.exportGraph) ∧ rest <:+ Pass.all.drop 2 := by
  refine ⟨?_, (List.suffix_cons pass rest).trans h⟩
  have hmem := h.mem List.mem_cons_self
  rw [drop_two_all, List.mem_append, List.mem_singleton] at hmem
  exact hmem

theorem run_identifyNodes (settings : Settings) (world : World) (hvalid : region.isValid = true)
    (w : Workspace) :
    Pass.identifyNodes.run settings (some { world, region }) w =
      ({ w with circuit := addComponents world region w.circuit }, none) :=
  if_pos hvalid

theorem stages (hexports : settings.exports = false) (hpowered : world.Powered)
    (hvalid : region.isValid = true) :
    Run.Stages settings (some { world, region }) (Stage settings world) where
  step := by
    intro pass rest w hstage henabled
    rcases hstage with ⟨hpasses, hempty⟩ | ⟨hpasses, hplaced⟩ | ⟨hsuffix, hgrown⟩
    · cases hpasses
      rw [run_identifyNodes settings world hvalid, hempty]
      exact ⟨rfl, .inr (.inl ⟨rfl, placed_addComponents world region⟩)⟩
    · cases hpasses
      exact ⟨rfl, .inr (.inr ⟨List.suffix_refl _,
        .of_wired (wired_addWiring hplaced) hplaced hpowered (List.drop_suffix 2 Pass.all)⟩)⟩
    · obtain ⟨hpass | rfl, hrest⟩ := cons_suffix_cases hsuffix
      · exact ⟨snd_run_of_mem_revisions hpass .., .inr (.inr ⟨hrest, hgrown.run hpass henabled _⟩)⟩
      · have hoff : Run.isEnabled settings Pass.exportGraph = false := by
          rw [Run.isEnabled]
          change (settings.exports && _) = false
          rw [hexports, Bool.false_and]
        rw [hoff] at henabled
        cases henabled
  skip := by
    intro pass rest g hstage hskipped
    rcases hstage with ⟨hpasses, rfl⟩ | ⟨hpasses, hplaced⟩ | ⟨hsuffix, hgrown⟩
    · cases hpasses
      exact .inr (.inl ⟨rfl, placed_empty world⟩)
    · cases hpasses
      exact .inr (.inr ⟨List.suffix_refl _,
        .of_placed hplaced hpowered (List.drop_suffix 2 Pass.all)⟩)
    · exact .inr (.inr ⟨(cons_suffix_cases hsuffix).2, hgrown.skip hskipped⟩)

/-- At every stage the circuit is known. -/
theorem Stage.grown {passes : List Pass} (h : Stage settings world passes g)
    (hpowered : world.Powered) : Grown settings world passes g := by
  rcases h with ⟨rfl, rfl⟩ | ⟨rfl, hplaced⟩ | ⟨-, hgrown⟩
  · exact .of_placed (placed_empty world) hpowered (List.suffix_refl _)
  · exact .of_placed hplaced hpowered (List.drop_suffix 1 Pass.all)
  · exact hgrown

/-- At the stages of a compilation the strict passes do what the passes do. -/
theorem mirrors_strict (settings : Settings) (world : World) (region : Region) :
    Run.Mirrors settings (some { world, region }) (Stage settings world) Strict.passes
      Pass.all := by
  have hsound {pass : Pass} {rest : List Pass} {g : Circuit}
      (hstage : Stage settings world (pass :: rest) g) (hlength : rest.length < 9) : g.Sound := by
    rcases hstage with ⟨hpasses, -⟩ | ⟨hpasses, -⟩ | ⟨-, hgrown⟩
    · cases hpasses
      exact absurd hlength (by decide)
    · cases hpasses
      exact absurd hlength (by decide)
    · exact hgrown.sound
  refine .cons rfl (fun _ _ => rfl) (.cons rfl (fun w hw => ?_) (.cons rfl (fun w hw => ?_)
    (.cons rfl (fun w hw => ?_) (.cons rfl (fun w hw => ?_) (.cons rfl (fun w hw => ?_)
    (.cons rfl (fun w hw => ?_) (.cons rfl (fun w hw => ?_) (.cons rfl (fun w hw => ?_)
    (.cons rfl (fun w hw => ?_) (.cons rfl (fun _ _ => rfl) .nil))))))))))
  · rcases hw with ⟨hpasses, -⟩ | ⟨-, hplaced⟩ | ⟨hsuffix, -⟩
    · exact absurd (congrArg List.length hpasses) (by decide)
    · exact Strict.inputSearch_run hplaced settings
    · exact absurd hsuffix.length_le (by decide)
  all_goals have h := hsound hw (by decide)
  · exact Strict.ofRevision_run (Strict.counted_eq (Strict.clampLosses_eq w.circuit)) ..
  · exact Strict.ofRevision_run (Strict.counted_eq (Strict.dedupLinks_eq h.regular.wellFormed)) ..
  · exact Strict.ofRevision_run (Strict.counted_eq (Strict.collapseBuses_eq h)) ..
  · exact Strict.ofRevision_run (Strict.counted_eq (Strict.foldConstants_eq h)) ..
  · exact Strict.ofRevision_run (Strict.removeUnreachable_eq h) ..
  · exact Strict.ofRevision_run (Strict.counted_eq (Strict.shareConstants_eq h.regular)) ..
  · exact Strict.ofRevision_run (Strict.counted_eq (Strict.mergeDuplicates_eq h)) ..
  · exact Strict.ofRevision_run (Strict.counted_eq (Strict.pruneOrphans_eq h)) ..

/-- What a compilation of a world leaves behind, finished or not.  The circuit has a netlist just if
it has not too many nodes.  The blocks of the world limit their number, but only up to the constants
that passes may add. -/
structure Valid (settings : Settings) (world : World) (g : Circuit) : Prop where
  wellFormed : g.WellFormed
  loss_le : ∀ {i l}, g.link? i = some l → l.loss ≤ maxStrength
  strength_le : ∀ {id n}, g.node? id = some n → n.state.strength ≤ maxStrength
  nodeCount_le : g.nodeCount ≤ world.size * nodesPerBlock settings
  flattens : world.size < ForwardLink.maxNodes → g.linkCount < UInt32.size →
    g.nodeCount ≤ ForwardLink.maxNodes →
    ∃ n, g.flatten = .ok n ∧ Artifact.decode (Artifact.encode n) = .ok n
  refuses : ForwardLink.maxNodes < g.nodeCount → g.flatten = .error (.tooManyNodes g.nodeCount)

theorem Grown.valid {rest : List Pass} (h : Grown settings world rest g) :
    Valid settings world g where
  wellFormed := h.sound.regular.wellFormed
  loss_le := fun hl => (h.sound.inRange.link hl).loss_le
  strength_le := fun hn => (h.sound.inRange.node hn).strength_le
  nodeCount_le := by
    rw [h.sound.regular.wellFormed.nodeCount_eq, ← growth_all]
    calc g.nodeIds.length ≤ g.nodeIds.length * growth settings rest :=
          Nat.le_mul_of_pos_right _ (growth_pos settings rest)
      _ ≤ world.size * growth settings Pass.all := h.nodes_le
  flattens := by
    intro hsize hlinks hcount
    have hblocks : g.allBlocks.length < UInt32.size :=
      Nat.lt_of_le_of_lt h.blocks_le (Nat.lt_trans hsize (by decide))
    obtain ⟨n, hn, hvalid⟩ :=
      exists_flatten h.sound.regular h.sound.inRange hcount hlinks hblocks
    refine ⟨n, hn, ?_⟩
    have hread := Artifact.decodeWith_append Blake2b.length_digest hvalid []
    rw [List.append_nil] at hread
    exact hread
  refuses := by
    intro hcount
    rw [h.sound.regular.wellFormed.nodeCount_eq] at hcount ⊢
    exact flatten_of_lt hcount

theorem circuit?_outcome (settings : Settings) (r : Run) (failure : Option RunError) :
    (outcome settings r failure).circuit? = some r.workspace.circuit := by
  cases failure <;> rfl

theorem error_outcome (settings : Settings) (r : Run) (failure : Option RunError) :
    (outcome settings r failure).error = failure.map .stopped := by
  cases failure <;> rfl

/-- The compilation of a text is the run of all passes on the whole world. -/
theorem run_textIn {σ : Type} (env : Surroundings (StateM σ)) (settings : Settings) {data : Bytes}
    (hread : World.read data = .ok world) (hextent : world.extent = some region)
    (w : Workspace) (s : σ) :
    (textIn env settings data w).run s =
      (let out := (Run.allIn env settings (some { world, region }) Pass.all
        (w.debug "compiling" [("bounds", region.text)])).run s
      (outcome settings out.1.1 out.1.2, out.2)) := by
  rw [textIn, hread]
  dsimp only
  rw [worldIn, hextent]
  rfl

/-- Wherever the compilation of a world stops, it has not failed and leaves a valid circuit
behind, and none of its passes has used a name that stood for nothing. -/
theorem valid_wherever_it_stops {σ : Type} (env : Surroundings (StateM σ)) (settings : Settings)
    (hexports : settings.exports = false) (data : Bytes) (world : World)
    (hread : World.read data = .ok world) (hblocks : 0 < world.size)
    (w : Workspace) (s : σ) :
    let c := ((textIn env settings data w).run s).1
    (c.error = none ∨ c.error = some (.stopped .cancelled)) ∧
      (∃ g, c.circuit? = some g ∧ Valid settings world g) ∧
      ∀ region, world.extent = some region →
        (Run.allIn env settings (some { world, region }) Strict.passes w).run s =
          (Run.allIn env settings (some { world, region }) Pass.all w).run s := by
  have hpowered := World.powered_of_read hread
  obtain ⟨region, hextent, hvalid⟩ := World.exists_extent hblocks
  have hstages := stages hexports hpowered hvalid
  have hstart (w : Workspace) :
      Stage settings world Pass.all (Run.start w Pass.all.length).workspace.circuit :=
    .inl ⟨rfl, rfl⟩
  let w' := w.debug "compiling" [("bounds", region.text)]
  obtain ⟨⟨rest, -, hstage⟩, herror⟩ := hstages.stepsIn env (hstart w') s
  dsimp only
  rw [run_textIn env settings hread hextent]
  change Stage settings world rest
    ((Run.allIn env settings (some { world, region }) Pass.all w').run s).1.1.workspace.circuit
    at hstage
  change ((Run.allIn env settings (some { world, region }) Pass.all w').run s).1.2 = none ∨
    ((Run.allIn env settings (some { world, region }) Pass.all w').run s).1.2 = some .cancelled
    at herror
  generalize (Run.allIn env settings (some { world, region }) Pass.all w').run s = out
    at hstage herror
  obtain ⟨⟨r, failure⟩, s'⟩ := out
  refine ⟨?_, ⟨r.workspace.circuit, circuit?_outcome .., (hstage.grown hpowered).valid⟩, ?_⟩
  · rcases herror with rfl | rfl
    · exact .inl rfl
    · exact .inr rfl
  · intro region' hextent'
    rw [hextent] at hextent'
    cases hextent'
    exact hstages.stepsIn_mirror env (mirrors_strict settings world region) (hstart w) s

/-- Surroundings that ask a run to stop before its fifth pass. -/
def impatient : Surroundings (StateM Nat) where
  now := pure 0
  stopRequested := fun asked => (asked == 4, asked + 1)

/-- A lamp next to a lever that is switched on. -/
def litLamp : World :=
  (World.empty.set { x := 0, y := 0, z := 0 } { Block.placed .lever with powered := true }).set
    { x := 1, y := 0, z := 0 } (Block.placed .lamp)

/-- The text of the lamp with its lever. -/
def litLampText : Bytes :=
  Bytes.ofString "0 0 0 lever powered=true\n1 0 0 lamp"

/-- The compilation of a lamp with its lever leaves a valid circuit behind when it is asked to
stop.  The circuit has a netlist, which is read back from its artifact. -/
theorem valid_wherever_it_stops_litLamp :
    let c := ((textIn impatient .default litLampText { log := { verbose := false } }).run 0).1
    (c.error = none ∨ c.error = some (.stopped .cancelled)) ∧
      (∃ g n, c.circuit? = some g ∧ Valid .default litLamp g ∧ g.flatten = .ok n ∧
        Artifact.decode (Artifact.encode n) = .ok n) ∧
      ∀ region, litLamp.extent = some region →
        (Run.allIn impatient .default (some { world := litLamp, region }) Strict.passes
            { log := { verbose := false } }).run 0 =
          (Run.allIn impatient .default (some { world := litLamp, region }) Pass.all
            { log := { verbose := false } }).run 0 := by
  obtain ⟨herror, ⟨g, hg, hvalid⟩, hstrict⟩ := valid_wherever_it_stops impatient .default rfl
    litLampText litLamp rfl (by decide) { log := { verbose := false } } 0
  have hlinks : g.linkCount = 1 := by
    have hcount : (((textIn impatient .default litLampText
        { log := { verbose := false } }).run 0).1.circuit?.map Circuit.linkCount) = some 1 := by
      decide +kernel
    rw [hg] at hcount
    exact Option.some.inj hcount
  have hnodes : g.nodeCount ≤ 2 * 34 := hvalid.nodeCount_le
  obtain ⟨n, hn, hread⟩ := hvalid.flattens (by decide) (hlinks ▸ by decide)
    (Nat.le_trans hnodes (by decide))
  exact ⟨herror, ⟨g, n, hg, hvalid, hn, hread⟩, hstrict⟩

end Compile

end Redstone
