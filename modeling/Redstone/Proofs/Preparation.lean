import Redstone.Proofs.Deduplication
import Redstone.Proofs.Optimize.Wires
import Redstone.Proofs.Survey.Feeds

/-!
# Surveyed circuits are prepared for optimization

The two survey passes leave a prepared circuit: its links run from gates that drive others to gates
with inputs.  Wires are none of the former, and no revision changes that.  So whichever passes are
switched off, the removal of orphans leaves no wires.
-/

namespace Redstone

namespace Survey

open Circuit Optimize

/-- Wires drive nothing and have no role. -/
theorem Prepared.looseWires {g : Circuit} (h : Prepared g) : LooseWires g where
  wellFormed := h.wellFormed
  removable := by
    intro id n hn hwire
    rw [Node.isRemovable, h.isInput_eq hn, h.isOutput_eq hn, hwire]
    rfl
  noWire_source := by
    intro i l hl n hn hwire
    obtain ⟨m, hm, hdrives⟩ := (h.fits hl).source
    rw [hn, Option.some.injEq] at hm
    rw [← hm, hwire] at hdrives
    cases hdrives

end Survey

namespace Compile

open Circuit Survey Optimize

variable {settings : Settings} {world : World} {region : Region} {g : Circuit}

/-- The stages of a compilation.  After the survey wires have no outputs, and once orphans have been
removed there are no wires. -/
def WireStage (world : World) (passes : List Pass) (g : Circuit) : Prop :=
  passes = Pass.all ∧ g = .empty ∨
    passes = Pass.all.drop 1 ∧ Placed world g ∨
    (∃ front, front <:+ Pass.revisions.dropLast ∧
      passes = front ++ [Pass.pruneOrphans, Pass.exportGraph] ∧ LooseWires g) ∨
    passes <:+ [Pass.exportGraph] ∧ ∀ id, NoWireAt g id

theorem WireStage.of_looseWires (h : LooseWires g) : WireStage world (Pass.all.drop 2) g :=
  .inr (.inr (.inl ⟨_, List.suffix_refl _, rfl, h⟩))

/-- A pass before the removal of orphans keeps wires without outputs, the removal removes them, and
the export changes nothing. -/
theorem ending_wireStage (hprune : Run.isEnabled settings Pass.pruneOrphans = true)
    (hvalid : region.isValid = true) :
    Run.Ending settings (some { world, region }) (WireStage world) where
  step := by
    intro pass rest w hstage _
    -- the four stages: before the scan, before the wiring, while wires lose their links, afterwards
    rcases hstage with ⟨hpasses, hempty⟩ | ⟨hpasses, hplaced⟩ | ⟨front, hfront, hpasses, hloose⟩ |
      ⟨hpasses, hfree⟩
    · cases hpasses
      rw [run_identifyNodes settings world hvalid, hempty]
      exact ⟨.inr (.inl ⟨rfl, placed_addComponents world region⟩), .inl rfl⟩
    · cases hpasses
      exact ⟨.of_looseWires (prepared_addWiring hplaced).looseWires, .inl rfl⟩
    · cases front with
      | nil =>
          cases hpasses
          refine ⟨.inr (.inr (.inr ⟨List.suffix_refl _, ?_⟩)), .inl (snd_run_ofRevision ..)⟩
          exact (Pass.circuit_run_ofRevision ..).symm ▸ hloose.noWireAt_pruneOrphans
      | cons first later =>
          cases hpasses
          have hpass : pass ∈ Pass.revisions :=
            List.mem_of_mem_dropLast (hfront.mem List.mem_cons_self)
          refine ⟨.inr (.inr (.inl ⟨later, ?_, rfl, ?_⟩)),
            .inl (snd_run_of_mem_revisions hpass ..)⟩
          · exact (List.suffix_cons pass later).trans hfront
          · exact Pass.looseWires_run hpass settings _ hloose
    · -- only the export comes after the removal of orphans
      obtain ⟨rfl, rfl⟩ : pass = Pass.exportGraph ∧ rest = [] := by
        rcases List.suffix_cons_iff.mp hpasses with heq | hsuffix
        · exact List.cons.inj heq
        · cases List.suffix_nil.mp hsuffix
      rw [circuit_exportGraph]
      exact ⟨.inr (.inr (.inr ⟨List.nil_suffix, hfree⟩)), .inr rfl⟩
  skip := by
    intro pass rest g hstage hskipped
    rcases hstage with ⟨hpasses, hempty⟩ | ⟨hpasses, hplaced⟩ | ⟨front, hfront, hpasses, hloose⟩ |
      ⟨hpasses, hfree⟩
    · cases hpasses
      exact .inr (.inl ⟨rfl, hempty ▸ placed_empty world⟩)
    · cases hpasses
      exact .of_looseWires hplaced.prepared.looseWires
    · cases front with
      | nil =>
          cases hpasses
          -- the removal of orphans is enabled, so it is not skipped
          rw [hprune] at hskipped
          cases hskipped
      | cons first later =>
          cases hpasses
          exact .inr (.inr (.inl ⟨later, (List.suffix_cons pass later).trans hfront, rfl, hloose⟩))
    · exact .inr (.inr (.inr ⟨(List.suffix_cons pass rest).trans hpasses, hfree⟩))

theorem WireStage.noWireAt (h : WireStage world [] g) (id : NodeId) : NoWireAt g id := by
  rcases h with ⟨hpasses, -⟩ | ⟨hpasses, -⟩ | ⟨front, -, hpasses, -⟩ | ⟨-, hfree⟩
  · cases hpasses
  · cases hpasses
  · exact absurd hpasses.symm (by simp)
  · exact hfree id

/-- The survey of any world leaves a circuit that is prepared for optimization.  Therefore an
optimized compilation that removes orphans and is not stopped on request leaves no wires, whichever
other passes are switched off and even if its export fails. -/
theorem survey_prepares_optimization (world : World) (region : Region)
    (hvalid : region.isValid = true) :
    (∀ (settings : Settings) (w : Workspace), w.circuit = .empty →
      let found := Pass.identifyNodes.run settings (some { world, region }) w
      let linked := Pass.inputSearch.run settings (some { world, region }) found.1
      found.2 = none ∧ linked.2 = none ∧ Prepared linked.1.circuit) ∧
    ∀ {σ : Type} (env : Surroundings (StateM σ)) (settings : Settings) (w : Workspace) (s : σ),
      settings.optimize = true → settings.isDisabled Pass.pruneOrphans.name = false →
      let c := ((sceneIn env settings { world, region } w).run s).1
      c.error ≠ some (.stopped .cancelled) →
      ∃ g, c.circuit? = some g ∧ ∀ id n, g.node? id = some n → n.gate.type ≠ .wire := by
  refine ⟨fun settings w hempty => ?_, fun env settings w s hoptimize hdisabled => ?_⟩
  · dsimp only
    rw [run_identifyNodes settings world hvalid, hempty]
    exact ⟨rfl, rfl, prepared_addWiring (placed_addComponents world region)⟩
  · have hprune : Run.isEnabled settings Pass.pruneOrphans = true := by
      rw [Run.isEnabled, hdisabled]
      change (settings.optimize && _) = true
      rw [hoptimize]
      rfl
    dsimp only
    intro herror
    rw [run_sceneIn] at herror ⊢
    dsimp only at herror ⊢
    rw [error_outcome] at herror
    refine ⟨_, circuit?_outcome .., ?_⟩
    have hend := (ending_wireStage hprune hvalid).stepsIn env (.inl ⟨rfl, rfl⟩)
      fun hcancelled => herror (congrArg (Option.map _) hcancelled)
    exact hend.noWireAt

/-- A lever, a wire and a lamp.  Another lever on the lamp is not in the region. -/
def wiredLamp : Scene where
  world := World.empty
    |>.set ⟨0, 0, 0⟩ (.placed .lever)
    |>.set ⟨1, 0, 0⟩ (.placed .wire)
    |>.set ⟨2, 0, 0⟩ (.placed .lamp)
    |>.set ⟨2, 1, 0⟩ (.placed .lever)
  region := ⟨⟨0, 0, 0⟩, ⟨2, 0, 0⟩⟩

/-- The lever is linked to the wire and to the lamp, and of the wire nothing is left. -/
theorem survey_prepares_optimization_wiredLamp :
    let found := Pass.identifyNodes.run .default (some wiredLamp) { log := { verbose := false } }
    let linked := Pass.inputSearch.run .default (some wiredLamp) found.1
    Prepared linked.1.circuit ∧ linked.1.circuit.nodeCount = 3 ∧ linked.1.circuit.linkCount = 2 ∧
    ∃ g, (optimizedScene wiredLamp).circuit? = some g ∧ (g.nodeCount, g.linkCount) = (2, 1) ∧
      ∀ id n, g.node? id = some n → n.gate.type ≠ .wire := by
  obtain ⟨hsurvey, hcompile⟩ :=
    survey_prepares_optimization wiredLamp.world wiredLamp.region (by decide)
  obtain ⟨-, -, hprepared⟩ := hsurvey .default { log := { verbose := false } } rfl
  obtain ⟨g, hg, hfree⟩ := hcompile (σ := Unit) (.quiet (pure 0))
    { Settings.default with optimize := true } { log := { verbose := false } } () rfl rfl
    (by decide +kernel)
  refine ⟨hprepared, by decide +kernel, by decide +kernel, g, hg, ?_, hfree⟩
  have hsize : (optimizedScene wiredLamp).circuit?.map (fun g => (g.nodeCount, g.linkCount)) =
      some (2, 1) := by decide +kernel
  change ((optimizedScene wiredLamp).circuit? = some g) at hg
  rw [hg] at hsize
  exact Option.some.inj hsize

end Compile

end Redstone
