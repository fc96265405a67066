import Redstone.Proofs.Optimize.Distinct
import Redstone.Proofs.Outputs

/-!
# Deduplicated compilations

After superfluous links have been removed, no later pass but one lets links become parallel again.
The exception is the sharing of constants, where two constants of one strength feed one input.  An
optimized compilation therefore leaves superfluous links at shared constants only, and none if the
inputs are fed by constants of different strengths.
-/

namespace Redstone

open Optimize

/-- No two links have the same source, target and channel. -/
def Circuit.LinksDistinct (g : Circuit) : Prop :=
  ∀ {i j l m}, g.link? i = some l → g.link? j = some m → areParallel l m = true → i = j

/-- A check holds for all pairs of links. -/
def Circuit.allPairs (g : Circuit) (check : LinkId → Link → LinkId → Link → Bool) : Bool :=
  g.linkIds.all fun i => g.linkIds.all fun j =>
    (g.link? i).all fun l => (g.link? j).all fun m => check i l j m

theorem Circuit.allPairs_iff {g : Circuit} {check : LinkId → Link → LinkId → Link → Bool} :
    g.allPairs check = true ↔
      ∀ {i j l m}, g.link? i = some l → g.link? j = some m → check i l j m = true := by
  simp only [allPairs, List.all_eq_true, Option.all_eq_true]
  constructor
  · intro h i j l m hl hm
    exact h i (mem_linkIds.mpr ⟨l, hl⟩) j (mem_linkIds.mpr ⟨m, hm⟩) l hl m hm
  · intro h i _ j _ l hl m hm
    exact h hl hm

instance (g : Circuit) : Decidable g.LinksDistinct :=
  decidable_of_iff (g.allPairs fun i l j m => decide (areParallel l m = true → i = j)) (by
    rw [Circuit.allPairs_iff]
    simp only [decide_eq_true_eq]
    rfl)

instance (g : Circuit) : Decidable (ConstantsDiffer g) :=
  decidable_of_iff
    (g.allPairs fun _ l _ m => (g.node? l.source).all fun n => (g.node? m.source).all fun o =>
      decide (l.target = m.target → l.channel = m.channel → isSharable n = true →
        isSharable o = true → n.state.strength = o.state.strength → l.source = m.source)) (by
    rw [Circuit.allPairs_iff]
    simp only [Option.all_eq_true, decide_eq_true_eq]
    constructor
    · intro h i j l m n o hl hm htarget hchannel hn ho
      exact h hl hm n hn o ho htarget hchannel
    · intro h i j l m hl hm n hn o ho htarget hchannel
      exact h hl hm htarget hchannel hn ho)

theorem Optimize.Distinct.linksDistinct {g : Circuit} (h : Distinct false g) : g.LinksDistinct :=
  fun hl hm hpar => (h.eq_of_areParallel hl hm hpar).resolve_right
    fun hlenient => Bool.false_ne_true hlenient.1

theorem Circuit.LinksDistinct.distinct {g : Circuit} (h : g.LinksDistinct) (hwf : g.WellFormed) :
    Distinct false g :=
  ⟨hwf, fun hl hm hpar => .inl (h hl hm hpar)⟩

namespace Pass

/-- The passes behind the removal of superfluous links, without the sharing of constants. -/
def sparing : List Pass :=
  [analogRepeaters, constantFold, unreachableOutput, coalesce, pruneOrphans]

theorem distinct_run_sparing {pass : Pass} (hpass : pass ∈ sparing) (settings : Settings)
    (scene : Option Scene) {lenient : Bool} {w : Workspace} (h : Distinct lenient w.circuit) :
    Distinct lenient (pass.run settings scene w).1.circuit := by
  simp only [sparing, List.mem_cons, List.not_mem_nil, or_false] at hpass
  rcases hpass with rfl | rfl | rfl | rfl | rfl
  · exact (circuit_run_ofRevision ..).symm ▸ h.collapseBuses
  · exact (circuit_run_ofRevision ..).symm ▸ h.foldConstants
  · exact (circuit_run_ofRevision ..).symm ▸ h.removeUnreachable
  · exact (circuit_run_ofRevision ..).symm ▸ h.mergeDuplicates
  · exact (circuit_run_ofRevision ..).symm ▸ h.pruneOrphans

end Pass

namespace Compile

open Circuit Survey

variable {world : World} {region : Region}

/-- The circuit of an optimized compilation before constants are shared. -/
def unshared (world : World) (region : Region) : Circuit :=
  (Pass.removeUnreachable (folded (clampLosses (surveyed world region)).circuit)).1

theorem distinct_unshared (world : World) (region : Region) :
    Distinct false (unshared world region) := by
  have hclamped := wellFormed_clampLosses (wired_surveyed world region).wellFormed
  exact (distinct_dedupLinks hclamped).collapseBuses.foldConstants.removeUnreachable

/-- Superfluous links of an optimized circuit start at constants that can be shared. -/
theorem distinct_optimized (world : World) (region : Region) :
    Distinct true (tidied (folded (clampLosses (surveyed world region)).circuit)) :=
  (distinct_unshared world region).shareConstants_lenient.mergeDuplicates.pruneOrphans

theorem distinct_optimized_of_constantsDiffer (h : ConstantsDiffer (unshared world region)) :
    Distinct false (tidied (folded (clampLosses (surveyed world region)).circuit)) :=
  ((distinct_unshared world region).shareConstants h).mergeDuplicates.pruneOrphans

theorem run_sceneIn {σ : Type} (env : Surroundings (StateM σ)) (settings : Settings)
    (scene : Scene) (w : Workspace) (s : σ) :
    (sceneIn env settings scene w).run s =
      (let out := (Run.allIn env settings (some scene) Pass.all
        (w.debug "compiling" [("bounds", scene.region.text)])).run s
      (outcome settings out.1.1 out.1.2, out.2)) := rfl

theorem circuit_of_sceneIn {σ : Type} (env : Surroundings (StateM σ)) {settings : Settings}
    {w : Workspace} {s : σ} {g : Circuit} (hdisabled : settings.disabled = [])
    (hoptimized : settings.optimize = true)
    (herror : ((sceneIn env settings { world, region } w).run s).1.error = none)
    (hg : ((sceneIn env settings { world, region } w).run s).1.circuit? = some g) :
    g = tidied (folded (clampLosses (surveyed world region)).circuit) := by
  rw [run_sceneIn, error_outcome, Option.map_eq_none_iff] at herror
  rw [run_sceneIn, circuit?_outcome, Option.some.injEq] at hg
  rw [← hg]
  exact circuit_of_optimized hdisabled hoptimized (Run.finishes_of_allIn env herror)

/-- Where no two links are parallel, every later pass leaves it so, if only no input is fed by two
constants of one strength when constants are shared; and what becomes parallel starts at a shared
constant.  Likewise an optimized compilation leaves superfluous links at shared constants only, and
none if no input is fed by two constants of one strength. -/
theorem links_stay_distinct (settings : Settings) (scene : Option Scene) (w : Workspace)
    (h : w.circuit.WellFormed) (hdistinct : w.circuit.LinksDistinct) :
    (∀ pass ∈ Pass.sparing, (pass.run settings scene w).1.circuit.LinksDistinct) ∧
    (ConstantsDiffer w.circuit →
      (Pass.constantCoalesce.run settings scene w).1.circuit.LinksDistinct) ∧
    Distinct true (Pass.constantCoalesce.run settings scene w).1.circuit ∧
    ∀ {σ : Type} (env : Surroundings (StateM σ)) (settings : Settings) (world : World)
      (region : Region) (w : Workspace) (s : σ) (g : Circuit),
      settings.optimize = true → settings.disabled = [] →
      let c := ((sceneIn env settings { world, region } w).run s).1
      c.error = none → c.circuit? = some g →
      (∀ i l, g.link? i = some l → isRedundant g i = true →
        ∃ n, g.node? l.source = some n ∧ isSharable n = true) ∧
      (ConstantsDiffer (unshared world region) → (dedupLinks g).changes = 0) := by
  have hold := hdistinct.distinct h
  have hcircuit : (Pass.constantCoalesce.run settings scene w).1.circuit =
      (shareConstants w.circuit).circuit := Pass.circuit_run_ofRevision ..
  refine ⟨fun pass hpass => ?_, fun hdiffer => ?_, ?_, ?_⟩
  · exact (Pass.distinct_run_sparing hpass settings scene hold).linksDistinct
  · rw [hcircuit]
    exact (hold.shareConstants hdiffer).linksDistinct
  · rw [hcircuit]
    exact hold.shareConstants_lenient
  · intro σ env settings world region w s g hoptimized hdisabled c herror hg
    have hfinal := circuit_of_sceneIn env hdisabled hoptimized herror hg
    refine ⟨fun i l hl hred => ?_, fun hdiffer => ?_⟩
    · have hlenient : Distinct true g := by
        rw [hfinal]
        exact distinct_optimized world region
      exact (hlenient.not_isRedundant hl hred).2
    · have hstrict : Distinct false g := by
        rw [hfinal]
        exact distinct_optimized_of_constantsDiffer hdiffer
      exact hstrict.changes_dedupLinks

/-- Two sources of different strengths feed a lamp, and one of them another lamp. -/
def unequalSources : Circuit :=
  Circuit.empty
    |>.addNode (.constant 15)
    |>.addNode (.constant 7)
    |>.addNode { gate := .plain .lamp, isOutput := true }
    |>.addNode { gate := .plain .lamp, isOutput := true }
    |>.addLink { source := 0, target := 2, channel := .main, loss := 0 }
    |>.addLink { source := 1, target := 2, channel := .main, loss := 0 }
    |>.addLink { source := 0, target := 3, channel := .main, loss := 2 }

theorem wellFormed_unequalSources : unequalSources.WellFormed :=
  WellFormed.empty
    |>.addNode _ |>.addNode _ |>.addNode _ |>.addNode _ |>.addLink _ |>.addLink _ |>.addLink _

/-- The lamp with its lever in the region of both. -/
def litLampScene : Scene where
  world := litLamp
  region := { min := { x := 0, y := 0, z := 0 }, max := { x := 1, y := 0, z := 0 } }

/-- The optimized compilation of a scene while nobody asks to stop. -/
def optimizedScene (scene : Scene) : Compilation :=
  ((sceneIn (m := StateM Unit) (.quiet (pure 0)) { Settings.default with optimize := true } scene
    { log := { verbose := false } }).run ()).1

/-- The optimized circuit of the lamp with its lever. -/
def litLampCircuit : Circuit :=
  tidied (folded (clampLosses (surveyed litLampScene.world litLampScene.region)).circuit)

/-- Sharing gives each lamp its own sources and leaves the links of the first one distinct, and the
compilation of a lamp with a lever leaves nothing superfluous. -/
theorem links_stay_distinct_unequalSources :
    let w : Workspace := { circuit := unequalSources, log := { verbose := false } }
    (Pass.constantCoalesce.run .default none w).1.circuit.LinksDistinct ∧
      (Pass.constantCoalesce.run .default none w).1.circuit.nodeCount = 5 ∧
      (optimizedScene litLampScene).circuit? = some litLampCircuit ∧
      litLampCircuit.linkCount = 1 ∧ (dedupLinks litLampCircuit).changes = 0 := by
  obtain ⟨-, hcoalesce, -, hcompile⟩ := links_stay_distinct .default none
    { circuit := unequalSources, log := { verbose := false } } wellFormed_unequalSources
    (by decide +kernel)
  have hcircuit : (optimizedScene litLampScene).circuit? = some litLampCircuit := by decide +kernel
  refine ⟨hcoalesce (by decide +kernel), by decide +kernel, hcircuit, by decide +kernel, ?_⟩
  exact (hcompile (.quiet (pure 0)) { Settings.default with optimize := true } litLampScene.world
    litLampScene.region { log := { verbose := false } } () litLampCircuit rfl rfl
    (by decide +kernel) hcircuit).2 (by decide +kernel)

/-- A lamp between two blocks of redstone, and a lever. -/
def doublyFedLamp : Bytes :=
  Bytes.ofString "0 0 0 lamp\n-1 0 0 redstone_block\n1 0 0 redstone_block\n0 0 1 lever\n"

/-- The two blocks become one constant with two parallel links to the lamp, one of which is
superfluous in the compiled circuit. -/
theorem links_parallel_doublyFedLamp :
    let c := ((textIn (m := StateM Unit) (.quiet (pure 0))
      { Settings.default with optimize := true } doublyFedLamp
      { log := { verbose := false } }).run ()).1
    c.error = none ∧ (c.circuit?.map fun g => (dedupLinks g).changes) = some 1 := by
  decide +kernel

end Compile

end Redstone
