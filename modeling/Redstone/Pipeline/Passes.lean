import Redstone.Artifact.Encode
import Redstone.Optimize.AnalogBuses
import Redstone.Optimize.ClampedLosses
import Redstone.Optimize.DeadLinks
import Redstone.Optimize.Duplicates
import Redstone.Optimize.FoldedConstants
import Redstone.Optimize.Orphans
import Redstone.Optimize.ParallelLinks
import Redstone.Optimize.SettledOutputs
import Redstone.Optimize.SharedConstants
import Redstone.Pipeline.Pass
import Redstone.Survey.Components
import Redstone.Survey.Wiring

/-!
# The passes of a compilation

The two survey passes build the circuit, and the export pass writes it out.  In
between, the losses are always clamped, and all other revisions belong to the
optimization.
-/

namespace Redstone.Pass

/-- Finds the components of the scene. -/
def identifyNodes : Pass where
  name := "IdentifyNodes"
  status := "Identifying nodes"
  applies := fun _ => true
  run := fun _ scene w =>
    match scene with
    | none => (w, some .noScene)
    | some s =>
        if s.region.isValid then
          ({ w with circuit := Survey.addComponents s.world s.region w.circuit }, none)
        else (w, some (.invalidRegion s.region))

/-- Links the components. -/
def inputSearch : Pass where
  name := "InputSearch"
  status := "Searching node inputs"
  applies := fun _ => true
  run := fun _ scene w =>
    match scene with
    | none => (w, some .noScene)
    | some s => ({ w with circuit := Survey.addWiring s.world w.circuit }, none)

/-- A pass that revises the circuit and logs what it has counted. -/
def ofRevision (name status : String) (applies : Settings → Bool)
    (revise : Circuit → Circuit × List Nat)
    (summary : Option (String × List String)) : Pass where
  name
  status
  applies
  run := fun _ _ w =>
    let (circuit, counts) := revise w.circuit
    let w := { w with circuit }
    match summary with
    | none => (w, none)
    | some (message, names) => (w.debug message (names.zip (counts.map toString)), none)

/-- A revision with its one count. -/
def counted (revise : Circuit → Revision) (g : Circuit) : Circuit × List Nat :=
  let r := revise g
  (r.circuit, [r.changes])

/-- Cuts off losses. -/
def clampWeights : Pass :=
  ofRevision "ClampWeights" "Clamping weights" (fun _ => true) (counted Optimize.clampLosses) none

/-- Removes superfluous parallel links. -/
def dedupLinks : Pass :=
  ofRevision "DedupLinks" "Deduplicating links" Settings.optimize (counted Optimize.dedupLinks) none

/-- Collapses analog buses. -/
def analogRepeaters : Pass :=
  ofRevision "AnalogRepeaters" "Collapsing analog repeater buses" Settings.optimize
    (counted Optimize.collapseBuses) none

/-- Folds gates with constant inputs. -/
def constantFold : Pass :=
  ofRevision "ConstantFold" "Folding constants" Settings.optimize (counted Optimize.foldConstants)
    (some ("constant fold done", ["folded"]))

/-- Removes dead links and settles outputs with constant inputs. -/
def removeUnreachable (g : Circuit) : Circuit × List Nat :=
  let pruned := Optimize.pruneDeadLinks g
  let settled := Optimize.settleOutputs pruned.circuit
  (settled.circuit, [pruned.changes, settled.changes])

@[inherit_doc removeUnreachable]
def unreachableOutput : Pass :=
  ofRevision "UnreachableOutput" "Removing unreachable outputs" Settings.optimize removeUnreachable
    (some ("unreachable output done", ["links", "outputs"]))

/-- Shares constants. -/
def constantCoalesce : Pass :=
  ofRevision "ConstantCoalesce" "Coalescing constants" Settings.optimize
    (counted Optimize.shareConstants) none

/-- Merges duplicate gates. -/
def coalesce : Pass :=
  ofRevision "Coalesce" "Coalescing duplicate logic" Settings.optimize
    (counted Optimize.mergeDuplicates) (some ("coalesce done", ["merged"]))

/-- Removes orphans. -/
def pruneOrphans : Pass :=
  ofRevision "PruneOrphans" "Pruning orphans" Settings.optimize (counted Optimize.pruneOrphans)
    (some ("prune orphans done", ["pruned"]))

/-- Writes an artifact to the sink of the workspace, or to the export file if it
has none. -/
def writeArtifact (s : Settings) (w : Workspace) (b : Bytes) : Except ExportError Workspace :=
  match w.sink with
  | some sink =>
      match sink.write b with
      | .ok sink => .ok { w with sink := some sink }
      | .error reason => .error (.refused reason)
  | none =>
      match w.files.write s.exportFile b with
      | .ok files => .ok { w with files }
      | .error e => .error (.create e)

/-- Exports the circuit as an artifact. -/
def exportCircuit (s : Settings) (w : Workspace) : Except ExportError Workspace :=
  match w.circuit.flatten with
  | .error e => .error (.flatten e)
  | .ok n =>
      (writeArtifact s w (Artifact.encode n)).map fun w =>
        w.debug "graph exported" [("nodes", toString n.size)]

@[inherit_doc exportCircuit]
def exportGraph : Pass where
  name := "ExportGraph"
  status := "Exporting graph"
  applies := Settings.exports
  run := fun s _ w =>
    match exportCircuit s w with
    | .ok w => (w, none)
    | .error e => ({ w with log := w.log.fail e.message }, some (.notExported e))

/-- The passes of a compilation, in their order. -/
def all : List Pass :=
  [ identifyNodes, inputSearch, clampWeights, dedupLinks, analogRepeaters, constantFold
  , unreachableOutput, constantCoalesce, coalesce, pruneOrphans, exportGraph ]

/-- The pass of a compilation with the given name. -/
def find? (name : String) : Option Pass :=
  all.find? fun pass => pass.name == name

end Redstone.Pass
