import Redstone.Proofs.Netlist.Relocation
import Redstone.Proofs.Optimize.Relocation
import Redstone.Proofs.Pipeline.Run
import Redstone.Proofs.Survey.Translation

/-!
# Compiling a world that has been moved

The passes are run on a world and on the moved world side by side.  At every moment the two circuits
are the same but for the places of their blocks, and so are the artifacts that have been exported:
they differ in coordinates, never in length.  Hence the two runs see the same answers from outside,
fail alike, and stop at the same pass.
-/

namespace Redstone

open Position (translate)

/-! ## What does not depend on the bytes of an artifact -/

/-- Bytes of which only the number is kept. -/
def blank (b : Bytes) : Bytes :=
  b.map fun _ => 0

theorem blank_eq_iff {b b' : Bytes} : blank b = blank b' ↔ b.length = b'.length := by
  simp [blank, List.map_const', List.replicate_inj]

/-- The entry with its contents blanked. -/
def Entry.outline : Entry → Entry
  | directory => directory
  | file contents => file (blank contents)

/-- The tree with the contents of all files blanked. -/
def Directory.outline (d : Directory) : Directory where
  entries := d.entries.map fun (p, e) => (p, e.outline)

/-- The sink with its contents blanked. -/
def Sink.outline (s : Sink) : Sink :=
  { s with contents := blank s.contents }

namespace Directory

variable (d : Directory)

theorem entry?_outline (p : Path) : d.outline.entry? p = (d.entry? p).map Entry.outline := by
  have hlookup (entries : List (Path × Entry)) :
      (entries.map fun (p, e) => (p, e.outline)).lookup p =
        (entries.lookup p).map Entry.outline := by
    induction entries with
    | nil => rfl
    | cons x rest ih =>
        rw [List.map_cons, List.lookup_cons, List.lookup_cons, ih]
        cases p == x.1 <;> rfl
  unfold entry?
  split
  · rfl
  · exact hlookup d.entries

theorem walk_outline (p : Path) (parts : List String) :
    d.outline.walk p parts = d.walk p parts := by
  induction parts generalizing p with
  | nil => rfl
  | cons part rest ih =>
      unfold walk
      rw [entry?_outline, ih]
      cases d.entry? p with
      | none => rfl
      | some e => cases e <;> rfl

theorem target_outline (name : String) : d.outline.target name = d.target name := by
  have hdirectory (p : Path) :
      d.outline.entry? p = some .directory ↔ d.entry? p = some .directory := by
    rw [entry?_outline]
    cases d.entry? p with
    | none => exact ⟨nofun, nofun⟩
    | some e => cases e with
      | directory => exact ⟨fun _ => rfl, fun _ => rfl⟩
      | file contents => exact ⟨nofun, nofun⟩
  -- a name is resolved by looking for directories only
  unfold target writablePath resolveParent resolve
  simp only [walk_outline, hdirectory]

/-- Whether a file can be written does not depend on the contents of any file. -/
theorem write_outline (name : String) (b : Bytes) :
    (d.write name b).map outline = d.outline.write name (blank b) := by
  unfold write
  rw [target_outline]
  cases d.target name with
  | error e => rfl
  | ok p =>
      change Except.ok (d.put p (.file b)).outline = Except.ok (d.outline.put p (.file (blank b)))
      unfold put outline
      dsimp only
      rw [List.map_append, List.filter_map]
      rfl

end Directory

/-- Whether a sink refuses depends on the number of bytes only. -/
theorem Sink.write_outline (s : Sink) (b : Bytes) :
    (s.write b).map outline = s.outline.write (blank b) := by
  obtain ⟨limit, refusal, contents⟩ := s
  have hcontents : blank contents ++ blank b = blank (contents ++ b) := List.map_append.symm
  have hlength : (blank contents ++ blank b).length = (contents ++ b).length := by
    rw [hcontents, blank, List.length_map]
  unfold write outline
  dsimp only
  rw [hlength, hcontents]
  cases limit with
  | none => rfl
  | some limit =>
      exact (ite_eq_map_ite (Except.map Sink.outline) (fun _ => rfl) fun _ => rfl).symm

namespace Workspace

/-- The workspace with all bytes blanked. -/
def outline (w : Workspace) : Workspace :=
  { w with sink := w.sink.map Sink.outline, files := w.files.outline }

/-- The workspace with its circuit relocated. -/
def relocate (f : Position → Position) (w : Workspace) : Workspace :=
  { w with circuit := w.circuit.relocate f }

/-- The second workspace is the first one with all blocks moved by `v`.  Artifacts that have been
written have the same lengths. -/
def Moved (v : Offset) (w w' : Workspace) : Prop :=
  w'.outline = w.outline.relocate (translate v)

theorem Moved.circuit {v : Offset} {w w' : Workspace} (h : w.Moved v w') :
    w'.circuit = w.circuit.relocate (translate v) :=
  congrArg Workspace.circuit h

theorem Moved.monitor {v : Offset} {w w' : Workspace} (h : w.Moved v w') :
    w'.monitor = w.monitor := by
  have hmonitor := congrArg Workspace.monitor h
  exact hmonitor

theorem Moved.log {v : Offset} {w w' : Workspace} (h : w.Moved v w') : w'.log = w.log := by
  have hlog := congrArg Workspace.log h
  exact hlog

end Workspace

/-! ## Passes -/

/-- The scene moved by `v`. -/
def Scene.translate (v : Offset) (s : Scene) : Scene where
  world := s.world.translate v
  region := s.region.translate v

namespace Pass

variable {v : Offset} {settings : Settings} {scene : Scene} {w w' : Workspace}

/-- On a moved scene, the pass does what it does on the scene, at moved positions. -/
def FollowsMoves (settings : Settings) (scene : Scene) (v : Offset) (pass : Pass) : Prop :=
  ∀ {w w' : Workspace}, w.Moved v w' →
    (pass.run settings (some scene) w).1.Moved v
        (pass.run settings (some (scene.translate v)) w').1 ∧
      (pass.run settings (some (scene.translate v)) w').2 = (pass.run settings (some scene) w).2

theorem identifyNodes_followsMoves (hvalid : scene.region.isValid = true)
    (hfits : scene.region.Fits v) : identifyNodes.FollowsMoves settings scene v := by
  intro w w' h
  have hvalid' : (scene.translate v).region.isValid = true := hfits.isValid_translate.trans hvalid
  have hfound := Survey.addComponents_translate (w := scene.world) hfits w.circuit
  unfold identifyNodes
  dsimp only
  rw [if_pos hvalid, if_pos hvalid', h.circuit]
  refine ⟨?_, rfl⟩
  change { w'.outline with
    circuit := Survey.addComponents (scene.world.translate v) (scene.region.translate v)
      (w.circuit.relocate (Position.translate v)) } = _
  rw [hfound, h]
  rfl

theorem inputSearch_followsMoves : inputSearch.FollowsMoves settings scene v := by
  intro w w' h
  refine ⟨?_, rfl⟩
  change { w'.outline with circuit := Survey.addWiring (scene.world.translate v) w'.circuit } = _
  rw [h.circuit, Survey.addWiring_translate, h]
  rfl

theorem ofRevision_followsMoves {name status : String} {applies : Settings → Bool}
    {revise : Circuit → Circuit × List Nat} {summary : Option (String × List String)}
    (hrevise : ∀ g, revise (g.relocate (Position.translate v)) =
      ((revise g).1.relocate (Position.translate v), (revise g).2)) :
    (ofRevision name status applies revise summary).FollowsMoves settings scene v := by
  intro w w' h
  have hrevised : ({ w' with circuit := (revise w'.circuit).1 } : Workspace).outline =
      ({ w with circuit := (revise w.circuit).1 } : Workspace).outline.relocate
        (Position.translate v) := by
    change { w'.outline with circuit := (revise w'.circuit).1 } = _
    rw [h.circuit, hrevise, h]
    rfl
  have hcounts : (revise w'.circuit).2 = (revise w.circuit).2 := by
    rw [h.circuit, hrevise]
  cases summary with
  | none => exact ⟨hrevised, rfl⟩
  | some texts =>
      refine ⟨?_, rfl⟩
      change (Workspace.debug _ texts.1
        (texts.2.zip ((revise w'.circuit).2.map toString))).outline = _
      rw [hcounts]
      exact congrArg (Workspace.debug · texts.1 (texts.2.zip ((revise w.circuit).2.map toString)))
        hrevised

theorem counted_followsMoves {name status : String} {applies : Settings → Bool}
    {revise : Circuit → Revision} {summary : Option (String × List String)}
    (hrevise : ∀ g, revise (g.relocate (Position.translate v)) =
      (revise g).relocate (Position.translate v)) :
    (ofRevision name status applies (counted revise) summary).FollowsMoves settings scene v := by
  refine ofRevision_followsMoves fun g => ?_
  unfold counted
  rw [hrevise]
  rfl

/-- Two attempts with equal images fail for one reason, or succeed with equal images. -/
theorem eq_or_of_map_eq_map {ε α β : Type} {x x' : Except ε α} {m m' : α → β}
    (h : x'.map m' = x.map m) :
    (∃ e, x = .error e ∧ x' = .error e) ∨ ∃ a a', x = .ok a ∧ x' = .ok a' ∧ m' a' = m a := by
  cases x with
  | error e => cases x' with
    | error e' =>
        cases h
        exact .inl ⟨e, rfl, rfl⟩
    | ok a' => cases h
  | ok a => cases x' with
    | error e' => cases h
    | ok a' => exact .inr ⟨a, a', rfl, rfl, Except.ok.inj h⟩

theorem writeArtifact_outline (w : Workspace) (b : Bytes) :
    (writeArtifact settings w b).map Workspace.outline =
      writeArtifact settings w.outline (blank b) := by
  obtain ⟨circuit, monitor, log, sink, files⟩ := w
  unfold writeArtifact Workspace.outline
  cases sink with
  | none =>
      dsimp only [Option.map]
      rw [← files.write_outline]
      cases files.write settings.exportFile b <;> rfl
  | some sink =>
      dsimp only [Option.map]
      rw [← sink.write_outline]
      cases sink.write b <;> rfl

theorem writeArtifact_relocate (f : Position → Position) (w : Workspace) (b : Bytes) :
    writeArtifact settings (w.relocate f) b = (writeArtifact settings w b).map (·.relocate f) := by
  obtain ⟨circuit, monitor, log, sink, files⟩ := w
  unfold writeArtifact Workspace.relocate
  cases sink with
  | none => dsimp only; cases files.write settings.exportFile b <;> rfl
  | some sink => dsimp only; cases sink.write b <;> rfl

/-- Two artifacts of one length are written alike, or refused alike. -/
theorem writeArtifact_moved (settings : Settings) (h : w.Moved v w') {b b' : Bytes}
    (hb : b'.length = b.length) :
    (writeArtifact settings w' b').map Workspace.outline =
      (writeArtifact settings w b).map (·.outline.relocate (Position.translate v)) := by
  rw [writeArtifact_outline, h, blank_eq_iff.mpr hb, writeArtifact_relocate,
    ← writeArtifact_outline]
  cases writeArtifact settings w b <;> rfl

theorem exportCircuit_moved (settings : Settings) (h : w.Moved v w') :
    (exportCircuit settings w').map Workspace.outline =
      (exportCircuit settings w).map (·.outline.relocate (Position.translate v)) := by
  unfold exportCircuit
  rw [h.circuit, Circuit.flatten_relocate]
  cases w.circuit.flatten with
  | error e => rfl
  | ok n =>
      have hlength := Artifact.length_encode_relocate (Position.translate v) n
      change Except.map _ (Except.map (fun w : Workspace => w.debug "graph exported"
          [("nodes", toString (n.relocate (Position.translate v)).size)])
        (writeArtifact settings w' (Artifact.encode (n.relocate (Position.translate v))))) =
        Except.map _ (Except.map (fun w : Workspace => w.debug "graph exported"
          [("nodes", toString n.size)]) (writeArtifact settings w (Artifact.encode n)))
      rw [Netlist.size_relocate]
      rcases eq_or_of_map_eq_map (writeArtifact_moved settings h hlength) with
        ⟨e, hfailed, hfailed'⟩ | ⟨out, out', hwritten, hwritten', hout⟩
      · rw [hfailed, hfailed']
        rfl
      · rw [hwritten, hwritten']
        exact congrArg (fun w : Workspace =>
          Except.ok (w.debug "graph exported" [("nodes", toString n.size)])) hout

theorem exportGraph_followsMoves : exportGraph.FollowsMoves settings scene v := by
  intro w w' h
  unfold exportGraph
  dsimp only
  rcases eq_or_of_map_eq_map (exportCircuit_moved settings h) with
    ⟨e, hfailed, hfailed'⟩ | ⟨out, out', hexported, hexported', hout⟩
  · have hlogged := congrArg (fun w : Workspace => { w with log := w.log.fail e.message }) h
    rw [hfailed, hfailed']
    exact ⟨hlogged, rfl⟩
  · rw [hexported, hexported']
    exact ⟨hout, rfl⟩

/-- Every pass of a compilation follows the moves of its scene. -/
theorem followsMoves_of_mem_all (hvalid : scene.region.isValid = true)
    (hfits : scene.region.Fits v) {pass : Pass} (hpass : pass ∈ all) :
    pass.FollowsMoves settings scene v := by
  simp only [all, List.mem_cons, List.not_mem_nil, or_false] at hpass
  rcases hpass with rfl | rfl | rfl | rfl | rfl | rfl | rfl | rfl | rfl | rfl | rfl
  · exact identifyNodes_followsMoves hvalid hfits
  · exact inputSearch_followsMoves
  · exact counted_followsMoves (Optimize.clampLosses_relocate _)
  · exact counted_followsMoves (Optimize.dedupLinks_relocate _)
  · exact counted_followsMoves (Optimize.collapseBuses_relocate _)
  · exact counted_followsMoves (Optimize.foldConstants_relocate _)
  · exact ofRevision_followsMoves (Optimize.removeUnreachable_relocate _)
  · exact counted_followsMoves (Optimize.shareConstants_relocate _)
  · exact counted_followsMoves (Optimize.mergeDuplicates_relocate _)
  · exact counted_followsMoves (Optimize.pruneOrphans_relocate _)
  · exact exportGraph_followsMoves

end Pass

/-! ## Runs -/

namespace Run

/-- The second run is the first one with all blocks moved by `v`. -/
structure Moved (v : Offset) (r r' : Run) : Prop where
  workspace : r.workspace.Moved v r'.workspace
  samples : r'.samples = r.samples
  sightings : r'.sightings = r.sightings

variable {v : Offset} {settings : Settings} {scene : Scene} {r r' : Run}

namespace Moved

theorem modifyMonitor (h : r.Moved v r') (m : Monitor → Monitor) :
    (r.modifyMonitor m).Moved v (r'.modifyMonitor m) := by
  have hmonitor := congrArg (fun w : Workspace => { w with monitor := m w.monitor }) h.workspace
  exact { h with workspace := hmonitor }

theorem heed (h : r.Moved v r') (stop : Bool) : (r.heed stop).Moved v (r'.heed stop) := by
  cases stop with
  | false => exact h
  | true => exact h.modifyMonitor Monitor.cancel

theorem note (h : r.Moved v r') (level : LogLevel) (message : String) (pass : Pass)
    (fields : List (String × String)) :
    (r.note level message pass fields).Moved v (r'.note level message pass fields) := by
  have hlog := congrArg
    (fun w : Workspace => { w with log := w.log.add level message (("pass", pass.name) :: fields) })
    h.workspace
  exact { h with workspace := hlog }

theorem perform (h : r.Moved v r') {pass : Pass} (hpass : pass.FollowsMoves settings scene v) :
    (Run.perform settings (some scene) pass r).1.Moved v
        (Run.perform settings (some (scene.translate v)) pass r').1 ∧
      (Run.perform settings (some (scene.translate v)) pass r').2 =
        (Run.perform settings (some scene) pass r).2 := by
  obtain ⟨hworkspace, hfailure⟩ := hpass h.workspace
  have hmonitor : r'.workspace.monitor = r.workspace.monitor := h.workspace.monitor
  refine ⟨⟨hworkspace, h.samples, ?_⟩, hfailure⟩
  change r'.sightings ++ [(pass.name, r'.workspace.monitor)] = _
  rw [h.sightings, hmonitor]
  rfl

theorem conclude (h : r.Moved v r') (pass : Pass) (start stop : Instant)
    (failure : Option PassError) :
    (Run.conclude pass start stop failure r).1.Moved v (Run.conclude pass start stop failure r').1 ∧
      (Run.conclude pass start stop failure r').2 = (Run.conclude pass start stop failure r).2 := by
  have hsample : r'.sample pass start stop = r.sample pass start stop := by
    unfold sample
    rw [h.workspace.circuit, Circuit.nodeCount_relocate, Circuit.linkCount_relocate]
  have hsampled : Moved v { r with samples := r.samples ++ [r.sample pass start stop] }
      { r' with samples := r'.samples ++ [r'.sample pass start stop] } :=
    { h with samples := by rw [h.samples, hsample] }
  unfold Run.conclude
  dsimp only
  cases failure with
  | some cause => exact ⟨hsampled, rfl⟩
  | none =>
      rw [hsample] at hsampled ⊢
      exact ⟨(hsampled.note _ _ pass _).modifyMonitor Monitor.advance, rfl⟩

variable {σ : Type} (env : Surroundings (StateM σ))

/-- A step does the same in both runs, asks the same of its surroundings, and ends them alike. -/
theorem stepIn (h : r.Moved v r') {pass : Pass} (hpass : pass.FollowsMoves settings scene v)
    (s : σ) :
    let out := (Run.stepIn env settings (some scene) pass r).run s
    let out' := (Run.stepIn env settings (some (scene.translate v)) pass r').run s
    out.1.1.Moved v out'.1.1 ∧ out'.1.2 = out.1.2 ∧ out'.2 = out.2 := by
  have hheeded := h.heed (env.stopRequested.run s).1
  have hcancelled := congrArg Monitor.cancelled hheeded.workspace.monitor
  have hshown := hheeded.modifyMonitor (·.withStatus pass.status)
  -- the clock and the request to stop are asked in the same states of the surroundings
  rw [run_stepIn, run_stepIn]
  dsimp only
  rw [hcancelled]
  split
  · exact ⟨hheeded.note _ _ pass _, rfl, rfl⟩
  · split
    case isTrue =>
      obtain ⟨hdone, hfailure⟩ := hshown.perform hpass
      rw [hfailure]
      obtain ⟨hconcluded, herror⟩ := hdone.conclude pass _ _ _
      exact ⟨hconcluded, herror, rfl⟩
    case isFalse => exact ⟨(hshown.note _ _ pass _).modifyMonitor Monitor.advance, rfl, rfl⟩

theorem stepsIn {passes : List Pass}
    (hpasses : ∀ pass ∈ passes, pass.FollowsMoves settings scene v) (h : r.Moved v r') (s : σ) :
    let out := (Run.stepsIn env settings (some scene) passes r).run s
    let out' := (Run.stepsIn env settings (some (scene.translate v)) passes r').run s
    out.1.1.Moved v out'.1.1 ∧ out'.1.2 = out.1.2 ∧ out'.2 = out.2 := by
  induction passes generalizing r r' s with
  | nil => exact ⟨h.modifyMonitor (·.withStatus "Done"), rfl, rfl⟩
  | cons pass rest ih =>
      obtain ⟨hstep, herror, hstate⟩ := h.stepIn env (hpasses pass List.mem_cons_self) s
      rw [run_stepsIn_cons, run_stepsIn_cons]
      dsimp only at hstep herror hstate ⊢
      rw [herror, hstate]
      cases ((Run.stepIn env settings (some scene) pass r).run s).1.2 with
      | some e => exact ⟨hstep, rfl, rfl⟩
      | none => exact ih (fun next hnext => hpasses next (List.mem_cons_of_mem _ hnext)) hstep _

end Moved

/-- Both runs begin with the same workspace, which has no blocks yet. -/
theorem moved_start (w : Workspace) (count : Nat) : (start w count).Moved v (start w count) where
  workspace := by
    unfold Workspace.Moved Workspace.relocate start
    dsimp only [Workspace.outline]
    rw [Circuit.relocate_empty]
  samples := rfl
  sightings := rfl

end Run

namespace Compile

/-- Moving a world moves the circuit that is compiled from it, and changes nothing else: every node
has the same name, gate and state and the same blocks at moved positions, and every link is the
same.  This holds for every list of passes, under all settings and in all surroundings, and wherever
the run stops; both runs stop at the same pass and for the same reason.  Blocks outside of the region
count as well, and these may wrap around. -/
theorem circuit_moves_with_world {σ : Type} (env : Surroundings (StateM σ)) (settings : Settings)
    (passes : List Pass) (hpasses : ∀ pass ∈ passes, pass ∈ Pass.all) (scene : Scene) (v : Offset)
    (hvalid : scene.region.isValid = true) (hfits : scene.region.Fits v) (w : Workspace) (s : σ) :
    let out := (Run.allIn env settings (some scene) passes w).run s
    let out' := (Run.allIn env settings (some (scene.translate v)) passes w).run s
    (∀ p, (scene.translate v).world.get (p.translate v) = scene.world.get p) ∧
    out'.1.1.workspace.circuit = out.1.1.workspace.circuit.relocate (translate v) ∧
    out'.1.1.workspace.log = out.1.1.workspace.log ∧
    out'.1.2 = out.1.2 ∧ out'.2 = out.2 := by
  have hfollow : ∀ pass ∈ passes, pass.FollowsMoves settings scene v := fun pass hpass =>
    Pass.followsMoves_of_mem_all hvalid hfits (hpasses pass hpass)
  obtain ⟨hrun, herror, hstate⟩ := (Run.moved_start w passes.length).stepsIn env hfollow s
  exact ⟨World.get_translate, hrun.workspace.circuit, hrun.workspace.log, herror, hstate⟩

/-- A lever and a lamp at the eastern edge of the coordinates, joined by wires that stand beside
them at the western edge. -/
def acrossTheEdge : Scene where
  world := .build [(⟨2147483647, 0, 0⟩, .placed .lamp), (⟨2147483647, 0, 2⟩, .placed .lever),
    (⟨-2147483648, 0, 0⟩, .placed .wire), (⟨-2147483648, 0, 1⟩, .placed .wire),
    (⟨-2147483648, 0, 2⟩, .placed .wire)]
  region := ⟨⟨2147483647, 0, 0⟩, ⟨2147483647, 0, 2⟩⟩

/-- The circuit that the default settings compile from a scene. -/
def compiled (scene : Scene) : Circuit :=
  ((Run.allIn (m := StateM Unit) (.quiet (pure 0)) .default (some scene) Pass.all
    { log := { verbose := false } }).run ()).1.1.workspace.circuit

/-- The way over the edge becomes a way inside the coordinates, with the same loss. -/
theorem circuit_moves_with_world_acrossTheEdge :
    let v : Offset := ⟨-2147483650, 7, -1⟩
    acrossTheEdge.region.isValid = true ∧ acrossTheEdge.region.Fits v ∧
    compiled (acrossTheEdge.translate v) = (compiled acrossTheEdge).relocate (translate v) ∧
    (compiled acrossTheEdge).outLinks 1 =
      [{ source := 1, target := 0, channel := .main, loss := 2 }] ∧
    (compiled (acrossTheEdge.translate v)).allBlocks.map BlockRef.position =
      [⟨-3, 7, -1⟩, ⟨-3, 7, 1⟩] := by
  have hvalid : acrossTheEdge.region.isValid = true := by decide
  have hfits : acrossTheEdge.region.Fits ⟨-2147483650, 7, -1⟩ :=
    ⟨⟨by decide, by decide, by decide⟩, ⟨by decide, by decide, by decide⟩⟩
  obtain ⟨-, hcircuit, -⟩ := circuit_moves_with_world (σ := Unit) (.quiet (pure 0)) .default
    Pass.all (fun _ hpass => hpass) acrossTheEdge ⟨-2147483650, 7, -1⟩ hvalid hfits
    { log := { verbose := false } } ()
  exact ⟨hvalid, hfits, hcircuit, by decide +kernel, by decide +kernel⟩

end Compile

end Redstone
