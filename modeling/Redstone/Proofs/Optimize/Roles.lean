import Redstone.Proofs.Circuit.Upkeep
import Redstone.Proofs.Optimize.SteadyStates

/-!
# Optimization keeps the nodes with a role

Inputs and outputs are what the outside world knows of a circuit.  Each of the eight revising passes
is looked at as a run of edits of nodes, whatever circuit it is given: nodes are removed or merged
only after a test that they have no role, and new nodes have none.  So a node with a role stays under
its name, with its role and its blocks, and only the folding of constants changes its gate.
-/

namespace Redstone

namespace Optimize

open Circuit

variable {folds : Prop} {g₀ g : Circuit}

/-! ## Links -/

theorem upkept_clampLosses (h : Upkept folds g₀ g) : Upkept folds g₀ (clampLosses g).circuit :=
  h.links rfl fun _ => rfl

theorem upkept_dedupLinks (h : Upkept folds g₀ g) : Upkept folds g₀ (dedupLinks g).circuit :=
  h.removeLinks _

/-! ## Buses -/

/-- The repeaters of a bus have no role. -/
theorem isRemovable_of_busLines? {source : NodeId} {lines : List BusLine}
    (hbus : busLines? g source = some lines) {line : BusLine} (hline : line ∈ lines) {n : Node}
    (hn : g.node? line.repeater = some n) : n.isRemovable = true := by
  obtain ⟨hfound, -⟩ := busLines?_eq_some_iff.mp hbus
  obtain ⟨i, -, hi⟩ := mem_of_mapM_eq_some hfound hline
  obtain ⟨_, m, _, _, -, -, -, -, hm, -, hrole, -⟩ := busLine?_eq_some hi
  rw [hn] at hm
  cases hm
  exact hrole

theorem upkept_collapseBuses (h : Upkept folds g₀ g) :
    Upkept folds g₀ (collapseBuses g).circuit := by
  refine collapseBuses_keeps (P := Upkept folds g₀) (fun {g id first rest} hg _ hbus => ?_) h
  have hbare : Upkept folds g₀ (withoutLines g (first :: rest)) :=
    withoutLines_keeps (P := Upkept folds g₀) (fun {g' line} hg' hline hsame =>
      hg'.edit (.removeNode g' fun n hn => isRemovable_of_busLines? hbus hline (hsame n hn))) hg
  rw [replaceBus_eq]
  exact ((hbare.addNode (busNode (g.strength id)) rfl rfl).addLink _).addLink _

/-! ## Constants -/

theorem upkept_foldConstants (hfolds : folds) (h : Upkept folds g₀ g) :
    Upkept folds g₀ (foldConstants g).circuit := by
  refine foldConstants_keeps (P := Upkept folds g₀) (fun {g id n s} hg hn _ hfold => ?_) h
  have hfoldable := Gate.isFoldable_of_fold hfold
  exact (hg.edit (.fold hfolds hn hfoldable (.ofStrength s))).removeLinks _

theorem upkept_removeUnreachable (h : Upkept folds g₀ g) :
    Upkept folds g₀ (Pass.removeUnreachable g).1 :=
  Pass.removeUnreachable_keeps (P := Upkept folds g₀) (fun hg => hg.removeLinks _)
    (fun hg => hg.edit (.restate _ _ _))
    (fun hg => (hg.addNode (.constant _) rfl rfl).addLink _) h

theorem upkept_shareConstants (h : Upkept folds g₀ g) :
    Upkept folds g₀ (shareConstants g).circuit := by
  refine shareConstants_keeps (P := Upkept folds g₀) (fun hg => hg.setSource _ _)
    (fun hg _ _ => hg.addNode (.constant _) rfl rfl) (fun {g id n} hg hn hsharable => ?_) h
  rw [isSharable, Bool.and_eq_true] at hsharable
  refine hg.edit (.removeNode g fun m hm => ?_)
  cases hn.symm.trans hm
  exact hsharable.2

/-! ## Duplicates and orphans -/

/-- Merging moves links, and then one node absorbs the other. -/
theorem upkept_mergeDuplicates (h : Upkept folds g₀ g) :
    Upkept folds g₀ (mergeDuplicates g).circuit := by
  refine mergeDuplicates_keeps (P := Upkept folds g₀) (fun {g twin into n m} hg hpair => ?_) h
  have hmoved := hg.links (nodeBound_foldl_takeOver into (g.outputs twin) g)
    (node?_foldl_takeOver into (g.outputs twin) g)
  rw [merge_eq hpair.twin_node]
  exact hmoved.edit (.absorb ((node?_foldl_takeOver ..).trans hpair.twin_node)
    ((node?_foldl_takeOver ..).trans hpair.into_node) hpair.ne hpair.twin_removable
    hpair.into_removable)

theorem upkept_pruneOrphans (h : Upkept folds g₀ g) :
    Upkept folds g₀ (pruneOrphans g).circuit := by
  refine pruneOrphans_keeps (P := Upkept folds g₀) (fun {g id n} hg hn hrole _ => ?_) h
  refine hg.edit (.removeNode g fun m hm => ?_)
  cases hn.symm.trans hm
  exact hrole

end Optimize

/-! ## Passes -/

/-- Every revising pass is a run of edits of nodes, and only the folding of constants folds. -/
theorem Pass.upkept_run {pass : Pass} (hpass : pass ∈ revisions) (settings : Settings)
    (scene : Option Scene) (w : Workspace) :
    Circuit.Upkept (pass = constantFold) w.circuit (pass.run settings scene w).1.circuit := by
  simp only [revisions, List.mem_cons, List.not_mem_nil, or_false] at hpass
  rcases hpass with rfl | rfl | rfl | rfl | rfl | rfl | rfl | rfl
  · exact (circuit_run_ofRevision ..).symm ▸ Optimize.upkept_clampLosses .refl
  · exact (circuit_run_ofRevision ..).symm ▸ Optimize.upkept_dedupLinks .refl
  · exact (circuit_run_ofRevision ..).symm ▸ Optimize.upkept_collapseBuses .refl
  · exact (circuit_run_ofRevision ..).symm ▸ Optimize.upkept_foldConstants rfl .refl
  · exact (circuit_run_ofRevision ..).symm ▸ Optimize.upkept_removeUnreachable .refl
  · exact (circuit_run_ofRevision ..).symm ▸ Optimize.upkept_shareConstants .refl
  · exact (circuit_run_ofRevision ..).symm ▸ Optimize.upkept_mergeDuplicates .refl
  · exact (circuit_run_ofRevision ..).symm ▸ Optimize.upkept_pruneOrphans .refl

namespace Workspace

variable (settings : Settings) (scene : Option Scene)

/-- Somewhere in a sequence of passes, the folding of constants finds the gate `k` at a node and
turns it into a constant. -/
def FoldsAway (w : Workspace) (passes : List Pass) (id : NodeId) (k : Gate) : Prop :=
  ∃ before later n n', passes = before ++ Pass.constantFold :: later ∧
    (w.after settings scene before).circuit.node? id = some n ∧ n.gate = k ∧
    (w.after settings scene (before ++ [Pass.constantFold])).circuit.node? id = some n' ∧
    n'.gate = .constant

theorem FoldsAway.cons {settings : Settings} {scene : Option Scene} {pass : Pass} {w : Workspace}
    {passes : List Pass} {id : NodeId} {k : Gate}
    (h : FoldsAway settings scene (pass.run settings scene w).1 passes id k) :
    FoldsAway settings scene w (pass :: passes) id k := by
  obtain ⟨before, later, n, n', rfl, hn, hgate, hn', hconst⟩ := h
  exact ⟨pass :: before, later, n, n', rfl, hn, hgate, hn', hconst⟩

/-- The circuit after some revising passes descends from the one before them. -/
theorem lineage_after {passes : List Pass} (hpasses : ∀ pass ∈ passes, pass ∈ Pass.revisions)
    (w : Workspace) : Circuit.Lineage w.circuit (w.after settings scene passes).circuit := by
  induction passes generalizing w with
  | nil => exact .refl _
  | cons pass rest ih =>
      have hstep := (Pass.upkept_run (hpasses pass List.mem_cons_self) settings scene w).lineage
      exact hstep.trans (ih (fun next hnext => hpasses next (List.mem_cons_of_mem _ hnext)) _)

/-- A node with a role is still there after one pass, and its gate is another one only if it has
been folded. -/
theorem exists_node_run {pass : Pass} (hpass : pass ∈ Pass.revisions) {w : Workspace} {id : NodeId}
    {n : Node} (hn : w.circuit.node? id = some n) (hrole : n.isRemovable = false) :
    ∃ n', (pass.run settings scene w).1.circuit.node? id = some n' ∧ n.Continues n' ∧
      (n'.gate = n.gate ∨ pass = Pass.constantFold ∧ n'.gate = .constant) := by
  have hupkept := Pass.upkept_run hpass settings scene w
  obtain ⟨n', hn', hcont⟩ := hupkept.lineage.kept hn hrole
  refine ⟨n', hn', hcont, ?_⟩
  by_cases hfold : pass = Pass.constantFold
  · exact hcont.gate_eq.imp_right fun hconst => ⟨hfold, hconst.2⟩
  -- any other pass is a run of edits that do not fold
  · exact .inl ((hupkept.mono hfold).gate_eq hn hn')

/-- A node with a role is still there after any number of passes. -/
theorem exists_node_after {passes : List Pass} (hpasses : ∀ pass ∈ passes, pass ∈ Pass.revisions)
    {w : Workspace} {id : NodeId} {n : Node} (hn : w.circuit.node? id = some n)
    (hrole : n.isRemovable = false) :
    ∃ n', (w.after settings scene passes).circuit.node? id = some n' ∧ n.Continues n' ∧
      (n'.gate = n.gate ∨ FoldsAway settings scene w passes id n.gate) := by
  induction passes generalizing w n with
  | nil => exact ⟨n, hn, .refl n, .inl rfl⟩
  | cons pass rest ih =>
      obtain ⟨m, hm, hcont, hgate⟩ :=
        exists_node_run settings scene (hpasses pass List.mem_cons_self) hn hrole
      obtain ⟨n', hn', hcont', hgate'⟩ :=
        ih (fun next hnext => hpasses next (List.mem_cons_of_mem _ hnext)) hm
          (hcont.isRemovable_eq.trans hrole)
      refine ⟨n', hn', hcont.trans hcont', ?_⟩
      rcases hgate with hsame | ⟨rfl, hconst⟩
      · rcases hgate' with hsame' | hfolds
        · exact .inl (hsame'.trans hsame)
        · exact .inr (hsame ▸ hfolds.cons)
      -- folded by this pass, whatever the others do to the constant
      · exact .inr ⟨[], rest, n, m, rfl, hn, rfl, hm, hconst⟩

end Workspace

/-- Whatever passes revise a circuit and in whatever order, its inputs and outputs stay under their
names, in their roles and with their blocks, and no other node gets a role.  Their gates stay as well,
but for those that the folding of constants makes constants. -/
theorem Circuit.roles_are_kept (settings : Settings) (scene : Option Scene) (passes : List Pass)
    (hpasses : ∀ pass ∈ passes, pass ∈ Pass.revisions) (w : Workspace) :
    let g := w.circuit
    let g' := (w.after settings scene passes).circuit
    (∀ id n, g.node? id = some n → n.isInput = true ∨ n.isOutput = true →
      ∃ n', g'.node? id = some n' ∧ n'.isInput = n.isInput ∧ n'.isOutput = n.isOutput ∧
        n'.blocks = n.blocks ∧
        (n'.gate = n.gate ∨
          (n.gate.type = .repeater ∨ n.gate.type = .torch ∨ n.gate.type = .comparator) ∧
            n'.gate = .constant ∧ w.FoldsAway settings scene passes id n.gate)) ∧
    ∀ id n', g'.node? id = some n' → n'.isInput = true ∨ n'.isOutput = true →
      ∃ n, g.node? id = some n ∧ (n.isInput = true ∨ n.isOutput = true) := by
  intro g g'
  refine ⟨fun id n hn hrole => ?_, fun id n' hn' hrole => ?_⟩
  · obtain ⟨n', hn', hcont, hgate⟩ := Workspace.exists_node_after settings scene
      hpasses hn (Node.isRemovable_eq_false_iff.mpr hrole)
    refine ⟨n', hn', hcont.isInput_eq, hcont.isOutput_eq, hcont.blocks_eq, ?_⟩
    rcases hcont.gate_eq with hsame | ⟨hfoldable, hconst⟩
    · exact .inl hsame
    · refine hgate.imp_right fun hfolds => ⟨Gate.isFoldable_iff.mp hfoldable, hconst, hfolds⟩
  · have hlineage := Workspace.lineage_after settings scene hpasses w
    obtain ⟨n, hn, hflag⟩ := hlineage.flagged hn' (Node.isRemovable_eq_false_iff.mpr hrole)
    exact ⟨n, hn, Node.isRemovable_eq_false_iff.mp hflag⟩

/-- A constant puts out a torch that the outside world looks at, beside a lever that feeds nothing. -/
def Circuit.quenchedTorch : Circuit :=
  let nodes := ((Circuit.empty.addNode (.constant 15)).addNode
    { gate := .plain .torch, blocks := [⟨⟨0, 0, 0⟩, 7⟩], isOutput := true }).addNode
    { gate := .plain .lever, blocks := [⟨⟨1, 0, 0⟩, 9⟩], isInput := true }
  nodes.addLink { source := 0, target := 1, channel := .main, loss := 0 }

/-- The torch goes out for good, and is still there as an output at its block. -/
theorem Circuit.roles_are_kept_quenchedTorch :
    let w : Workspace := { circuit := quenchedTorch, log := { verbose := false } }
    ∃ n', (w.after .default none Pass.revisions).circuit.node? 1 = some n' ∧ n'.isOutput = true ∧
      n'.blocks = [⟨⟨0, 0, 0⟩, 7⟩] ∧ n'.gate = .constant ∧
      w.FoldsAway .default none Pass.revisions 1 (.plain .torch) := by
  intro w
  have htorch : w.circuit.node? 1 =
      some { gate := .plain .torch, blocks := [⟨⟨0, 0, 0⟩, 7⟩], isOutput := true } := by decide
  have hafter : ((w.after .default none Pass.revisions).circuit.node? 1).map Node.gate =
      some .constant := by decide +kernel
  obtain ⟨n', hn', -, hout, hblocks, hgate⟩ :=
    (roles_are_kept .default none Pass.revisions (fun _ hpass => hpass) w).1 1 _ htorch (.inr rfl)
  rw [hn'] at hafter
  have hconst : n'.gate = .constant := Option.some.inj hafter
  rcases hgate with hsame | ⟨-, -, hfolds⟩
  · rw [hconst] at hsame
    cases hsame
  · exact ⟨n', hn', hout, hblocks, hconst, hfolds⟩

end Redstone
