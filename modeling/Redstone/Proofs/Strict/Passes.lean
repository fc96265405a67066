import Redstone.Proofs.Strict.Nodes
import Redstone.Proofs.Strict.SharedConstants
import Redstone.Proofs.Survey.Wiring

/-!
# Strict passes

Every pass of a compilation with strict lookups and edits.  A fault makes a strict pass fail.  On
the circuits that the pass before leaves behind, a strict pass does what the pass itself does; in
particular it does not fail.
-/

namespace Redstone

namespace Strict

open Circuit

/-! ## Linking components -/

/-- Links a node to the origin of a feed, if another node stands there. -/
def linkFeed (owners : Survey.Owners) (target : NodeId) (g : Circuit) (f : Survey.Feed) :
    Attempt Circuit :=
  match owners[f.origin]? with
  | none => return g
  | some source =>
      if source = target then return g
      else addLink g { source, target, channel := f.channel, loss := f.loss }

/-- Links a node to all of its feeds. -/
def linkNode (w : World) (owners : Survey.Owners) (g : Circuit) (id : NodeId) :
    Attempt Circuit := do
  let n ← node g id
  (Survey.nodeFeeds w n).foldlM (linkFeed owners id) g

/-- Links all nodes of a circuit to their feeds. -/
def addWiring (w : World) (g : Circuit) : Attempt Circuit := do
  let _ ← g.nodeIds.mapM (node g)
  g.nodeIds.foldlM (linkNode w (Survey.owners g)) g

section Wiring

open Survey

variable {w : World} {g₀ g : Circuit} {id : NodeId}

/-- Both ends of a feed are found: its origin is a node that has been surveyed, and its target is
the node that is looked at. -/
theorem linkFeed_eq (h : Wired g₀ g) (hplaced : Placed w g₀) (hid : g₀.contains id = true)
    (f : Feed) : linkFeed (owners g₀) id g f = .ok (Survey.linkFeed (owners g₀) id g f) := by
  have hcontains (j : NodeId) (hj : g₀.contains j = true) : g.contains j = true := by
    obtain ⟨n, hn⟩ := contains_iff.mp hj
    exact contains_of_node? ((h.node?_eq j).trans hn)
  unfold linkFeed Survey.linkFeed
  cases hsource : (owners g₀)[f.origin]? with
  | none => rfl
  | some source =>
      dsimp only
      split
      · rfl
      · obtain ⟨n, hn, -⟩ := hplaced.owner_stands hsource
        exact addLink_eq (hcontains source (contains_of_node? hn)) (hcontains id hid)

/-- The feeds of a node are linked one after the other, and each finds the circuit wired soundly. -/
theorem linkNode_eq (h : Wired g₀ g) (hplaced : Placed w g₀) (hid : g₀.contains id = true) :
    linkNode w (owners g₀) g id = .ok (Survey.linkNode w (owners g₀) g id) := by
  obtain ⟨n, hn⟩ := contains_iff.mp hid
  have hn' : g.node? id = some n := (h.node?_eq id).trans hn
  obtain ⟨p, hp⟩ := hplaced.stands hn
  rw [linkNode, node_eq hn', ok_bind, Survey.linkNode, hn']
  dsimp only
  rw [nodeFeeds_eq hp]
  refine foldlM_eq (P := fun (fs : List Feed) (g' : Circuit) =>
    Wired g₀ g' ∧ ∀ f ∈ fs, f ∈ feeds w p) (fun f rest g' hg' => ?_) ⟨h, fun _ hf => hf⟩
  have hf := hg'.2 f List.mem_cons_self
  refine ⟨linkFeed_eq hg'.1 hplaced hid f, hg'.1.linkFeed hplaced ?_ (sound_of_mem_feeds hf),
    fun f' hf' => hg'.2 f' (List.mem_cons_of_mem _ hf')⟩
  exact ⟨n, hn, isSource_eq_false_of_mem_feeds hp hf⟩

/-- On a circuit of components, linking them never looks up a node that is not there. -/
theorem addWiring_eq (h : Placed w g) : addWiring w g = .ok (Survey.addWiring w g) := by
  rw [addWiring, mapM_node_nodeIds, ok_bind]
  refine foldlM_eq (P := fun (ids : List NodeId) (g' : Circuit) =>
    Wired g g' ∧ ∀ id ∈ ids, g.contains id = true) (fun id rest g' hg' => ?_)
    ⟨.start h, fun id hid => mem_nodeIds.mp hid⟩
  exact ⟨linkNode_eq hg'.1 h (hg'.2 id List.mem_cons_self), hg'.1.linkNode h id,
    fun j hj => hg'.2 j (List.mem_cons_of_mem _ hj)⟩

end Wiring

/-! ## The list of passes -/

/-- Links the components. -/
def inputSearch : Pass :=
  { Pass.inputSearch with
    run := fun _ scene w =>
      match scene with
      | none => (w, some .noScene)
      | some s =>
          match addWiring s.world w.circuit with
          | .ok circuit => ({ w with circuit }, none)
          | .error fault => (w, some (.other fault.message)) }

/-- The pass with a strict revision in the place of its own one. -/
def ofRevision (pass : Pass) (revise : Circuit → Attempt (Circuit × List Nat))
    (summary : Option (String × List String)) : Pass :=
  { pass with
    run := fun settings scene w =>
      match revise w.circuit with
      | .ok result =>
          (Pass.ofRevision pass.name pass.status pass.applies (fun _ => result) summary).run
            settings scene w
      | .error fault => (w, some (.other fault.message)) }

/-- A revision with its one count. -/
def counted (revise : Circuit → Attempt Revision) (g : Circuit) : Attempt (Circuit × List Nat) := do
  let r ← revise g
  return (r.circuit, [r.changes])

/-- Removes dead links and settles outputs with constant inputs. -/
def removeUnreachable (g : Circuit) : Attempt (Circuit × List Nat) := do
  let pruned ← sweep pruneLinksAt g.nodeIds g
  let settled ← sweep settleOutput pruned.circuit.nodeIds pruned.circuit
  return (settled.circuit, [pruned.changes, settled.changes])

/-- The passes of a compilation, in their order.  Finding components only adds nodes, and the
export changes no circuit. -/
def passes : List Pass :=
  [ Pass.identifyNodes, inputSearch
  , ofRevision Pass.clampWeights (counted clampLosses) none
  , ofRevision Pass.dedupLinks (counted dedupLinks) none
  , ofRevision Pass.analogRepeaters (counted fun g => sweep collapseBusAt g.nodeIds g) none
  , ofRevision Pass.constantFold
      (counted fun g => untilStable (fun g => sweep foldNode g.nodeIds g) (g.nodeBound + 1) g)
      (some ("constant fold done", ["folded"]))
  , ofRevision Pass.unreachableOutput removeUnreachable
      (some ("unreachable output done", ["links", "outputs"]))
  , ofRevision Pass.constantCoalesce (counted shareConstants) none
  , ofRevision Pass.coalesce
      (counted fun g => untilStable (fun g => sweep mergeTwins g.nodeIds g) (g.nodeBound + 1) g)
      (some ("coalesce done", ["merged"]))
  , ofRevision Pass.pruneOrphans
      (counted fun g =>
        untilStable (fun g => sweep pruneNode g.nodeIds.reverse g) (g.nodeBound + 1) g)
      (some ("prune orphans done", ["pruned"]))
  , Pass.exportGraph ]

/-! ## Strict passes do the same -/

theorem counted_eq {revise : Circuit → Attempt Revision} {model : Circuit → Revision} {g : Circuit}
    (h : revise g = .ok (model g)) : counted revise g = .ok (Pass.counted model g) := by
  rw [counted, h, ok_bind]
  rfl

/-- Outputs are settled in the circuit without dead links, which is sound again. -/
theorem removeUnreachable_eq {g : Circuit} (h : g.Sound) :
    removeUnreachable g = .ok (Pass.removeUnreachable g) := by
  have hpruned := Optimize.sound_pruneDeadLinks h
  rw [removeUnreachable, pruneDeadLinks_eq h, ok_bind, settleOutputs_eq hpruned, ok_bind]
  rfl

theorem inputSearch_run {world : World} {region : Region} {w : Workspace}
    (h : Survey.Placed world w.circuit) (settings : Settings) :
    inputSearch.run settings (some { world, region }) w =
      Pass.inputSearch.run settings (some { world, region }) w := by
  change (match addWiring world w.circuit with
    | .ok circuit => (_, _)
    | .error fault => (_, _)) = _
  rw [addWiring_eq h]
  rfl

/-- A strict revision that does not fail is as good as the pass itself, with all that the pass logs.
-/
theorem ofRevision_run {name status : String} {applies : Settings → Bool}
    {revise : Circuit → Attempt (Circuit × List Nat)} {model : Circuit → Circuit × List Nat}
    {summary : Option (String × List String)} {w : Workspace}
    (h : revise w.circuit = .ok (model w.circuit)) (settings : Settings) (scene : Option Scene) :
    (ofRevision (Pass.ofRevision name status applies model summary) revise summary).run settings
        scene w =
      (Pass.ofRevision name status applies model summary).run settings scene w := by
  change (match revise w.circuit with
    | .ok result => _
    | .error fault => (_, _)) = _
  rw [h]
  rfl

end Strict

end Redstone
