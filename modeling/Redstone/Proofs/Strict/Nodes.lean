import Redstone.Proofs.Strict.Constants

/-!
# Strict revisions of nodes

The passes that collapse buses, share constants, merge duplicates and remove orphans, with strict
lookups and edits.  These passes remove nodes and go on with names that they have listed before.
Where they expect that such a name may be gone they look first, and everywhere else it is still
known: they never stop with a fault.
-/

namespace Redstone.Strict

open Circuit Optimize

/-! ## Orphans -/

/-- Removes the node, if it is an orphan. -/
def pruneNode (id : NodeId) (g : Circuit) : Attempt Revision := do
  let n ← node g id
  if n.isRemovable && (g.outputs id).isEmpty then return .once (← removeNode g id)
  return .unchanged g

variable {g : Circuit} {id : NodeId}

theorem pruneNode_eq (h : g.WellFormed) (hid : g.contains id = true) :
    pruneNode id g = .ok (Optimize.pruneNode id g) := by
  obtain ⟨n, hn⟩ := contains_iff.mp hid
  rw [pruneNode, node_eq hn, ok_bind, Optimize.pruneNode, isOrphan, hn, Option.any_some]
  split
  · rw [removeNode_eq h hid, ok_bind]
    rfl
  · rfl

theorem pruneOrphans_eq (h : g.Sound) :
    untilStable (fun g => sweep pruneNode g.nodeIds.reverse g) (g.nodeBound + 1) g =
      .ok (Optimize.pruneOrphans g) := by
  refine untilStable_eq (P := Sound) (fun g hg => ⟨?_, sound_pruneSweep hg⟩) _ h
  -- a name that is still to come is not the one that is removed
  refine sweep_eq (P := fun ids g => Knows ids g ∧ ids.Nodup) (fun id rest g hg => ⟨?_, ?_⟩)
    ⟨⟨hg, fun id hid => mem_nodeIds.mp (List.mem_reverse.mp hid)⟩,
      List.nodup_reverse.mpr g.nodeIds_nodup⟩
  · exact pruneNode_eq hg.1.sound.regular.wellFormed hg.1.head
  · obtain ⟨hnot, hnodup⟩ := List.nodup_cons.mp hg.2
    refine ⟨hg.1.next (sound_pruneNode hg.1.sound id) fun j hj hc => ?_, hnodup⟩
    have hne : id ≠ j := fun e => hnot (e ▸ hj)
    exact pruneNode_keeps (P := fun g => g.contains j = true)
      (fun _ _ _ => (contains_removeNode id j).trans (by simp [hc, hne])) hc

/-! ## Buses -/

/-- The link leads into a repeater of delay one that has no other input, has one output, and may
be removed. -/
def busLine (g : Circuit) (i : LinkId) : Attempt (Option BusLine) := do
  let l ← link g i
  let n ← node g l.target
  if l.channel = .main ∧ n.gate = .repeater 1 false ∧ n.isRemovable ∧
      (g.inputs l.target).length = 1 then
    match g.outputs l.target with
    | [out] =>
        let m ← link g out
        return some {
          repeater := l.target
          inLoss := l.loss
          target := m.target
          channel := m.channel
          outLoss := m.loss }
    | _ => return none
  else return none

/-- The lines of the bus that starts at `source`. -/
def busLines (g : Circuit) (source : NodeId) : Attempt (Option (List BusLine)) := do
  let found ← (g.outputs source).mapM (busLine g)
  match found.mapM fun line => line with
  | some (first :: rest) =>
      let lines := first :: rest
      let target ← node g first.target
      return if lines.length = busWidth ∧
          lines.all (fun line =>
            line.isTuned && line.target == first.target && line.channel == first.channel) ∧
          (lines.map BusLine.inLoss).Nodup ∧
          first.target ≠ source ∧ target.gate.isComparator then
        some lines
      else none
  | _ => return none

/-- Replaces the lines of a bus by one comparator. -/
def replaceBus (g : Circuit) (source : NodeId) (lines : List BusLine) (first : BusLine) :
    Attempt Circuit := do
  let bare ← lines.foldlM (fun g line => removeNode g line.repeater) g
  let n ← node bare source
  let added := bare.addNode
    { gate := .comparator .compare false, state := .ofStrength n.state.strength }
  let linked ← addLink added { source, target := bare.nodeBound, channel := .main, loss := 0 }
  addLink linked
    { source := bare.nodeBound, target := first.target, channel := first.channel, loss := 0 }

/-- Collapses the bus that starts at a node, if the node is still there and is a comparator. -/
def collapseBusAt (id : NodeId) (g : Circuit) : Attempt Revision := do
  if (g.node? id).any fun n => n.gate.isComparator then
    match ← busLines g id with
    | some (first :: rest) => return .once (← replaceBus g id (first :: rest) first)
    | _ => return .unchanged g
  else return .unchanged g

/-- A line is followed through a repeater and one link that are both there. -/
theorem busLine_eq (h : g.WellFormed) {i : LinkId} {l : Link} (hl : g.link? i = some l) :
    busLine g i = .ok (busLine? g i) := by
  obtain ⟨n, hn⟩ := contains_iff.mp (h.contains_target hl)
  simp only [busLine, link_eq hl, node_eq hn, ok_bind, busLine?, hl, hn, Option.bind_eq_bind,
    Option.bind_some]
  split
  case isFalse => rfl
  case isTrue =>
    match hout : g.outputs l.target with
    | [] => rfl
    | [out] =>
        obtain ⟨m, hm, -⟩ := h.mem_outputs_iff.mp (hout ▸ List.mem_singleton_self out)
        dsimp only
        rw [link_eq hm, ok_bind, hm]
        rfl
    | _ :: _ :: _ => rfl

/-- The target of the bus is looked up last, and a link leads to it. -/
theorem busLines_eq (h : g.WellFormed) (source : NodeId) :
    busLines g source = .ok (busLines? g source) := by
  have hfound : (g.outputs source).mapM (busLine g) =
      .ok ((g.outputs source).filterMap fun i => some (busLine? g i)) := by
    refine mapM_eq fun i hi => ?_
    obtain ⟨l, hl, -⟩ := h.mem_outputs_iff.mp hi
    exact ⟨_, rfl, busLine_eq h hl⟩
  have hsequence : ((g.outputs source).filterMap fun i => some (busLine? g i)).mapM (fun line => line) =
      (g.outputs source).mapM (busLine? g) := by
    rw [List.filterMap_eq_map', List.mapM_map]
    rfl
  rw [busLines, hfound, ok_bind, hsequence, busLines?]
  cases hlines : (g.outputs source).mapM (busLine? g) with
  | none => rfl
  | some lines =>
      cases lines with
      | nil => rfl
      | cons first rest =>
          -- the first line ends at the target of a link
          obtain ⟨i, -, hfirst⟩ := mem_of_mapM_eq_some hlines List.mem_cons_self
          obtain ⟨-, -, k, o, -, -, -, -, -, -, -, -, -, ho, htarget, -⟩ := busLine?_eq_some hfirst
          obtain ⟨n, hn⟩ := contains_iff.mp (htarget ▸ h.contains_target ho)
          dsimp only
          rw [node_eq hn, ok_bind]
          simp [hn]
          rfl

/-- Lines with different losses go through different repeaters. -/
theorem nodup_repeaters {source : NodeId} {lines : List BusLine} {first : BusLine}
    (h : Bus g source lines first) (hlosses : (lines.map BusLine.inLoss).Nodup) :
    (lines.map BusLine.repeater).Nodup := by
  rw [List.Nodup, List.pairwise_map] at hlosses ⊢
  refine hlosses.imp_of_mem fun {a b} ha hb hne heq => hne ?_
  obtain ⟨i, l, hl, htarget⟩ := (h.line ha).hangs.link
  obtain ⟨-, -, hloss⟩ := (h.line ha).hangs.every hl htarget
  obtain ⟨-, -, hloss'⟩ := (h.line hb).hangs.every hl (htarget.trans heq)
  exact hloss.symm.trans hloss'

theorem nodup_inLoss_of_busLines? {source : NodeId} {lines : List BusLine}
    (hbus : busLines? g source = some lines) : (lines.map BusLine.inLoss).Nodup := by
  obtain ⟨-, _, _, -, -, -, -, hnodup, -⟩ := busLines?_eq_some_iff.mp hbus
  exact hnodup

theorem replaceBus_eq (h : g.WellFormed) {source : NodeId} {lines : List BusLine}
    {first : BusLine} (hbus : Bus g source lines first)
    (hlosses : (lines.map BusLine.inLoss).Nodup) :
    replaceBus g source lines first = .ok (Optimize.replaceBus g source lines first) := by
  -- the repeaters are different nodes, so that none is removed twice
  have hbare : lines.foldlM (fun g line => removeNode g line.repeater) g =
      .ok (withoutLines g lines) := by
    refine foldlM_eq (P := fun (rest : List BusLine) (g : Circuit) => g.WellFormed ∧
      (rest.map BusLine.repeater).Nodup ∧ ∀ line ∈ rest, g.contains line.repeater = true) ?_
      ⟨h, nodup_repeaters hbus hlosses, fun line hline => ?_⟩
    · rintro line rest g ⟨h, hnodup, hlive⟩
      obtain ⟨hnot, hnodup⟩ := List.nodup_cons.mp hnodup
      refine ⟨removeNode_eq h (hlive line List.mem_cons_self), h.removeNode _, hnodup,
        fun next hnext => ?_⟩
      have hne : line.repeater ≠ next.repeater := fun e => hnot (e ▸ List.mem_map_of_mem hnext)
      rw [contains_removeNode, hlive next (List.mem_cons_of_mem _ hnext)]
      simpa using hne
    · obtain ⟨n, hn, -⟩ := (hbus.line hline).node
      exact contains_of_node? hn
  -- both ends of the bus outlive its repeaters, and the new links have their ends
  obtain ⟨n, hn, -⟩ := hbus.source_node
  obtain ⟨m, hm, -⟩ := hbus.target_node
  have hn' : (withoutLines g lines).node? source = some n := by
    rw [node?_withoutLines, if_neg hbus.source_notMem, hn]
  have hm' : (withoutLines g lines).node? first.target = some m := by
    rw [node?_withoutLines, if_neg hbus.target_notMem, hm]
  have hstrength : g.strength source = n.state.strength := by
    rw [strength, hn]
    rfl
  rw [replaceBus, hbare, ok_bind, node_eq hn', ok_bind]
  dsimp only
  rw [addLink_eq, ok_bind, addLink_eq, Optimize.replaceBus_eq, busIn, busOut, hstrength, nodeBound_withoutLines]
  · rfl
  · rw [contains_addLink, contains_addNode]
    simp
  · rw [contains_addLink, contains_addNode, contains_of_node? hm', Bool.or_true]
  · rw [contains_addNode, contains_of_node? hn', Bool.or_true]
  · rw [contains_addNode]
    simp

/-- A comparator that an earlier bus has taken away is skipped, not looked up. -/
theorem collapseBusAt_eq (h : g.WellFormed) (id : NodeId) :
    collapseBusAt id g = .ok (Optimize.collapseBusAt id g) := by
  unfold collapseBusAt Optimize.collapseBusAt
  split
  case isFalse => rfl
  case isTrue hcomparator =>
    rw [busLines_eq h, ok_bind]
    unfold collapseBus
    match hlines : busLines? g id with
    | none => rfl
    | some [] => rfl
    | some (first :: rest) =>
        dsimp only
        rw [replaceBus_eq h (bus_of_busLines? h hcomparator hlines)
          (nodup_inLoss_of_busLines? hlines), ok_bind]
        rfl

theorem collapseBuses_eq (h : g.Sound) :
    sweep collapseBusAt g.nodeIds g = .ok (Optimize.collapseBuses g) :=
  sweep_eq (P := fun _ => Sound) (fun id _ _ hg =>
    ⟨collapseBusAt_eq hg.regular.wellFormed id, sound_collapseBusAt hg id⟩) h

/-! ## Duplicates -/

/-- The last link of a node to the given channel of the given node. -/
def parallelOutput (g : Circuit) (id target : NodeId) (channel : Channel) :
    Attempt (Option (LinkId × Link)) := do
  let links ← (g.outputs id).mapM fun i => do return (i, ← link g i)
  return links.reverse.find? fun (_, l) => l.target == target && l.channel == channel

/-- Lets the link `i` of another node start at node `into`. -/
def takeOver (into : NodeId) (g : Circuit) (i : LinkId) : Attempt Circuit := do
  let l ← link g i
  match ← parallelOutput g into l.target l.channel with
  | none => setSource g i into
  | some (j, m) =>
      if m.loss ≤ l.loss then removeLink g i
      else
        let freed ← removeLink g j
        setSource freed i into

/-- Merges a node into another one, which takes over its links and blocks. -/
def merge (g : Circuit) (twin into : NodeId) : Attempt Circuit := do
  let moved ← (g.outputs twin).foldlM (takeOver into) g
  let n ← node moved twin
  let grown ← modifyNode moved into fun m => { m with blocks := m.blocks ++ n.blocks }
  removeNode grown twin

/-- The twin of the node `into` behind the link `i`, if the link is still there and leads to one. -/
def twin (g : Circuit) (source into : NodeId) (l : Link) (i : LinkId) :
    Attempt (Option NodeId) :=
  match g.link? i with
  | none => return none
  | some m => do
      let n ← node g m.target
      let kept ← node g into
      return if m.target ≠ into ∧ m.target ≠ source ∧ m.channel = l.channel ∧ m.loss = l.loss ∧
          n.gate = kept.gate ∧ n.isRemovable ∧ (g.inputs m.target).length = 1 then
        some m.target
      else none

/-- Merges the twin behind link `i`, if there is one. -/
def mergeTwin (source into : NodeId) (l : Link) (i : LinkId) (g : Circuit) : Attempt Revision := do
  match ← twin g source into l i with
  | some found => return .once (← merge g found into)
  | none => return .unchanged g

/-- The single link of a node that can have twins, if the node is still there. -/
def soleLink (g : Circuit) (id : NodeId) : Attempt (Option Link) :=
  match g.node? id, g.inputs id with
  | some n, [i] => do
      let l ← link g i
      let s ← node g l.source
      return if !n.gate.isComparator ∧ n.isRemovable ∧ l.channel = .main ∧ l.source ≠ id ∧
          !s.gate.isComparator then
        some l
      else none
  | _, _ => return none

/-- Merges all twins of a node into it. -/
def mergeTwins (id : NodeId) (g : Circuit) : Attempt Revision := do
  match ← soleLink g id with
  | none => return .unchanged g
  | some l => sweep (mergeTwin l.source id l) (g.outputs l.source) g

theorem parallelOutput_eq (h : g.WellFormed) (id target : NodeId) (channel : Channel) :
    parallelOutput g id target channel = .ok (parallelOutput? g id target channel) := by
  have hlinks : ((g.outputs id).mapM fun i => do return (i, ← link g i)) =
      .ok ((g.outputs id).filterMap fun i => (g.link? i).map (i, ·)) := by
    refine mapM_eq fun i hi => ?_
    obtain ⟨l, hl, -⟩ := h.mem_outputs_iff.mp hi
    refine ⟨(i, l), by rw [hl, Option.map_some], ?_⟩
    rw [link_eq hl, ok_bind]
    rfl
  rw [parallelOutput, hlinks, ok_bind]
  rfl

/-- The link that is given up is another one than the link that is moved. -/
theorem takeOver_eq (h : g.WellFormed) {into : NodeId} (hinto : g.contains into = true)
    {i : LinkId} {l : Link} (hl : g.link? i = some l) (hsource : l.source ≠ into) :
    takeOver into g i = .ok (Optimize.takeOver into g i) := by
  rw [takeOver, link_eq hl, ok_bind, parallelOutput_eq h, ok_bind, Optimize.takeOver, hl]
  dsimp only
  cases hout : parallelOutput? g into l.target l.channel with
  | none => exact setSource_eq h hl hinto
  | some found =>
      obtain ⟨j, m⟩ := found
      obtain ⟨hm, hstart, -⟩ := parallelOutput?_eq_some h hout
      dsimp only
      split
      case isTrue => exact removeLink_eq h hl
      case isFalse =>
        rw [removeLink_eq h hm, ok_bind]
        have hij : j ≠ i := by
          rintro rfl
          rw [hl] at hm
          cases hm
          exact hsource hstart
        refine setSource_eq (h.removeLink j) (l := l) ?_ ?_
        · rw [link?_removeLink, if_neg hij, hl]
        · rw [contains_removeLink, hinto]

/-- Both nodes are there until the twin has lost its links. -/
theorem merge_eq {found into source : NodeId} {loss : UInt8} {n m : Node}
    (h : Twins g found into source loss n m) :
    merge g found into = .ok (Optimize.merge g found into) := by
  have hwf := h.regular.wellFormed
  have hmoved : (g.outputs found).foldlM (takeOver into) g =
      .ok ((g.outputs found).foldl (Optimize.takeOver into) g) := by
    refine foldlM_eq (P := fun (rest : List LinkId) (g' : Circuit) =>
      Merging g found into source loss n m rest g' ∧ rest.Nodup) ?_
      ⟨h.merging, hwf.outputs_nodup found⟩
    rintro i rest g' ⟨hmerging, hnodup⟩
    obtain ⟨l, hl, hstart⟩ := hmerging.pending i List.mem_cons_self
    have htwins := hmerging.twins
    exact ⟨takeOver_eq htwins.regular.wellFormed (contains_of_node? htwins.into_node) hl
      (hstart ▸ htwins.ne), hmerging.takeOver hnodup, (List.nodup_cons.mp hnodup).2⟩
  have htwins := (h.merging.foldl_takeOver (hwf.outputs_nodup found)).twins
  rw [merge, hmoved, ok_bind, node_eq htwins.twin_node, ok_bind,
    modifyNode_eq (contains_of_node? htwins.into_node), ok_bind,
    removeNode_eq (htwins.regular.wellFormed.modifyNode into _), Optimize.merge]
  · rw [htwins.twin_node]
    rfl
  · rw [contains_modifyNode]
    exact contains_of_node? htwins.twin_node

theorem twin_eq (h : g.WellFormed) (source : NodeId) {into : NodeId}
    (hinto : g.contains into = true) (l : Link) (i : LinkId) :
    twin g source into l i = .ok (twin? g source into l i) := by
  unfold twin twin?
  cases hm : g.link? i with
  | none => rfl
  | some m =>
      obtain ⟨n, hn⟩ := contains_iff.mp (h.contains_target hm)
      obtain ⟨kept, hkept⟩ := contains_iff.mp hinto
      simp only [node_eq hn, node_eq hkept, ok_bind, hn, hkept, Option.bind_eq_bind,
        Option.bind_some]
      rfl

theorem soleLink_eq (h : g.WellFormed) (id : NodeId) :
    soleLink g id = .ok (soleLink? g id) := by
  unfold soleLink soleLink?
  cases hn : g.node? id with
  | none => rfl
  | some n =>
      match hinputs : g.inputs id with
      | [] => rfl
      | [i] =>
          obtain ⟨l, hl, -⟩ := h.mem_inputs_iff.mp (hinputs ▸ List.mem_singleton_self i)
          obtain ⟨s, hs⟩ := contains_iff.mp (h.contains_source hl)
          simp only [link_eq hl, ok_bind, node_eq hs, hl, hs, Option.bind_eq_bind,
            Option.bind_some]
          rfl
      | _ :: _ :: _ => rfl

/-- The node that takes over stays while its twins go. -/
theorem mergeTwins_eq (h : g.Regular) (id : NodeId) :
    mergeTwins id g = .ok (Optimize.mergeTwins id g) := by
  rw [mergeTwins, soleLink_eq h.wellFormed, ok_bind, Optimize.mergeTwins]
  cases hsole : soleLink? g id with
  | none => rfl
  | some l =>
      obtain ⟨hhost, hchannel⟩ := host_of_soleLink? h hsole
      dsimp only
      refine sweep_eq (P := fun items g' => (∀ i ∈ items, i ∈ g.outputs l.source) ∧
        Host g id l.source l.loss (g.outputs l.source) g') (fun i rest g' hg' => ?_)
        ⟨fun _ hi => hi, hhost⟩
      obtain ⟨hitems, hhost⟩ := hg'
      have hi := hitems i List.mem_cons_self
      obtain ⟨m, hm, -⟩ := hhost.node
      refine ⟨?_, fun j hj => hitems j (List.mem_cons_of_mem _ hj), hhost.mergeTwin hi hchannel⟩
      rw [mergeTwin, twin_eq hhost.refines.regular.wellFormed _ (contains_of_node? hm), ok_bind,
        Optimize.mergeTwin]
      cases htwin : twin? g' l.source id l i with
      | none => rfl
      | some found =>
          obtain ⟨n, m', htwins, -⟩ := hhost.twins hi hchannel htwin
          dsimp only
          rw [merge_eq htwins, ok_bind]
          rfl

theorem mergeDuplicates_eq (h : g.Sound) :
    untilStable (fun g => sweep mergeTwins g.nodeIds g) (g.nodeBound + 1) g =
      .ok (Optimize.mergeDuplicates g) := by
  refine untilStable_eq (P := Sound) (fun g hg => ⟨?_, sound_mergeSweep hg⟩) _ h
  exact sweep_eq (P := fun _ => Sound) (fun id _ _ hg =>
    ⟨mergeTwins_eq hg.regular id, sound_mergeTwins hg id⟩) hg

end Redstone.Strict
