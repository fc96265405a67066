import Redstone.Proofs.Optimize.Range
import Redstone.Proofs.Strict.Edits

/-!
# Strict revisions of links and constants

The passes that change links, fold gates and settle outputs, with strict lookups and edits.  No
node is removed on the way, so that the names they sweep over stay known, and they never stop
with a fault.
-/

namespace Redstone.Strict

open Circuit Optimize

/-! ## Definitions -/

/-- Cuts off all losses at the greatest strength. -/
def clampLosses (g : Circuit) : Attempt Revision := do
  let _ ← g.linkIds.mapM (link g)
  return Optimize.clampLosses g

/-- Some link that ends at the same node makes the link superfluous. -/
def isRedundant (g : Circuit) (i : LinkId) : Attempt Bool := do
  let l ← link g i
  let outdone ← filter (fun j => do return outdoes j (← link g j) i l) (g.inputs l.target)
  return !outdone.isEmpty

/-- The superfluous links among those that end at one of the nodes. -/
def redundantLinks (g : Circuit) : List NodeId → Attempt (List LinkId)
  | [] => return []
  | id :: ids => do
      let found ← filter (isRedundant g) (g.inputs id)
      let rest ← redundantLinks g ids
      return found ++ rest

/-- Removes all superfluous links. -/
def dedupLinks (g : Circuit) : Attempt Revision := do
  let redundant ← redundantLinks g g.nodeIds
  let circuit ← removeLinks g redundant
  return { circuit, changes := redundant.length }

/-- The node is a constant. -/
def isConstant (g : Circuit) (id : NodeId) : Attempt Bool := do
  let n ← node g id
  return n.gate.isConstant

/-- All sources of the node are constants. -/
def hasConstantInputs (g : Circuit) (id : NodeId) : Attempt Bool := do
  let links ← inLinks g id
  let constant ← filter (fun l => isConstant g l.source) links
  return constant.length == links.length

/-- The power at a node in the present state of the circuit. -/
def inputPower (g : Circuit) (id : NodeId) : Attempt Power := do
  let links ← inLinks g id
  links.foldlM
    (fun p l => do
      let n ← node g l.source
      return p.receive l.channel (attenuate n.state.strength l.loss)) {}

/-- Turns a node into a constant without sources. -/
def makeConstant (g : Circuit) (id : NodeId) (strength : UInt8) : Attempt Circuit := do
  let changed ← modifyNode g id fun n => { n with gate := .constant, state := .ofStrength strength }
  removeLinks changed (g.inputs id)

/-- Folds a node, if all of its sources are constants and its output can be computed. -/
def foldNode (id : NodeId) (g : Circuit) : Attempt Revision := do
  let n ← node g id
  let settled ← hasConstantInputs g id
  let power ← inputPower g id
  if n.gate.isConstant || !settled then return .unchanged g
  match n.gate.fold n.state power with
  | none => return .unchanged g
  | some strength => return .once (← makeConstant g id strength)

/-- What a constant side input brings, zero for any other link. -/
def constantSide (g : Circuit) (l : Link) : Attempt UInt8 := do
  let n ← node g l.source
  return if l.channel = .side ∧ n.gate.isConstant then attenuate n.state.strength l.loss else 0

/-- The strongest of the constant side inputs of a node. -/
def sideFloor (g : Circuit) (id : NodeId) : Attempt UInt8 := do
  let links ← inLinks g id
  links.foldlM (fun s l => do return max s (← constantSide g l)) 0

/-- A bound of the strength that a node can put out. -/
def maxOutput (g : Circuit) (id : NodeId) : Attempt UInt8 := do
  let n ← node g id
  let floor ← sideFloor g id
  return match n.gate.type with
    | .constant => n.state.strength
    | .comparator => if n.gate.mode = .subtract then maxStrength - floor else maxStrength
    | _ => maxStrength

/-- Removes the dead links from a node. -/
def pruneLinksAt (id : NodeId) (g : Circuit) : Attempt Revision := do
  let limit ← maxOutput g id
  let dead ← filter (fun i => do return limit ≤ (← link g i).loss) (g.outputs id)
  let circuit ← removeLinks g dead
  return { circuit, changes := dead.length }

/-- Feeds a node from a new constant. -/
def feedConstant (g : Circuit) (id : NodeId) (strength : UInt8) : Attempt Circuit :=
  addLink (g.addNode (.constant strength))
    { source := g.nodeBound, target := id, channel := .main, loss := 0 }

/-- Replaces the sources of a node by one constant, or by none if they bring no power to its main
input. -/
def refeed (g : Circuit) (id : NodeId) (main : UInt8) : Attempt Circuit := do
  let bare ← removeLinks g (g.inputs id)
  if 0 < main then feedConstant bare id main else return bare

/-- The node is fed by a single link to its main input without loss. -/
def isSettled (g : Circuit) (id : NodeId) : Attempt Bool := do
  let links ← inLinks g id
  return match links with
    | [l] => l.channel == .main && l.loss == 0
    | _ => false

/-- Settles an output that has sources, all of them constant. -/
def settleOutput (id : NodeId) (g : Circuit) : Attempt Revision := do
  let n ← node g id
  let constant ← hasConstantInputs g id
  let power ← inputPower g id
  let settled ← isSettled g id
  if !n.isOutput || !constant || (g.inputs id).isEmpty then return .unchanged g
  let changed ← modifyNode g id fun n => { n with state := n.gate.settle n.state power }
  if settled then return .unchanged changed
  return .once (← refeed changed id power.main)

/-! ## Links -/

variable {g : Circuit} {id : NodeId}

theorem clampLosses_eq (g : Circuit) : clampLosses g = .ok (Optimize.clampLosses g) := by
  rw [clampLosses, mapM_link_linkIds, ok_bind]
  rfl

/-- The links that end at a node of a well-formed circuit are found. -/
theorem isRedundant_eq (h : g.WellFormed) {i : LinkId} {l : Link} (hl : g.link? i = some l) :
    isRedundant g i = .ok (Optimize.isRedundant g i) := by
  have hfilter : filter (fun j => do return outdoes j (← link g j) i l) (g.inputs l.target) =
      .ok ((g.inputs l.target).filter fun j => (g.link? j).any fun m => outdoes j m i l) := by
    refine filter_eq fun j hj => ?_
    obtain ⟨m, hm, -⟩ := h.mem_inputs_iff.mp hj
    rw [link_eq hm, ok_bind, hm]
    rfl
  rw [isRedundant, link_eq hl, ok_bind, hfilter, ok_bind, Optimize.isRedundant, hl]
  refine congrArg Except.ok ?_
  rw [Bool.eq_iff_iff]
  simp [List.filter_eq_nil_iff]

theorem redundantLinks_eq (h : g.WellFormed) (ids : List NodeId) :
    redundantLinks g ids =
      .ok (ids.flatMap fun id => (g.inputs id).filter (Optimize.isRedundant g)) := by
  induction ids with
  | nil => rfl
  | cons id ids ih =>
      have hfilter : filter (isRedundant g) (g.inputs id) =
          .ok ((g.inputs id).filter (Optimize.isRedundant g)) := by
        refine filter_eq fun i hi => ?_
        obtain ⟨l, hl, -⟩ := h.mem_inputs_iff.mp hi
        exact isRedundant_eq h hl
      rw [redundantLinks, hfilter, ok_bind, ih, ok_bind, List.flatMap_cons]
      rfl

/-- No superfluous link is listed twice, so that each is there when it is removed. -/
theorem dedupLinks_eq (h : g.WellFormed) : dedupLinks g = .ok (Optimize.dedupLinks g) := by
  have hremove : removeLinks g (Optimize.redundantLinks g) =
      .ok (g.removeLinks (Optimize.redundantLinks g)) := by
    refine removeLinks_eq h (nodup_redundantLinks h) fun i hi => ?_
    obtain ⟨l, -, -, hl, -⟩ := (isRedundant_iff h).mp ((mem_redundantLinks h).mp hi)
    exact ⟨l, hl⟩
  rw [dedupLinks, redundantLinks_eq h, ok_bind]
  change (removeLinks g (Optimize.redundantLinks g) >>= _) = _
  rw [hremove, ok_bind]
  rfl

/-! ## Constant inputs -/

/-- What is linked to a node is a node of the circuit. -/
theorem exists_source (h : g.WellFormed) {l : Link} (hl : l ∈ g.inLinks id) :
    ∃ n, g.node? l.source = some n := by
  obtain ⟨i, hi, -⟩ := h.mem_inLinks_iff.mp hl
  exact contains_iff.mp (h.contains_source hi)

theorem hasConstantInputs_eq (h : g.WellFormed) (id : NodeId) :
    hasConstantInputs g id = .ok (g.hasConstantInputs id) := by
  have hfilter : filter (fun l => isConstant g l.source) (g.inLinks id) =
      .ok ((g.inLinks id).filter fun l => (g.node? l.source).any fun n => n.gate.isConstant) := by
    refine filter_eq fun l hl => ?_
    obtain ⟨n, hn⟩ := exists_source h hl
    rw [isConstant, node_eq hn, ok_bind, hn]
    rfl
  rw [hasConstantInputs, inLinks_eq h, ok_bind, hfilter, ok_bind]
  refine congrArg Except.ok ?_
  rw [Circuit.hasConstantInputs, Bool.eq_iff_iff, beq_iff_eq, List.length_filter_eq_length_iff,
    List.all_eq_true]

/-- The power is that of all sources, as they all are there. -/
theorem inputPower_eq (h : g.WellFormed) (id : NodeId) :
    inputPower g id = .ok (g.inputPower id) := by
  rw [inputPower, inLinks_eq h, ok_bind]
  refine foldlM_eq (P := fun (links : List Link) _ => ∀ l ∈ links, ∃ n, g.node? l.source = some n)
    (fun l rest p hrest => ⟨?_, fun m hm => hrest m (List.mem_cons_of_mem _ hm)⟩)
    (fun l hl => exists_source h hl)
  obtain ⟨n, hn⟩ := hrest l List.mem_cons_self
  have hstrength : g.strength l.source = n.state.strength := by
    rw [strength, hn]
    rfl
  rw [node_eq hn, ok_bind, hstrength]
  rfl

/-! ## Folding -/

theorem removeInputs_eq (h : g.WellFormed) (id : NodeId) :
    removeLinks g (g.inputs id) = .ok (g.removeLinks (g.inputs id)) := by
  exact removeLinks_eq h (h.inputs_nodup id) fun i hi => h.exists_of_mem_inputs hi

theorem makeConstant_eq (h : g.WellFormed) (hid : g.contains id = true) (s : UInt8) :
    makeConstant g id s = .ok (Optimize.makeConstant g id s) := by
  have hremove := removeInputs_eq
    (h.modifyNode id fun n => { n with gate := .constant, state := .ofStrength s }) id
  rw [inputs_modifyNode] at hremove
  rw [makeConstant, modifyNode_eq hid, ok_bind, hremove]
  rfl

theorem foldNode_eq (h : g.WellFormed) (hid : g.contains id = true) :
    foldNode id g = .ok (Optimize.foldNode id g) := by
  obtain ⟨n, hn⟩ := contains_iff.mp hid
  rw [foldNode, node_eq hn, ok_bind, hasConstantInputs_eq h, ok_bind, inputPower_eq h, ok_bind,
    Optimize.foldNode, hn]
  dsimp only
  split
  · rfl
  · cases n.gate.fold n.state (g.inputPower id) with
    | none => rfl
    | some strength =>
        dsimp only
        rw [makeConstant_eq h hid, ok_bind]
        rfl

/-- The circuit is sound and knows the nodes. -/
structure Knows (ids : List NodeId) (g : Circuit) : Prop where
  sound : g.Sound
  contains : ∀ id ∈ ids, g.contains id = true

namespace Knows

theorem all (h : g.Sound) : Knows g.nodeIds g :=
  ⟨h, fun _ hid => mem_nodeIds.mp hid⟩

/-- A revision that does not remove any of the nodes. -/
theorem next {ids : List NodeId} {g' : Circuit} (h : Knows (id :: ids) g) (hsound : g'.Sound)
    (hkeep : ∀ j ∈ ids, g.contains j = true → g'.contains j = true) : Knows ids g' :=
  ⟨hsound, fun j hj => hkeep j hj (h.contains j (List.mem_cons_of_mem _ hj))⟩

theorem head {ids : List NodeId} (h : Knows (id :: ids) g) : g.contains id = true :=
  h.contains id List.mem_cons_self

end Knows

/-- Folding removes links only. -/
theorem contains_foldNode (id j : NodeId) (g : Circuit) :
    (Optimize.foldNode id g).circuit.contains j = g.contains j :=
  foldNode_keeps (P := fun g' => g'.contains j = g.contains j)
    (fun _ _ _ => (contains_removeLinks _ j).trans (g.contains_modifyNode id j _)) rfl

/-- The sweeps of the folding meet each node while it is there. -/
theorem foldConstants_eq (h : g.Sound) :
    untilStable (fun g => sweep foldNode g.nodeIds g) (g.nodeBound + 1) g =
      .ok (Optimize.foldConstants g) := by
  refine untilStable_eq (P := Sound) (fun g hg => ⟨?_, sound_foldSweep hg⟩) _ h
  refine sweep_eq (P := Knows) (fun id rest g hg => ⟨?_, ?_⟩) (.all hg)
  · exact foldNode_eq hg.sound.regular.wellFormed hg.head
  · refine hg.next (sound_foldNode hg.sound id) fun j _ hj => ?_
    rw [contains_foldNode, hj]

/-! ## Dead links -/

theorem sideFloor_eq (h : g.WellFormed) (id : NodeId) :
    sideFloor g id = .ok (Optimize.sideFloor g id) := by
  rw [sideFloor, inLinks_eq h, ok_bind]
  refine foldlM_eq (P := fun (links : List Link) _ => ∀ l ∈ links, ∃ n, g.node? l.source = some n)
    (fun l rest s hrest => ⟨?_, fun m hm => hrest m (List.mem_cons_of_mem _ hm)⟩)
    (fun l hl => exists_source h hl)
  obtain ⟨n, hn⟩ := hrest l List.mem_cons_self
  rw [constantSide, node_eq hn, ok_bind, Optimize.constantSide, hn]
  rfl

theorem maxOutput_eq (h : g.WellFormed) (hid : g.contains id = true) :
    maxOutput g id = .ok (Optimize.maxOutput g id) := by
  obtain ⟨n, hn⟩ := contains_iff.mp hid
  rw [maxOutput, node_eq hn, ok_bind, sideFloor_eq h, ok_bind, Optimize.maxOutput, hn]
  rfl

/-- All dead links of a node are listed before the first of them is removed. -/
theorem pruneLinksAt_eq (h : g.WellFormed) (hid : g.contains id = true) :
    pruneLinksAt id g = .ok (Optimize.pruneLinksAt id g) := by
  have hfilter : filter (fun i => do return Optimize.maxOutput g id ≤ (← link g i).loss)
      (g.outputs id) = .ok (deadLinks g id) := by
    refine filter_eq fun i hi => ?_
    obtain ⟨l, hl, -⟩ := h.mem_outputs_iff.mp hi
    rw [link_eq hl, ok_bind, hl]
    rfl
  have hremove : removeLinks g (deadLinks g id) = .ok (g.removeLinks (deadLinks g id)) := by
    refine removeLinks_eq h ((h.outputs_nodup id).filter _) fun i hi => ?_
    obtain ⟨l, hl, -⟩ := (mem_deadLinks h).mp hi
    exact ⟨l, hl⟩
  rw [pruneLinksAt, maxOutput_eq h hid, ok_bind, hfilter, ok_bind, hremove, ok_bind]
  rfl

theorem pruneDeadLinks_eq (h : g.Sound) :
    sweep pruneLinksAt g.nodeIds g = .ok (Optimize.pruneDeadLinks g) := by
  refine sweep_eq (P := Knows) (fun id rest g hg => ⟨?_, ?_⟩) (.all h)
  · exact pruneLinksAt_eq hg.sound.regular.wellFormed hg.head
  · exact hg.next (sound_pruneLinksAt hg.sound id) fun j _ hj =>
      (contains_removeLinks _ j).trans hj

/-! ## Settled outputs -/

/-- The new constant and the output that it feeds are both there when they are linked. -/
theorem refeed_eq (h : g.WellFormed) (hid : g.contains id = true) (main : UInt8) :
    refeed g id main = .ok (Optimize.refeed g id main) := by
  rw [refeed, removeInputs_eq h, ok_bind, Optimize.refeed]
  by_cases hmain : 0 < main
  case neg =>
    rw [if_neg hmain, if_neg hmain]
    rfl
  case pos =>
    rw [if_pos hmain, if_pos hmain]
    refine addLink_eq ?_ ?_
    · rw [contains_addNode]
      simp
    · rw [contains_addNode, contains_removeLinks, hid, Bool.or_true]

theorem isSettled_eq (h : g.WellFormed) (id : NodeId) :
    isSettled g id = .ok (Optimize.isSettled g id) := by
  rw [isSettled, inLinks_eq h, ok_bind]
  rfl

theorem settleOutput_eq (h : g.WellFormed) (hid : g.contains id = true) :
    settleOutput id g = .ok (Optimize.settleOutput id g) := by
  obtain ⟨n, hn⟩ := contains_iff.mp hid
  have hchanged : (settleNode g id).WellFormed := h.modifyNode id _
  have hid' : (settleNode g id).contains id = true := (g.contains_modifyNode id id _).trans hid
  rw [settleOutput, node_eq hn, ok_bind, hasConstantInputs_eq h, ok_bind, inputPower_eq h, ok_bind,
    isSettled_eq h, ok_bind, Optimize.settleOutput, hn]
  dsimp only
  split
  case isTrue => rfl
  case isFalse =>
    rw [modifyNode_eq hid, ok_bind]
    split
    case isTrue => rfl
    case isFalse =>
      change (refeed (settleNode g id) id _ >>= _) = _
      rw [refeed_eq hchanged hid', ok_bind]
      rfl

/-- Settling an output removes no node. -/
theorem contains_settleOutput {j : NodeId} (id : NodeId) (hj : g.contains j = true) :
    (Optimize.settleOutput id g).circuit.contains j = true := by
  refine settleOutput_keeps (P := fun g => g.contains j = true)
    (fun _ => (g.contains_modifyNode id j _).trans hj) (fun _ hsettled => ?_) hj
  refine refeed_keeps (P := fun g => g.contains j = true)
    ((contains_removeLinks _ j).trans hsettled) fun hbare _ => (contains_addLink _ j).trans ?_
  rw [contains_addNode, hbare, Bool.or_true]

theorem settleOutputs_eq (h : g.Sound) :
    sweep settleOutput g.nodeIds g = .ok (Optimize.settleOutputs g) := by
  refine sweep_eq (P := Knows) (fun id rest g hg => ⟨?_, ?_⟩) (.all h)
  · exact settleOutput_eq hg.sound.regular.wellFormed hg.head
  · exact hg.next (sound_settleOutput hg.sound id) fun j _ hj => contains_settleOutput id hj

end Redstone.Strict
