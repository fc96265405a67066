import Redstone.Proofs.Strict.Constants

/-!
# Strict sharing of constants

The pass that shares constants, with strict lookups and edits.  It moves links while it lists
them, adds constants and removes them.  A link that is still to be moved starts at the constant
that is looked at, a server is never removed, and links never get new targets, so that the
connected part of a target has been computed.
-/

namespace Redstone.Strict

open Circuit Optimize

/-! ## Definitions -/

/-- The connected parts of the circuit, where links from sharable constants do not connect. -/
def components (g : Circuit) : Attempt DisjointSets := do
  let links ← g.linkIds.mapM (link g)
  links.foldlM
    (fun s l => do
      let n ← node g l.source
      return if isSharable n then s else s.union l.source l.target)
    (DisjointSets.discrete g.nodeBound)

/-- The part of a node, computed for the nodes below the bound. -/
def partOf (parts : DisjointSets) (bound : Nat) (id : NodeId) : Attempt Nat :=
  if id < bound then .ok (parts.root id) else .error (.node id)

/-- Lets a link start at another constant. -/
def move (s : Share) (i : LinkId) (server : NodeId) : Attempt Share := do
  let circuit ← setSource s.circuit i server
  return { s with circuit, moved := true }

/-- Finds the constant for one link of constant `id`. -/
def shareLink (part : NodeId → Attempt Nat) (id : NodeId) (strength : UInt8) (s : Share)
    (i : LinkId) : Attempt Share := do
  let l ← link s.circuit i
  let demand : Demand := (← part l.target, strength)
  match s.servers.lookup demand with
  | some server => if server = id then return s else move s i server
  | none =>
      if s.serves then
        let server := s.circuit.nodeBound
        move
          { s with
            circuit := s.circuit.addNode (.constant strength)
            servers := (demand, server) :: s.servers }
          i server
      else return { s with servers := (demand, id) :: s.servers, serves := true }

/-- Finds the constants for all links of constant `id`. -/
def shareConstant (part : NodeId → Attempt Nat) (id : NodeId) (strength : UInt8) (s : Sharing) :
    Attempt (Sharing × Nat) := do
  let share ← (s.circuit.outputs id).foldlM (shareLink part id strength)
    { s with serves := false, moved := false }
  if share.moved && (share.circuit.outputs id).isEmpty then
    return ({ circuit := ← removeNode share.circuit id, servers := share.servers }, 1)
  else return (share.toSharing, 0)

/-- Shares the constant `id`, if it is one. -/
def shareNode (part : NodeId → Attempt Nat) (acc : Sharing × Nat) (id : NodeId) :
    Attempt (Sharing × Nat) := do
  let n ← node acc.1.circuit id
  if isSharable n then
    let (s, removed) ← shareConstant part id n.state.strength acc.1
    return (s, acc.2 + removed)
  else return acc

/-- Merges constants of equal strength within each connected part. -/
def shareConstants (g : Circuit) : Attempt Revision := do
  let parts ← components g
  let (s, removed) ← g.nodeIds.foldlM (shareNode (partOf parts g.nodeBound))
    ({ circuit := g, servers := [] }, 0)
  return { circuit := s.circuit, changes := removed }

/-! ## The parts are known -/

variable {g : Circuit} {id : NodeId} {i : LinkId} {n : Node} {later : List NodeId}
  {rest : List LinkId}

/-- Every source of a link is looked up, and is there. -/
theorem components_eq (h : g.WellFormed) : components g = .ok (Optimize.components g) := by
  rw [components, mapM_link_linkIds, ok_bind]
  refine foldlM_eq (P := fun (links : List Link) _ => ∀ l ∈ links, ∃ n, g.node? l.source = some n)
    (fun l rest s hrest => ⟨?_, fun m hm => hrest m (List.mem_cons_of_mem _ hm)⟩) ?_
  · obtain ⟨n, hn⟩ := hrest l List.mem_cons_self
    rw [node_eq hn, ok_bind, hn, Option.any_some]
    rfl
  · intro l hl
    obtain ⟨i, -, hi⟩ := List.mem_filterMap.mp hl
    exact contains_iff.mp (h.contains_source hi)

/-- All links end at nodes below the bound. -/
def Aims (bound : Nat) (g : Circuit) : Prop :=
  ∀ i l, g.link? i = some l → l.target < bound

namespace Aims

variable {bound : Nat}

theorem start (h : g.WellFormed) : Aims g.nodeBound g :=
  fun _ _ hl => lt_nodeBound_of_contains (h.contains_target hl)

theorem setSource (h : Aims bound g) {source : NodeId} (hs : g.contains source = true)
    (i : LinkId) : Aims bound (g.setSource i source) := by
  intro j l hl
  rw [link?_setSource hs] at hl
  split at hl
  · obtain ⟨m, hm, rfl⟩ := Option.map_eq_some_iff.mp hl
    exact h j m hm
  · exact h j l hl

theorem removeNode (h : Aims bound g) (hwf : g.WellFormed) (id : NodeId) :
    Aims bound (g.removeNode id) :=
  fun i l hl => h i l (hwf.link?_removeNode_eq_some_iff.mp hl).1

theorem partOf_eq (h : Aims bound g) (parts : DisjointSets) {l : Link} (hl : g.link? i = some l) :
    partOf parts bound l.target = .ok (parts.root l.target) :=
  if_pos (h i l hl)

end Aims

/-! ## One link after the other -/

theorem move_eq {s : Share} (h : s.circuit.WellFormed) {l : Link} (hl : s.circuit.link? i = some l)
    {server : NodeId} (hserver : s.circuit.contains server = true) :
    move s i server = .ok (s.move i server) := by
  rw [move, setSource_eq h hl hserver, ok_bind]
  rfl

variable {s : Share} {bound : Nat} (parts : DisjointSets)

/-- The link is found because it is still to come, and its server because no server is removed. -/
theorem shareLink_eq (h : Share.Sound g later id n (i :: rest) s) (haims : Aims bound s.circuit) :
    shareLink (partOf parts bound) id n.state.strength s i =
        .ok (Optimize.shareLink parts.root id n.state.strength s i) ∧
      Aims bound (Optimize.shareLink parts.root id n.state.strength s i).circuit := by
  have hwf := h.refines.regular.wellFormed
  obtain ⟨l, hl, -⟩ := h.pending i List.mem_cons_self
  rw [shareLink, link_eq hl, ok_bind, haims.partOf_eq parts hl, ok_bind, Optimize.shareLink, hl]
  dsimp only
  cases hlookup : s.servers.lookup (parts.root l.target, n.state.strength) with
  | some server =>
      obtain ⟨m, hm, -⟩ := h.served (mem_of_lookup_eq_some hlookup)
      dsimp only
      split
      · exact ⟨rfl, haims⟩
      · exact ⟨move_eq hwf hl (contains_of_node? hm), haims.setSource (contains_of_node? hm) i⟩
  | none =>
      dsimp only
      split
      · have hnew : (s.circuit.addNode (.constant n.state.strength)).contains
            s.circuit.nodeBound = true := by
          rw [contains_addNode]
          simp
        refine ⟨move_eq (l := l) ?_ ?_ ?_,
          Aims.setSource (g := s.circuit.addNode (.constant n.state.strength)) haims hnew i⟩
        · exact hwf.addNode (.constant n.state.strength)
        · exact hl
        · exact hnew
      · exact ⟨rfl, haims⟩

theorem foldlM_shareLink_eq (h : Share.Sound g later id n rest s) (haims : Aims bound s.circuit)
    (hnodup : rest.Nodup) (hlater : id ∉ later) (hconst : n.gate.isConstant = true) :
    rest.foldlM (shareLink (partOf parts bound) id n.state.strength) s =
        .ok (rest.foldl (Optimize.shareLink parts.root id n.state.strength) s) ∧
      Aims bound (rest.foldl (Optimize.shareLink parts.root id n.state.strength) s).circuit := by
  induction rest generalizing s with
  | nil => exact ⟨rfl, haims⟩
  | cons i rest ih =>
      obtain ⟨heq, hnext⟩ := shareLink_eq parts h haims
      rw [List.foldlM_cons, heq, ok_bind, List.foldl_cons]
      exact ih (h.shareLink hnodup hlater hconst parts.root) hnext (List.nodup_cons.mp hnodup).2

/-! ## One constant after the other -/

/-- A node is there until its own turn. -/
theorem contains_shareNode (part : NodeId → Nat) (acc : Sharing × Nat) {j : NodeId} (hne : id ≠ j)
    (hj : acc.1.circuit.contains j = true) :
    (Optimize.shareNode part acc id).1.circuit.contains j = true := by
  refine shareNode_keeps (P := fun g => g.contains j = true)
    (fun hg => (contains_setSource _ _ j).trans hg) (fun hg _ _ => ?_) (fun hg _ _ => ?_) hj
  · rw [contains_addNode, hg, Bool.or_true]
  · rw [contains_removeNode, hg]
    simpa using hne

/-- The sharing so far is sound, all nodes that are still to come are known, and links end where
they did. -/
structure InStep (g : Circuit) (later : List NodeId) (acc : Sharing × Nat) : Prop where
  sound : Sharing.Sound g later acc.1
  nodup : later.Nodup
  contains : ∀ id ∈ later, acc.1.circuit.contains id = true
  aims : Aims g.nodeBound acc.1.circuit

theorem shareConstant_eq {acc : Sharing × Nat} (h : InStep g (id :: later) acc)
    (hn : acc.1.circuit.node? id = some n) (hconst : n.gate.isConstant = true)
    (parts : DisjointSets) :
    shareConstant (partOf parts g.nodeBound) id n.state.strength acc.1 =
        .ok (Optimize.shareConstant parts.root id n.state.strength acc.1) ∧
      Aims g.nodeBound
        (Optimize.shareConstant parts.root id n.state.strength acc.1).1.circuit := by
  have hlater := (List.nodup_cons.mp h.nodup).1
  have hnodup := h.sound.refines.regular.wellFormed.outputs_nodup id
  have hstart := h.sound.share hn
  have hshare := hstart.foldl_shareLink hnodup hlater hconst parts.root
  obtain ⟨heq, haims⟩ := foldlM_shareLink_eq parts hstart h.aims hnodup hlater hconst
  have hwf := hshare.refines.regular.wellFormed
  rw [shareConstant, heq, ok_bind, Optimize.shareConstant]
  split
  · rw [removeNode_eq hwf (contains_of_node? hshare.node), ok_bind]
    exact ⟨rfl, haims.removeNode hwf id⟩
  · exact ⟨rfl, haims⟩

/-- The constant is still there, since a constant is removed in its own turn only. -/
theorem shareNode_eq {acc : Sharing × Nat} (h : InStep g (id :: later) acc)
    (parts : DisjointSets) :
    shareNode (partOf parts g.nodeBound) acc id = .ok (Optimize.shareNode parts.root acc id) ∧
      InStep g later (Optimize.shareNode parts.root acc id) := by
  obtain ⟨hlater, hnodup⟩ := List.nodup_cons.mp h.nodup
  obtain ⟨n, hn⟩ := contains_iff.mp (h.contains id List.mem_cons_self)
  -- the constants that are still to come are not removed meanwhile
  have hcontains (j : NodeId) (hj : j ∈ later) :
      (Optimize.shareNode parts.root acc id).1.circuit.contains j = true :=
    contains_shareNode parts.root acc (fun e => hlater (e ▸ hj))
      (h.contains j (List.mem_cons_of_mem _ hj))
  have hnext (haims : Aims g.nodeBound (Optimize.shareNode parts.root acc id).1.circuit) :
      InStep g later (Optimize.shareNode parts.root acc id) :=
    ⟨h.sound.shareNode parts.root hlater, hnodup, hcontains, haims⟩
  have hmodel : Optimize.shareNode parts.root acc id =
      if isSharable n then
        ((Optimize.shareConstant parts.root id n.state.strength acc.1).1,
          acc.2 + (Optimize.shareConstant parts.root id n.state.strength acc.1).2)
      else acc := by
    rw [Optimize.shareNode, hn]
  rw [shareNode, node_eq hn, ok_bind]
  cases hsharable : isSharable n with
  | false =>
      rw [hsharable] at hmodel
      refine ⟨by rw [hmodel]; rfl, hnext ?_⟩
      rw [hmodel]
      exact h.aims
  | true =>
      rw [hsharable, if_pos rfl] at hmodel
      have hconst : n.gate.isConstant = true := by
        rw [isSharable, Bool.and_eq_true] at hsharable
        exact hsharable.1
      obtain ⟨heq, haims⟩ := shareConstant_eq h hn hconst parts
      refine ⟨?_, hnext ?_⟩
      · rw [if_pos rfl, heq, ok_bind, hmodel]
        rfl
      · rw [hmodel]
        exact haims

theorem shareConstants_eq (h : g.Regular) :
    shareConstants g = .ok (Optimize.shareConstants g) := by
  have hfold : g.nodeIds.foldlM (shareNode (partOf (Optimize.components g) g.nodeBound))
      ({ circuit := g, servers := [] }, 0) =
      .ok (g.nodeIds.foldl (Optimize.shareNode (Optimize.components g).root)
        ({ circuit := g, servers := [] }, 0)) := by
    refine foldlM_eq (P := InStep g) (fun id later acc hacc => shareNode_eq hacc _)
      ⟨.start h, g.nodeIds_nodup, fun id hid => mem_nodeIds.mp hid, .start h.wellFormed⟩
  rw [shareConstants, components_eq h.wellFormed, ok_bind, hfold, ok_bind]
  rfl

end Redstone.Strict
