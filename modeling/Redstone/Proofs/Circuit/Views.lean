import Redstone.Circuit.Edit
import Mathlib.Tactic.ByContra
import Mathlib.Data.List.Nodup

/-!
# What an edit does to the views

The view of a circuit consists of `node?`, `link?`, `inputs` and `outputs`.  For each
operation this module says what it does to every part of the view; after that, no proof
has to open an operation.  The statements hold for every circuit, well-formed or not.
-/

namespace Redstone.Circuit

variable (g : Circuit)

theorem contains_iff {g : Circuit} {id : NodeId} :
    g.contains id = true ↔ ∃ n, g.node? id = some n := by
  unfold contains node?
  cases g.slot? id <;> simp

theorem contains_eq_false_iff {g : Circuit} {id : NodeId} :
    g.contains id = false ↔ g.node? id = none := by
  unfold contains node?
  cases g.slot? id <;> simp

theorem contains_of_node? {g : Circuit} {id : NodeId} {n : Node} (h : g.node? id = some n) :
    g.contains id = true :=
  contains_iff.mpr ⟨n, h⟩

theorem contains_of_mem_inputs {g : Circuit} {id : NodeId} {i : LinkId} (h : i ∈ g.inputs id) :
    g.contains id = true := by
  unfold inputs at h
  unfold contains
  cases hs : g.slot? id with
  | none => simp [hs] at h
  | some s => rfl

theorem contains_of_mem_outputs {g : Circuit} {id : NodeId} {i : LinkId}
    (h : i ∈ g.outputs id) : g.contains id = true := by
  unfold outputs at h
  unfold contains
  cases hs : g.slot? id with
  | none => simp [hs] at h
  | some s => rfl

theorem lt_nodeBound_of_contains {g : Circuit} {id : NodeId} (h : g.contains id = true) :
    id < g.nodeBound := by
  unfold contains slot? at h
  by_contra hge
  have hnone : g.slots[id]? = none := Array.getElem?_eq_none (Nat.le_of_not_lt hge)
  simp [hnone] at h

theorem lt_nodeBound_of_node? {g : Circuit} {id : NodeId} {n : Node} (h : g.node? id = some n) :
    id < g.nodeBound :=
  lt_nodeBound_of_contains (contains_of_node? h)

/-- The next name is none of those in use. -/
theorem ne_nodeBound_of_node? {g : Circuit} {id : NodeId} {n : Node} (h : g.node? id = some n) :
    id ≠ g.nodeBound :=
  Nat.ne_of_lt (lt_nodeBound_of_node? h)

theorem lt_linkBound_of_link? {g : Circuit} {i : LinkId} {l : Link} (h : g.link? i = some l) :
    i < g.linkBound := by
  unfold link? at h
  by_contra hge
  have hnone : g.links[i]? = none := Array.getElem?_eq_none (Nat.le_of_not_lt hge)
  simp [hnone] at h

theorem mem_nodeIds {g : Circuit} {id : NodeId} : id ∈ g.nodeIds ↔ g.contains id = true := by
  unfold nodeIds
  rw [List.mem_filter, List.mem_range]
  constructor
  · rintro ⟨-, h⟩
    exact h
  · intro h
    exact ⟨lt_nodeBound_of_contains h, h⟩

theorem mem_linkIds {g : Circuit} {i : LinkId} :
    i ∈ g.linkIds ↔ ∃ l, g.link? i = some l := by
  unfold linkIds
  rw [List.mem_filter, List.mem_range, Option.isSome_iff_exists]
  constructor
  · rintro ⟨-, h⟩
    exact h
  · rintro ⟨l, hl⟩
    exact ⟨lt_linkBound_of_link? hl, l, hl⟩

/-- Nodes are listed in the order of their names. -/
theorem pairwise_nodeIds : g.nodeIds.Pairwise (· < ·) :=
  List.pairwise_lt_range.filter _

theorem nodeIds_nodup : g.nodeIds.Nodup :=
  List.nodup_range.filter _

theorem length_nodeIds_le : g.nodeIds.length ≤ g.nodeBound :=
  Nat.le_trans (List.length_filter_le _ _) (Nat.le_of_eq List.length_range)

theorem mem_nodes {g : Circuit} {id : NodeId} {n : Node} :
    (id, n) ∈ g.nodes ↔ g.node? id = some n := by
  unfold nodes
  rw [List.mem_filterMap]
  constructor
  · rintro ⟨j, -, hj⟩
    cases hn : g.node? j with
    | none => simp [hn] at hj
    | some m =>
        simp only [hn, Option.map_some, Option.some.injEq, Prod.mk.injEq] at hj
        obtain ⟨rfl, rfl⟩ := hj
        exact hn
  · intro h
    exact ⟨id, mem_nodeIds.mpr (contains_of_node? h), by simp [h]⟩

/-- The nodes are found by looking at all names that have been given. -/
theorem map_snd_nodes :
    g.nodes.map Prod.snd = (List.range g.nodeBound).filterMap g.node? := by
  have hnone {id : NodeId} (h : (g.slot? id).isSome = false) : g.node? id = none := by
    cases hn : g.node? id with
    | none => rfl
    | some n =>
        have hc : (g.slot? id).isSome = true := contains_of_node? hn
        rw [h] at hc
        cases hc
  rw [nodes, List.map_filterMap, nodeIds, List.filterMap_filter]
  refine List.filterMap_congr fun id _ => ?_
  split
  · cases g.node? id <;> rfl
  case isFalse h => exact (hnone (Bool.eq_false_iff.mpr h)).symm

/-! ## Changing slots and nodes -/

@[simp] theorem nodeBound_modifySlot (id : NodeId) (f : Slot → Slot) :
    (g.modifySlot id f).nodeBound = g.nodeBound := by
  simp [modifySlot, nodeBound]

/-- A change of the lists of a slot does not touch its node. -/
theorem node?_modifySlot {f : Slot → Slot} (hf : ∀ s, (f s).node = s.node) (id j : NodeId) :
    (g.modifySlot id f).node? j = g.node? j := by
  unfold node?
  rw [slot?_modifySlot]
  split
  · cases g.slot? j <;> simp [hf]
  · rfl

theorem inputs_modifySlot {f : Slot → Slot} (hf : ∀ s, (f s).inputs = s.inputs)
    (id j : NodeId) : (g.modifySlot id f).inputs j = g.inputs j := by
  unfold inputs
  rw [slot?_modifySlot]
  split
  · cases g.slot? j <;> simp [hf]
  · rfl

theorem outputs_modifySlot {f : Slot → Slot} (hf : ∀ s, (f s).outputs = s.outputs)
    (id j : NodeId) : (g.modifySlot id f).outputs j = g.outputs j := by
  unfold outputs
  rw [slot?_modifySlot]
  split
  · cases g.slot? j <;> simp [hf]
  · rfl

@[simp] theorem inputs_attachOutput (i : LinkId) (id j : NodeId) :
    (g.modifySlot id (attachOutput i)).inputs j = g.inputs j :=
  g.inputs_modifySlot (f := attachOutput i) (fun _ => rfl) id j

@[simp] theorem inputs_detachOutput (i : LinkId) (id j : NodeId) :
    (g.modifySlot id (detachOutput i)).inputs j = g.inputs j :=
  g.inputs_modifySlot (f := detachOutput i) (fun _ => rfl) id j

@[simp] theorem outputs_attachInput (i : LinkId) (id j : NodeId) :
    (g.modifySlot id (attachInput i)).outputs j = g.outputs j :=
  g.outputs_modifySlot (f := attachInput i) (fun _ => rfl) id j

@[simp] theorem outputs_detachInput (i : LinkId) (id j : NodeId) :
    (g.modifySlot id (detachInput i)).outputs j = g.outputs j :=
  g.outputs_modifySlot (f := detachInput i) (fun _ => rfl) id j

@[simp] theorem link?_modifyNode (id : NodeId) (f : Node → Node) (i : LinkId) :
    (g.modifyNode id f).link? i = g.link? i := rfl

@[simp] theorem inputs_modifyNode (id : NodeId) (f : Node → Node) (j : NodeId) :
    (g.modifyNode id f).inputs j = g.inputs j := by
  unfold modifyNode
  exact g.inputs_modifySlot (by simp) id j

@[simp] theorem outputs_modifyNode (id : NodeId) (f : Node → Node) (j : NodeId) :
    (g.modifyNode id f).outputs j = g.outputs j := by
  unfold modifyNode
  exact g.outputs_modifySlot (by simp) id j

@[simp] theorem nodeBound_modifyNode (id : NodeId) (f : Node → Node) :
    (g.modifyNode id f).nodeBound = g.nodeBound :=
  g.nodeBound_modifySlot id _

@[simp] theorem contains_modifySlot (id j : NodeId) (f : Slot → Slot) :
    (g.modifySlot id f).contains j = g.contains j := by
  unfold contains
  rw [slot?_modifySlot]
  split <;> simp

@[simp] theorem contains_modifyNode (id j : NodeId) (f : Node → Node) :
    (g.modifyNode id f).contains j = g.contains j :=
  g.contains_modifySlot id j _

/-! ## Adding a node -/

@[simp] theorem nodeBound_addNode (n : Node) : (g.addNode n).nodeBound = g.nodeBound + 1 := by
  simp [addNode, nodeBound]

/-- The next name has not been given yet. -/
theorem slot?_nodeBound : g.slot? g.nodeBound = none := by
  simp [slot?, nodeBound]

/-- The new node has the next name, and all others are as before. -/
@[simp] theorem node?_addNode (n : Node) (j : NodeId) :
    (g.addNode n).node? j = if j = g.nodeBound then some n else g.node? j := by
  unfold node?
  rw [slot?_addNode]
  split <;> rfl

theorem node?_addNode_of_node? {g : Circuit} {j : NodeId} {m : Node} (h : g.node? j = some m)
    (n : Node) : (g.addNode n).node? j = some m := by
  rw [node?_addNode, if_neg (ne_nodeBound_of_node? h), h]

@[simp] theorem inputs_addNode (n : Node) (j : NodeId) :
    (g.addNode n).inputs j = g.inputs j := by
  unfold inputs
  rw [slot?_addNode]
  split
  case isTrue h => simp [h, slot?_nodeBound]
  case isFalse => rfl

@[simp] theorem outputs_addNode (n : Node) (j : NodeId) :
    (g.addNode n).outputs j = g.outputs j := by
  unfold outputs
  rw [slot?_addNode]
  split
  case isTrue h => simp [h, slot?_nodeBound]
  case isFalse => rfl

theorem contains_addNode (n : Node) (j : NodeId) :
    (g.addNode n).contains j = (decide (j = g.nodeBound) || g.contains j) := by
  unfold contains
  rw [slot?_addNode]
  split <;> simp_all

/-! ## Adding nodes -/

theorem addNodes_cons (n : Node) (rest : List Node) :
    g.addNodes (n :: rest) = (g.addNode n).addNodes rest := rfl

/-- The names of the new nodes follow on each other. -/
theorem node?_addNodes (nodes : List Node) (j : NodeId) :
    (g.addNodes nodes).node? j =
      if j < g.nodeBound then g.node? j else nodes[j - g.nodeBound]? := by
  induction nodes generalizing g with
  | nil =>
      split
      · rfl
      case isFalse h =>
        change g.node? j = none
        rw [← contains_eq_false_iff, Bool.eq_false_iff]
        exact fun hc => h (lt_nodeBound_of_contains hc)
  | cons n rest ih =>
      rw [addNodes_cons, ih, nodeBound_addNode, node?_addNode]
      by_cases hlt : j < g.nodeBound
      · rw [if_pos (Nat.lt_succ_of_lt hlt), if_neg (Nat.ne_of_lt hlt), if_pos hlt]
      by_cases heq : j = g.nodeBound
      · rw [if_pos (Nat.lt_succ_of_le (Nat.le_of_eq heq)), if_pos heq, if_neg hlt, heq, Nat.sub_self]
        rfl
      · obtain ⟨k, rfl⟩ := Nat.exists_eq_add_of_le
          (Nat.lt_of_le_of_ne (Nat.le_of_not_lt hlt) (Ne.symm heq))
        have hk : g.nodeBound.succ + k - g.nodeBound = k + 1 := by omega
        rw [if_neg (Nat.not_lt.mpr (Nat.le_add_right _ k)), if_neg hlt, Nat.add_sub_cancel_left, hk]
        rfl

theorem node?_addNodes_empty (nodes : List Node) (j : NodeId) :
    (empty.addNodes nodes).node? j = nodes[j]? :=
  empty.node?_addNodes nodes j

theorem nodeBound_addNodes (nodes : List Node) :
    (g.addNodes nodes).nodeBound = g.nodeBound + nodes.length := by
  induction nodes generalizing g with
  | nil => rfl
  | cons n rest ih =>
      rw [addNodes_cons, ih, nodeBound_addNode, List.length_cons]
      omega

/-- Nodes that are added to the empty circuit are listed as they have been added. -/
theorem nodes_addNodes_empty (nodes : List Node) :
    (empty.addNodes nodes).nodes.map Prod.snd = nodes := by
  have hrange (nodes : List Node) :
      (List.range nodes.length).filterMap (fun id => nodes[id]?) = nodes := by
    induction nodes with
    | nil => rfl
    | cons n rest ih =>
        rw [List.length_cons, List.range_succ_eq_map, List.filterMap_cons, List.getElem?_cons_zero]
        dsimp only
        rw [List.filterMap_map]
        exact congrArg (n :: ·) ih
  have hbound : (empty.addNodes nodes).nodeBound = nodes.length :=
    (nodeBound_addNodes empty nodes).trans (Nat.zero_add _)
  rw [map_snd_nodes, hbound, funext (node?_addNodes_empty nodes), hrange]

theorem link?_addNodes (nodes : List Node) (i : LinkId) :
    (g.addNodes nodes).link? i = g.link? i := by
  induction nodes generalizing g with
  | nil => rfl
  | cons n rest ih => exact ih _

theorem nodeCount_addNodes (nodes : List Node) :
    (g.addNodes nodes).nodeCount = g.nodeCount + nodes.length := by
  induction nodes generalizing g with
  | nil => rfl
  | cons n rest ih =>
      rw [addNodes_cons, ih]
      change g.nodeCount + 1 + rest.length = g.nodeCount + (rest.length + 1)
      omega

/-! ## Adding a link -/

section AddLink

variable {g} {l : Link}

theorem addLink_of_contains (hs : g.contains l.source = true) (ht : g.contains l.target = true) :
    g.addLink l =
      { (g.modifySlot l.source (attachOutput g.linkBound)).modifySlot l.target
          (attachInput g.linkBound) with
        links := g.links.push (some l)
        linkCount := g.linkCount + 1 } := by
  simp [addLink, hs, ht, modifySlot]

/-- The new link has the next name, and all others are as before. -/
theorem link?_addLink (hs : g.contains l.source = true) (ht : g.contains l.target = true)
    (i : LinkId) :
    (g.addLink l).link? i = if i = g.linkBound then some l else g.link? i := by
  rw [addLink_of_contains hs ht]
  change ((g.links.push (some l))[i]?).join = _
  by_cases h : i = g.linkBound
  · subst h
    simp [linkBound]
  · have hsize : i ≠ g.links.size := h
    simp [Array.getElem?_push, hsize, h, link?]

/-- A link without its ends is not added. -/
theorem addLink_of_not_contains
    (hends : ¬(g.contains l.source = true ∧ g.contains l.target = true)) : g.addLink l = g := by
  rw [addLink, if_neg (by simpa using hends)]

/-- A link of the circuit with one more link is the new one or an old one. -/
theorem eq_or_link?_of_addLink {i : LinkId} {m : Link} (h : (g.addLink l).link? i = some m) :
    m = l ∨ g.link? i = some m := by
  by_cases hends : g.contains l.source = true ∧ g.contains l.target = true
  case neg =>
    rw [addLink_of_not_contains hends] at h
    exact .inr h
  case pos =>
    rw [link?_addLink hends.1 hends.2] at h
    split at h
    · exact .inl (Option.some.inj h).symm
    · exact .inr h

theorem node?_addLink (l : Link) (j : NodeId) : (g.addLink l).node? j = g.node? j := by
  unfold addLink
  split
  · change ((g.modifySlot l.source (attachOutput g.linkBound)).modifySlot l.target
      (attachInput g.linkBound)).node? j = _
    rw [node?_modifySlot, node?_modifySlot]
    · exact fun _ => rfl
    · exact fun _ => rfl
  · rfl

theorem nodeBound_addLink (l : Link) : (g.addLink l).nodeBound = g.nodeBound := by
  unfold addLink
  split
  · simp [nodeBound, modifySlot]
  · rfl

theorem contains_addLink (l : Link) (j : NodeId) :
    (g.addLink l).contains j = g.contains j := by
  rw [Bool.eq_iff_iff, contains_iff, contains_iff, node?_addLink]

theorem inputs_attachInput (i : LinkId) (id j : NodeId) :
    (g.modifySlot id (attachInput i)).inputs j =
      if id = j ∧ g.contains j = true then g.inputs j ++ [i] else g.inputs j := by
  unfold inputs contains
  rw [slot?_modifySlot]
  by_cases h : id = j
  · cases g.slot? j <;> simp [h, attachInput]
  · simp [h]

theorem outputs_attachOutput (i : LinkId) (id j : NodeId) :
    (g.modifySlot id (attachOutput i)).outputs j =
      if id = j ∧ g.contains j = true then g.outputs j ++ [i] else g.outputs j := by
  unfold outputs contains
  rw [slot?_modifySlot]
  by_cases h : id = j
  · cases g.slot? j <;> simp [h, attachOutput]
  · simp [h]

/-- The new link comes last among the inputs of its target. -/
theorem inputs_addLink (hs : g.contains l.source = true) (ht : g.contains l.target = true)
    (j : NodeId) :
    (g.addLink l).inputs j =
      if l.target = j then g.inputs j ++ [g.linkBound] else g.inputs j := by
  rw [addLink_of_contains hs ht]
  change ((g.modifySlot l.source (attachOutput g.linkBound)).modifySlot l.target
    (attachInput g.linkBound)).inputs j = _
  rw [inputs_attachInput, contains_modifySlot, inputs_attachOutput]
  by_cases h : l.target = j
  · simp [← h, ht]
  · simp [h]

theorem outputs_addLink (hs : g.contains l.source = true) (ht : g.contains l.target = true)
    (j : NodeId) :
    (g.addLink l).outputs j =
      if l.source = j then g.outputs j ++ [g.linkBound] else g.outputs j := by
  rw [addLink_of_contains hs ht]
  change ((g.modifySlot l.source (attachOutput g.linkBound)).modifySlot l.target
    (attachInput g.linkBound)).outputs j = _
  rw [outputs_attachInput, outputs_attachOutput]
  by_cases h : l.source = j
  · simp [← h, hs]
  · simp [h]

end AddLink

/-! ## Removing links -/

section RemoveLink

variable {g} {i : LinkId} {l : Link}

theorem removeLink_of_none (h : g.link? i = none) : g.removeLink i = g := by
  simp [removeLink, h]

theorem removeLink_of_some (h : g.link? i = some l) :
    g.removeLink i =
      { (g.modifySlot l.source (detachOutput i)).modifySlot l.target (detachInput i) with
        links := g.links.setIfInBounds i none
        linkCount := g.linkCount - 1 } := by
  simp [removeLink, h, modifySlot]

/-- Removing a link takes it away under its name, whether it is there or not. -/
theorem link?_removeLink (i j : LinkId) :
    (g.removeLink i).link? j = if i = j then none else g.link? j := by
  cases h : g.link? i with
  | none =>
      rw [removeLink_of_none h]
      split
      case isTrue hij => rw [← hij, h]
      case isFalse => rfl
  | some l =>
      rw [removeLink_of_some h]
      change ((g.links.setIfInBounds i none)[j]?).join = _
      rw [Array.getElem?_setIfInBounds]
      split
      · split <;> rfl
      · rfl

theorem node?_removeLink (i : LinkId) (j : NodeId) :
    (g.removeLink i).node? j = g.node? j := by
  cases h : g.link? i with
  | none => rw [removeLink_of_none h]
  | some l =>
      rw [removeLink_of_some h]
      change ((g.modifySlot l.source (detachOutput i)).modifySlot l.target
        (detachInput i)).node? j = _
      rw [node?_modifySlot, node?_modifySlot]
      · exact fun _ => rfl
      · exact fun _ => rfl

theorem nodeBound_removeLink (i : LinkId) : (g.removeLink i).nodeBound = g.nodeBound := by
  cases h : g.link? i with
  | none => rw [removeLink_of_none h]
  | some l =>
      rw [removeLink_of_some h]
      simp [nodeBound, modifySlot]

theorem contains_removeLink (i : LinkId) (j : NodeId) :
    (g.removeLink i).contains j = g.contains j := by
  rw [Bool.eq_iff_iff, contains_iff, contains_iff, node?_removeLink]

theorem inputs_detachInput (i : LinkId) (id j : NodeId) :
    (g.modifySlot id (detachInput i)).inputs j =
      if id = j then (g.inputs j).erase i else g.inputs j := by
  unfold inputs
  rw [slot?_modifySlot]
  by_cases h : id = j
  · cases g.slot? j <;> simp [h, detachInput]
  · simp [h]

theorem outputs_detachOutput (i : LinkId) (id j : NodeId) :
    (g.modifySlot id (detachOutput i)).outputs j =
      if id = j then (g.outputs j).erase i else g.outputs j := by
  unfold outputs
  rw [slot?_modifySlot]
  by_cases h : id = j
  · cases g.slot? j <;> simp [h, detachOutput]
  · simp [h]

/-- The other links of the target keep their order. -/
theorem inputs_removeLink_of_some (h : g.link? i = some l) (j : NodeId) :
    (g.removeLink i).inputs j =
      if l.target = j then (g.inputs j).erase i else g.inputs j := by
  rw [removeLink_of_some h]
  change ((g.modifySlot l.source (detachOutput i)).modifySlot l.target
    (detachInput i)).inputs j = _
  rw [inputs_detachInput, inputs_detachOutput]

theorem outputs_removeLink_of_some (h : g.link? i = some l) (j : NodeId) :
    (g.removeLink i).outputs j =
      if l.source = j then (g.outputs j).erase i else g.outputs j := by
  rw [removeLink_of_some h]
  change ((g.modifySlot l.source (detachOutput i)).modifySlot l.target
    (detachInput i)).outputs j = _
  rw [outputs_detachInput, outputs_detachOutput]

@[simp] theorem removeLinks_nil : g.removeLinks [] = g := rfl

theorem removeLinks_cons (i : LinkId) (ids : List LinkId) :
    g.removeLinks (i :: ids) = (g.removeLink i).removeLinks ids := rfl

theorem link?_removeLinks (ids : List LinkId) (j : LinkId) :
    (g.removeLinks ids).link? j = if j ∈ ids then none else g.link? j := by
  induction ids generalizing g with
  | nil => simp
  | cons i ids ih =>
      rw [removeLinks_cons, ih, link?_removeLink]
      by_cases hj : j ∈ ids
      · simp [hj]
      · by_cases hij : i = j
        · simp [hij]
        · have hji : j ≠ i := fun h => hij h.symm
          simp [hj, hij, hji]

theorem node?_removeLinks (ids : List LinkId) (j : NodeId) :
    (g.removeLinks ids).node? j = g.node? j := by
  induction ids generalizing g with
  | nil => rfl
  | cons i ids ih => rw [removeLinks_cons, ih, node?_removeLink]

theorem nodeBound_removeLinks (ids : List LinkId) :
    (g.removeLinks ids).nodeBound = g.nodeBound := by
  induction ids generalizing g with
  | nil => rfl
  | cons i ids ih => rw [removeLinks_cons, ih, nodeBound_removeLink]

theorem contains_removeLinks (ids : List LinkId) (j : NodeId) :
    (g.removeLinks ids).contains j = g.contains j := by
  rw [Bool.eq_iff_iff, contains_iff, contains_iff, node?_removeLinks]

end RemoveLink

/-! ## Removing a node -/

section RemoveNode

variable {g} {id : NodeId}

/-- The circuit without the links of a node. -/
def isolate (g : Circuit) (id : NodeId) : Circuit :=
  (g.removeLinks (g.inputs id)).removeLinks (g.outputs id)

theorem removeNode_of_contains (h : g.contains id = true) :
    g.removeNode id =
      { g.isolate id with
        slots := (g.isolate id).slots.setIfInBounds id none
        nodeCount := (g.isolate id).nodeCount - 1 } := by
  simp [removeNode, h, isolate]

theorem removeNode_of_not_contains (h : g.contains id = false) : g.removeNode id = g := by
  simp [removeNode, h]

theorem slot?_setIfInBounds_none (slots : Array (Option Slot)) (id j : NodeId) :
    ((slots.setIfInBounds id none)[j]?).join = if id = j then none else slots[j]?.join := by
  rw [Array.getElem?_setIfInBounds]
  split
  · split <;> rfl
  · rfl

theorem slot?_removeNode (h : g.contains id = true) (j : NodeId) :
    (g.removeNode id).slot? j = if id = j then none else (g.isolate id).slot? j := by
  rw [removeNode_of_contains h]
  exact slot?_setIfInBounds_none _ id j

theorem node?_isolate (id j : NodeId) : (g.isolate id).node? j = g.node? j := by
  unfold isolate
  rw [node?_removeLinks, node?_removeLinks]

/-- Exactly the links that a node lists are taken away. -/
theorem link?_isolate (id : NodeId) (i : LinkId) :
    (g.isolate id).link? i =
      if i ∈ g.outputs id ∨ i ∈ g.inputs id then none else g.link? i := by
  unfold isolate
  rw [link?_removeLinks, link?_removeLinks]
  by_cases ho : i ∈ g.outputs id
  · simp [ho]
  · simp [ho]

/-- A removed node is not found any more, and every other node is as before. -/
theorem node?_removeNode (id j : NodeId) :
    (g.removeNode id).node? j = if id = j then none else g.node? j := by
  cases h : g.contains id with
  | false =>
      rw [removeNode_of_not_contains h]
      split
      case isTrue hij => rw [← hij, contains_eq_false_iff.mp h]
      case isFalse => rfl
  | true =>
      unfold node?
      rw [slot?_removeNode h]
      split
      · rfl
      · exact node?_isolate id j

theorem node?_removeNode_eq_some_iff {n : Node} :
    (g.removeNode id).node? j = some n ↔ id ≠ j ∧ g.node? j = some n := by
  rw [node?_removeNode]
  split
  case isTrue hij => simp [hij]
  case isFalse hij => simp [hij]

theorem link?_removeNode_of_contains (h : g.contains id = true) (i : LinkId) :
    (g.removeNode id).link? i = (g.isolate id).link? i := by
  rw [removeNode_of_contains h]
  rfl

theorem nodeBound_removeNode (id : NodeId) : (g.removeNode id).nodeBound = g.nodeBound := by
  cases h : g.contains id with
  | false => rw [removeNode_of_not_contains h]
  | true =>
      rw [removeNode_of_contains h]
      change ((g.isolate id).slots.setIfInBounds id none).size = _
      rw [Array.size_setIfInBounds]
      change (g.isolate id).nodeBound = _
      unfold isolate
      rw [nodeBound_removeLinks, nodeBound_removeLinks]

theorem contains_removeNode (id j : NodeId) :
    (g.removeNode id).contains j = (g.contains j && decide (id ≠ j)) := by
  rw [Bool.eq_iff_iff, contains_iff, node?_removeNode, Bool.and_eq_true, contains_iff]
  by_cases h : id = j <;> simp [h]

theorem inputs_removeNode_of_contains (h : g.contains id = true) (j : NodeId) :
    (g.removeNode id).inputs j = if id = j then [] else (g.isolate id).inputs j := by
  unfold inputs
  rw [slot?_removeNode h]
  split <;> rfl

theorem outputs_removeNode_of_contains (h : g.contains id = true) (j : NodeId) :
    (g.removeNode id).outputs j = if id = j then [] else (g.isolate id).outputs j := by
  unfold outputs
  rw [slot?_removeNode h]
  split <;> rfl

end RemoveNode

/-! ## Moving the source of a link -/

section SetSource

variable {g} {i : LinkId} {l : Link} {source : NodeId}

theorem setSource_of_move (h : g.link? i = some l) (hs : g.contains source = true)
    (hne : l.source ≠ source) :
    g.setSource i source =
      { (g.modifySlot l.source (detachOutput i)).modifySlot source (attachOutput i) with
        links := g.links.setIfInBounds i (some { l with source }) } := by
  simp [setSource, h, hs, hne, modifySlot]

/-- A link that is not there, or that is to start where it starts already or at a node that
is not there, is left alone. -/
theorem setSource_of_stay (h : ∀ l, g.link? i = some l → g.contains source = true →
    l.source = source) : g.setSource i source = g := by
  unfold setSource
  cases hl : g.link? i with
  | none => rfl
  | some l =>
      by_cases hs : g.contains source = true
      · simp [h l hl hs]
      · simp [hs]

theorem link?_setSource_of_move (h : g.link? i = some l) (hs : g.contains source = true)
    (hne : l.source ≠ source) (j : LinkId) :
    (g.setSource i source).link? j = if i = j then some { l with source } else g.link? j := by
  rw [setSource_of_move h hs hne]
  change ((g.links.setIfInBounds i (some { l with source }))[j]?).join = _
  rw [Array.getElem?_setIfInBounds]
  have hlt : i < g.links.size := lt_linkBound_of_link? h
  by_cases hij : i = j
  · subst hij
    simp [hlt]
  · simp [hij, link?]

/-- The link, if it is there, starts at the given node afterwards, provided that this node is
in the circuit. -/
theorem link?_setSource (hs : g.contains source = true) (i j : LinkId) :
    (g.setSource i source).link? j =
      if i = j then (g.link? j).map fun l => { l with source } else g.link? j := by
  cases hl : g.link? i with
  | none =>
      rw [setSource_of_stay (by simp [hl])]
      split
      case isTrue hij => simp [← hij, hl]
      case isFalse => rfl
  | some l =>
      by_cases hne : l.source = source
      · rw [setSource_of_stay (by simp [hl, hne])]
        split
        case isTrue hij => simp [← hij, hl, ← hne]
        case isFalse => rfl
      · rw [link?_setSource_of_move hl hs hne]
        split
        case isTrue hij => simp [← hij, hl]
        case isFalse => rfl

theorem node?_setSource (i : LinkId) (source j : NodeId) :
    (g.setSource i source).node? j = g.node? j := by
  unfold setSource
  split
  · rfl
  · split
    · change ((g.modifySlot _ (detachOutput i)).modifySlot source (attachOutput i)).node? j = _
      rw [node?_modifySlot, node?_modifySlot]
      · exact fun _ => rfl
      · exact fun _ => rfl
    · rfl

theorem nodeBound_setSource (i : LinkId) (source : NodeId) :
    (g.setSource i source).nodeBound = g.nodeBound := by
  unfold setSource
  split
  · rfl
  · split
    · simp [nodeBound, modifySlot]
    · rfl

theorem contains_setSource (i : LinkId) (source j : NodeId) :
    (g.setSource i source).contains j = g.contains j := by
  rw [Bool.eq_iff_iff, contains_iff, contains_iff, node?_setSource]

/-- Only the source of a link changes, so that all inputs stay. -/
theorem inputs_setSource (i : LinkId) (source j : NodeId) :
    (g.setSource i source).inputs j = g.inputs j := by
  unfold setSource
  split
  · rfl
  · split
    · change ((g.modifySlot _ (detachOutput i)).modifySlot source (attachOutput i)).inputs j = _
      rw [inputs_attachOutput, inputs_detachOutput]
    · rfl

/-- The link leaves the outputs of its old source and comes last among those of the new one. -/
theorem outputs_setSource_of_move (h : g.link? i = some l) (hs : g.contains source = true)
    (hne : l.source ≠ source) (j : NodeId) :
    (g.setSource i source).outputs j =
      if source = j then g.outputs j ++ [i]
      else if l.source = j then (g.outputs j).erase i else g.outputs j := by
  rw [setSource_of_move h hs hne]
  change ((g.modifySlot l.source (detachOutput i)).modifySlot source (attachOutput i)).outputs j = _
  rw [outputs_attachOutput, contains_modifySlot, outputs_detachOutput]
  by_cases hj : source = j
  · subst hj
    simp [hs, hne]
  · simp [hj]

end SetSource

end Redstone.Circuit
