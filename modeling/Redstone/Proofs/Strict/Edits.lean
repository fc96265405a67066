import Redstone.Optimize.Revision
import Redstone.Proofs.Circuit.WellFormed

/-!
# Strict edits

A name of a node or link that has been removed is passed over by the edits.  The strict edits of
this module stop with a fault instead: at a node or link that is not there, at a link without its
ends, and at a new link that is refused.  On a well-formed circuit, and for names that it knows,
they do the same as the edits.
-/

namespace Redstone.Strict

open Circuit

/-- A name that stands for nothing has been used. -/
inductive Fault where
  | node (id : NodeId)
  | link (i : LinkId)
  | refused (e : LinkError)
deriving DecidableEq, Repr

/-- The wording of a fault. -/
def Fault.message : Fault → String
  | node id => "no node " ++ NodeId.text id
  | link i => "no link " ++ toString i
  | refused e => e.message

/-- A result, unless a name has been used that stands for nothing. -/
abbrev Attempt := Except Fault

/-! ## Definitions -/

/-- The node with the given name. -/
def node (g : Circuit) (id : NodeId) : Attempt Node :=
  match g.node? id with
  | some n => .ok n
  | none => .error (.node id)

/-- The link with the given name. -/
def link (g : Circuit) (i : LinkId) : Attempt Link :=
  match g.link? i with
  | some l => .ok l
  | none => .error (.link i)

/-- The links that end at a node. -/
def inLinks (g : Circuit) (id : NodeId) : Attempt (List Link) :=
  (g.inputs id).mapM (link g)

/-- Changes a node in its place. -/
def modifyNode (g : Circuit) (id : NodeId) (f : Node → Node) : Attempt Circuit := do
  let _ ← node g id
  return g.modifyNode id f

/-- Adds a link between two nodes. -/
def addLink (g : Circuit) (l : Link) : Attempt Circuit :=
  match g.connect l with
  | .ok g' => .ok g'
  | .error e => .error (.refused e)

/-- Removes a link from the lists at its ends. -/
def removeLink (g : Circuit) (i : LinkId) : Attempt Circuit := do
  let l ← link g i
  let _ ← node g l.source
  let _ ← node g l.target
  return g.removeLink i

/-- Removes links one after the other. -/
def removeLinks (g : Circuit) (ids : List LinkId) : Attempt Circuit :=
  ids.foldlM removeLink g

/-- Removes a node: first the links that end there, then those that still start there. -/
def removeNode (g : Circuit) (id : NodeId) : Attempt Circuit := do
  let _ ← node g id
  let bare ← removeLinks g (g.inputs id)
  let bare ← removeLinks bare (bare.outputs id)
  return { bare with slots := bare.slots.setIfInBounds id none, nodeCount := bare.nodeCount - 1 }

/-- Lets a link start at another node. -/
def setSource (g : Circuit) (i : LinkId) (source : NodeId) : Attempt Circuit := do
  let l ← link g i
  let _ ← node g l.source
  let _ ← node g source
  return g.setSource i source

/-- Keeps the items that pass a test. -/
def filter {α : Type} (test : α → Attempt Bool) : List α → Attempt (List α)
  | [] => .ok []
  | x :: xs => do
      let keep ← test x
      let rest ← filter test xs
      return if keep then x :: rest else rest

/-- Revises at every item of a list, one after the other. -/
def sweep {α : Type} (step : α → Circuit → Attempt Revision) (items : List α) (g : Circuit) :
    Attempt Revision :=
  items.foldlM
    (fun r item => do
      let next ← step item r.circuit
      return { circuit := next.circuit, changes := r.changes + next.changes })
    (.unchanged g)

/-- Repeats a revision until it makes no change, but at most `fuel` times. -/
def untilStable (step : Circuit → Attempt Revision) : Nat → Circuit → Attempt Revision
  | 0, g => .ok (.unchanged g)
  | fuel + 1, g => do
      let next ← step g
      if next.changes = 0 then
        return next
      let rest ← untilStable step fuel next.circuit
      return { circuit := rest.circuit, changes := next.changes + rest.changes }

/-! ## Names that are known -/

variable {g : Circuit} {id : NodeId} {i : LinkId}

@[simp] theorem node_eq {n : Node} (h : g.node? id = some n) : node g id = .ok n := by
  rw [node, h]

@[simp] theorem link_eq {l : Link} (h : g.link? i = some l) : link g i = .ok l := by
  rw [link, h]

@[simp] theorem ok_bind {α β : Type} (a : α) (f : α → Attempt β) :
    (Except.ok a >>= f : Attempt β) = f a := rfl

theorem mapM_eq {α β : Type} {f : α → Attempt β} {pick : α → Option β} {xs : List α}
    (h : ∀ x ∈ xs, ∃ y, pick x = some y ∧ f x = .ok y) : xs.mapM f = .ok (xs.filterMap pick) := by
  induction xs with
  | nil => rfl
  | cons x xs ih =>
      obtain ⟨y, hy, hf⟩ := h x List.mem_cons_self
      rw [List.mapM_cons, hf, ok_bind, ih (fun x' hx' => h x' (List.mem_cons_of_mem _ hx')), ok_bind,
        List.filterMap_cons_some hy]
      rfl

/-- All links are there, and so are all nodes. -/
theorem mapM_link_linkIds (g : Circuit) :
    g.linkIds.mapM (link g) = .ok (g.linkIds.filterMap g.link?) := by
  refine mapM_eq fun i hi => ?_
  obtain ⟨l, hl⟩ := mem_linkIds.mp hi
  exact ⟨l, hl, link_eq hl⟩

theorem mapM_node_nodeIds (g : Circuit) :
    g.nodeIds.mapM (node g) = .ok (g.nodeIds.filterMap g.node?) := by
  refine mapM_eq fun id hid => ?_
  obtain ⟨n, hn⟩ := contains_iff.mp (mem_nodeIds.mp hid)
  exact ⟨n, hn, node_eq hn⟩

theorem filter_eq {α : Type} {test : α → Attempt Bool} {p : α → Bool} {xs : List α}
    (h : ∀ x ∈ xs, test x = .ok (p x)) : filter test xs = .ok (xs.filter p) := by
  induction xs with
  | nil => rfl
  | cons x xs ih =>
      rw [filter, h x List.mem_cons_self, ok_bind,
        ih (fun x' hx' => h x' (List.mem_cons_of_mem _ hx')), ok_bind, List.filter_cons]
      rfl

theorem foldlM_eq {α β : Type} {f : β → α → Attempt β} {step : β → α → β} {P : List α → β → Prop}
    (hstep : ∀ x rest b, P (x :: rest) b → f b x = .ok (step b x) ∧ P rest (step b x))
    {xs : List α} {b : β} (h : P xs b) : xs.foldlM f b = .ok (xs.foldl step b) := by
  induction xs generalizing b with
  | nil => rfl
  | cons x xs ih =>
      obtain ⟨hf, hnext⟩ := hstep x xs b h
      rw [List.foldlM_cons, hf, ok_bind, ih hnext, List.foldl_cons]

/-- The steps of a sweep are the strict ones as long as some property of the circuit and of the
items to come is kept. -/
theorem sweep_eq {α : Type} {f : α → Circuit → Attempt Revision} {step : α → Circuit → Revision}
    {P : List α → Circuit → Prop}
    (hstep : ∀ item rest g, P (item :: rest) g →
      f item g = .ok (step item g) ∧ P rest (step item g).circuit)
    {items : List α} (h : P items g) : sweep f items g = .ok (Revision.sweep step items g) := by
  refine foldlM_eq (P := fun items r => P items r.circuit) (fun item rest r hr => ?_) h
  obtain ⟨hf, hnext⟩ := hstep item rest r.circuit hr
  rw [hf, ok_bind]
  exact ⟨rfl, hnext⟩

theorem untilStable_eq {f : Circuit → Attempt Revision} {step : Circuit → Revision}
    {P : Circuit → Prop} (hstep : ∀ g, P g → f g = .ok (step g) ∧ P (step g).circuit)
    (fuel : Nat) (h : P g) : untilStable f fuel g = .ok (Revision.untilStable step fuel g) := by
  induction fuel generalizing g with
  | zero => rfl
  | succ fuel ih =>
      obtain ⟨hf, hnext⟩ := hstep g h
      rw [untilStable, hf, ok_bind, Revision.untilStable]
      by_cases hstable : (step g).changes = 0
      · rw [if_pos hstable, if_pos hstable]
        rfl
      · rw [if_neg hstable, if_neg hstable]
        rw [ih hnext, ok_bind]
        rfl

/-! ## Edits of well-formed circuits -/

theorem inLinks_eq (h : g.WellFormed) (id : NodeId) : inLinks g id = .ok (g.inLinks id) := by
  refine mapM_eq fun i hi => ?_
  obtain ⟨l, hl, -⟩ := h.mem_inputs_iff.mp hi
  exact ⟨l, hl, link_eq hl⟩

theorem modifyNode_eq (h : g.contains id = true) (f : Node → Node) :
    modifyNode g id f = .ok (g.modifyNode id f) := by
  obtain ⟨n, hn⟩ := contains_iff.mp h
  rw [modifyNode, node_eq hn, ok_bind]
  rfl

theorem addLink_eq {l : Link} (hs : g.contains l.source = true) (ht : g.contains l.target = true) :
    addLink g l = .ok (g.addLink l) := by
  simp [addLink, connect, hs, ht]

theorem removeLink_eq (h : g.WellFormed) {l : Link} (hl : g.link? i = some l) :
    removeLink g i = .ok (g.removeLink i) := by
  obtain ⟨s, hs⟩ := contains_iff.mp (h.contains_source hl)
  obtain ⟨t, ht⟩ := contains_iff.mp (h.contains_target hl)
  rw [removeLink, link_eq hl, ok_bind, node_eq hs, ok_bind, node_eq ht, ok_bind]
  rfl

theorem setSource_eq (h : g.WellFormed) {l : Link} (hl : g.link? i = some l) {source : NodeId}
    (hsource : g.contains source = true) : setSource g i source = .ok (g.setSource i source) := by
  obtain ⟨s, hs⟩ := contains_iff.mp (h.contains_source hl)
  obtain ⟨t, ht⟩ := contains_iff.mp hsource
  rw [setSource, link_eq hl, ok_bind, node_eq hs, ok_bind, node_eq ht, ok_bind]
  rfl

/-- Different links of the circuit are removed one after the other. -/
theorem removeLinks_eq (h : g.WellFormed) {ids : List LinkId} (hnodup : ids.Nodup)
    (hids : ∀ i ∈ ids, ∃ l, g.link? i = some l) : removeLinks g ids = .ok (g.removeLinks ids) := by
  refine foldlM_eq (P := fun (ids : List LinkId) (g : Circuit) =>
    g.WellFormed ∧ ids.Nodup ∧ ∀ i ∈ ids, ∃ l, g.link? i = some l) ?_ ⟨h, hnodup, hids⟩
  rintro i rest g ⟨h, hnodup, hids⟩
  obtain ⟨l, hl⟩ := hids i List.mem_cons_self
  obtain ⟨hnot, hnodup⟩ := List.nodup_cons.mp hnodup
  refine ⟨removeLink_eq h hl, h.removeLink i, hnodup, fun j hj => ?_⟩
  have hij : i ≠ j := fun e => hnot (e ▸ hj)
  rw [link?_removeLink, if_neg hij]
  exact hids j (List.mem_cons_of_mem _ hj)

theorem outputs_removeLinks (h : g.WellFormed) (ids : List LinkId) (id : NodeId) :
    (g.removeLinks ids).outputs id = (g.outputs id).filter (· ∉ ids) := by
  induction ids generalizing g with
  | nil => simp
  | cons i ids ih =>
      rw [removeLinks_cons, ih (h.removeLink i), h.outputs_removeLink,
        (h.outputs_nodup id).erase_eq_filter, List.filter_filter]
      apply List.filter_congr
      intro j _
      by_cases hj : j = i
      · simp [hj]
      · simp [hj]

/-- Names of links that are not there may be left out of the links to remove. -/
theorem removeLinks_filter {p : LinkId → Bool} {ids : List LinkId}
    (h : ∀ i ∈ ids, p i = false → g.link? i = none) :
    g.removeLinks (ids.filter p) = g.removeLinks ids := by
  induction ids generalizing g with
  | nil => rfl
  | cons i ids ih =>
      cases hp : p i with
      | true =>
          rw [List.filter_cons_of_pos hp, removeLinks_cons, removeLinks_cons]
          refine ih fun j hj hpj => ?_
          rw [link?_removeLink]
          split
          · rfl
          · exact h j (List.mem_cons_of_mem _ hj) hpj
      | false =>
          rw [List.filter_cons_of_neg (by simp [hp]), removeLinks_cons,
            removeLink_of_none (h i List.mem_cons_self hp)]
          exact ih fun j hj => h j (List.mem_cons_of_mem _ hj)

theorem removeNode_eq (h : g.WellFormed) (hid : g.contains id = true) :
    removeNode g id = .ok (g.removeNode id) := by
  obtain ⟨n, hn⟩ := contains_iff.mp hid
  let bare := g.removeLinks (g.inputs id)
  have hbare : bare.WellFormed := h.removeLinks _
  have hinputs : removeLinks g (g.inputs id) = .ok bare := by
    exact removeLinks_eq h (h.inputs_nodup id) fun i hi => h.exists_of_mem_inputs hi
  have houtputs : removeLinks bare (bare.outputs id) = .ok (bare.removeLinks (bare.outputs id)) := by
    exact removeLinks_eq hbare (hbare.outputs_nodup id) fun i hi => hbare.exists_of_mem_outputs hi
  -- a link from the node to itself is removed with the inputs already
  have hisolate : bare.removeLinks (bare.outputs id) = g.isolate id := by
    change _ = bare.removeLinks (g.outputs id)
    rw [outputs_removeLinks h]
    refine removeLinks_filter fun i _ hmem => ?_
    have hmem : i ∈ g.inputs id := by simpa using hmem
    rw [link?_removeLinks, if_pos hmem]
  rw [removeNode, node_eq hn, ok_bind, hinputs, ok_bind, houtputs, ok_bind, hisolate,
    removeNode_of_contains hid]
  rfl

end Redstone.Strict
