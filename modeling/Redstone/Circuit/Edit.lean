import Redstone.Circuit.Basic

/-!
# Editing circuits

The operations that change a circuit.  Each keeps the lists at both ends of a
link and the two counters in step.  A name that stands for nothing is passed
over, except that a link between nodes that are not there is refused.
-/

namespace Redstone.Circuit

/-- Changes the slot of a node. -/
def modifySlot (g : Circuit) (id : NodeId) (f : Slot → Slot) : Circuit :=
  { g with slots := g.slots.modify id (Option.map f) }

@[simp] theorem slot?_modifySlot (g : Circuit) (id j : NodeId) (f : Slot → Slot) :
    (g.modifySlot id f).slot? j = if id = j then (g.slot? j).map f else g.slot? j := by
  simp only [modifySlot, slot?, Array.getElem?_modify]
  by_cases h : id = j
  · cases hs : g.slots[j]? with
    | none => simp [h]
    | some s => cases s <;> simp [h]
  · simp [h]

/-- Changes a node in its place. -/
def modifyNode (g : Circuit) (id : NodeId) (f : Node → Node) : Circuit :=
  g.modifySlot id fun s => { s with node := f s.node }

@[simp] theorem node?_modifyNode (g : Circuit) (id j : NodeId) (f : Node → Node) :
    (g.modifyNode id f).node? j = if id = j then (g.node? j).map f else g.node? j := by
  unfold modifyNode node?
  rw [slot?_modifySlot]
  split <;> simp [Function.comp_def]

/-- Changes the channel and the loss of a link in its place. -/
def relabel (g : Circuit) (id : LinkId) (channel : Channel) (loss : UInt8) : Circuit :=
  { g with links := g.links.modify id (Option.map fun l => { l with channel, loss }) }

/-- Adds a node.  Its name is the node bound before. -/
def addNode (g : Circuit) (node : Node) : Circuit :=
  { g with slots := g.slots.push (some { node }), nodeCount := g.nodeCount + 1 }

@[simp] theorem slot?_addNode (g : Circuit) (node : Node) (j : NodeId) :
    (g.addNode node).slot? j = if j = g.nodeBound then some { node } else g.slot? j := by
  by_cases h : j = g.nodeBound
  · subst h
    simp [addNode, slot?, nodeBound]
  · have hsize : j ≠ g.slots.size := h
    simp [addNode, slot?, Array.getElem?_push, hsize, h]

@[simp] theorem link?_addNode (g : Circuit) (node : Node) (i : LinkId) :
    (g.addNode node).link? i = g.link? i := rfl

/-- Adds a link at the end of the list of those that end at a node. -/
def attachInput (id : LinkId) (s : Slot) : Slot :=
  { s with inputs := s.inputs ++ [id] }

/-- Adds a link at the end of the list of those that start at a node. -/
def attachOutput (id : LinkId) (s : Slot) : Slot :=
  { s with outputs := s.outputs ++ [id] }

/-- Strikes a link from the list of those that end at a node. -/
def detachInput (id : LinkId) (s : Slot) : Slot :=
  { s with inputs := s.inputs.erase id }

/-- Strikes a link from the list of those that start at a node. -/
def detachOutput (id : LinkId) (s : Slot) : Slot :=
  { s with outputs := s.outputs.erase id }

/-- Adds a link between two nodes of the circuit.  Its name is the link bound
before.  Without both nodes nothing is added. -/
def addLink (g : Circuit) (l : Link) : Circuit :=
  if g.contains l.source && g.contains l.target then
    let listed := (g.modifySlot l.source (attachOutput g.linkBound)).modifySlot l.target
      (attachInput g.linkBound)
    { listed with links := listed.links.push (some l), linkCount := listed.linkCount + 1 }
  else g

/-- Removes a link. -/
def removeLink (g : Circuit) (id : LinkId) : Circuit :=
  match g.link? id with
  | none => g
  | some l =>
      let unlisted := (g.modifySlot l.source (detachOutput id)).modifySlot l.target
        (detachInput id)
      { unlisted with
        links := unlisted.links.setIfInBounds id none
        linkCount := unlisted.linkCount - 1 }

/-- Removes links one after the other. -/
def removeLinks (g : Circuit) (ids : List LinkId) : Circuit :=
  ids.foldl removeLink g

/-- Removes a node and all of its links. -/
def removeNode (g : Circuit) (id : NodeId) : Circuit :=
  if g.contains id then
    let bare := (g.removeLinks (g.inputs id)).removeLinks (g.outputs id)
    { bare with slots := bare.slots.setIfInBounds id none, nodeCount := bare.nodeCount - 1 }
  else g

/-- Lets a link start at another node of the circuit. -/
def setSource (g : Circuit) (id : LinkId) (source : NodeId) : Circuit :=
  match g.link? id with
  | none => g
  | some l =>
      if g.contains source && l.source != source then
        let listed := (g.modifySlot l.source (detachOutput id)).modifySlot source
          (attachOutput id)
        { listed with links := listed.links.setIfInBounds id (some { l with source }) }
      else g

/-- Adds nodes one after the other. -/
def addNodes (g : Circuit) (nodes : List Node) : Circuit :=
  nodes.foldl addNode g

/-- A link was to be added between nodes that are not both in the circuit. -/
structure LinkError where
  source : NodeId
  target : NodeId
deriving DecidableEq, Repr

/-- The wording of a refused link. -/
def LinkError.message (e : LinkError) : String :=
  "AddEdge: invalid endpoints " ++ NodeId.text e.source ++ "->" ++ NodeId.text e.target

/-- Adds a link, or refuses it if an end is missing. -/
def connect (g : Circuit) (l : Link) : Except LinkError Circuit :=
  if g.contains l.source && g.contains l.target then .ok (g.addLink l)
  else .error { source := l.source, target := l.target }

end Redstone.Circuit
