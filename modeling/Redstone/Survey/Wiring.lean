import Redstone.Circuit.Edit
import Redstone.Survey.Feeds

/-!
# Linking components

Each node is linked to the nodes that stand at the origins of its feeds.  Wires
are transparent: a source that is reached through wires is linked directly, with
the strength lost on the wires.
-/

namespace Redstone.Survey

/-- The node that stands at each position. -/
abbrev Owners := Std.ExtTreeMap Position NodeId Position.scanOrder

/-- Notes a node at all of its positions. -/
def Owners.addNode (owners : Owners) (id : NodeId) (n : Node) : Owners :=
  n.blocks.foldl (fun owners b => owners.insert b.position id) owners

/-- The owners of all positions.  Of several nodes at one position the last one
counts. -/
def owners (g : Circuit) : Owners :=
  g.nodeIds.foldl
    (fun owners id =>
      match g.node? id with
      | some n => Owners.addNode owners id n
      | none => owners)
    ∅

/-- Links a node to the origin of a feed, if another node stands there. -/
def linkFeed (owners : Owners) (target : NodeId) (g : Circuit) (f : Feed) : Circuit :=
  match owners[f.origin]? with
  | none => g
  | some source =>
      if source = target then g
      else g.addLink { source, target, channel := f.channel, loss := f.loss }

/-- The feeds of a node are those of its first block. -/
def nodeFeeds (w : World) (n : Node) : List Feed :=
  match n.blocks with
  | [] => []
  | b :: _ => feeds w b.position

/-- Links a node to all of its feeds. -/
def linkNode (w : World) (owners : Owners) (g : Circuit) (id : NodeId) : Circuit :=
  match g.node? id with
  | none => g
  | some n => (nodeFeeds w n).foldl (linkFeed owners id) g

/-- Links all nodes of a circuit to their feeds. -/
def addWiring (w : World) (g : Circuit) : Circuit :=
  g.nodeIds.foldl (linkNode w (owners g)) g

end Redstone.Survey
