import Redstone.Optimize.Revision

/-!
# Duplicate gates

Equal gates that have one and the same single source, over equal links, put out
equal signals.  One of them takes over the links and blocks of the others.
Comparators are left alone, and so are gates behind them.
-/

namespace Redstone.Optimize

/-- The last link of a node to the given channel of the given node. -/
def parallelOutput? (g : Circuit) (id target : NodeId) (channel : Channel) :
    Option (LinkId × Link) :=
  ((g.outputs id).filterMap fun i => (g.link? i).map (i, ·)).reverse.find? fun (_, l) =>
    l.target == target && l.channel == channel

/-- Lets the link `i` of another node start at node `into`.  Of this link and a
parallel one only the one with the smaller loss is kept. -/
def takeOver (into : NodeId) (g : Circuit) (i : LinkId) : Circuit :=
  match g.link? i with
  | none => g
  | some l =>
      match parallelOutput? g into l.target l.channel with
      | none => g.setSource i into
      | some (j, m) =>
          if m.loss ≤ l.loss then g.removeLink i else (g.removeLink j).setSource i into

/-- Merges a node into another one, which takes over its links and blocks. -/
def merge (g : Circuit) (twin into : NodeId) : Circuit :=
  let moved := (g.outputs twin).foldl (takeOver into) g
  let blocks := ((moved.node? twin).map Node.blocks).getD []
  (moved.modifyNode into fun n => { n with blocks := n.blocks ++ blocks }).removeNode twin

/-- The link `i` of node `source` feeds a twin of the node `into`, which hangs on
`source` by the link `l`: an equal gate without other sources that may be
removed. -/
def twin? (g : Circuit) (source into : NodeId) (l : Link) (i : LinkId) : Option NodeId := do
  let m ← g.link? i
  let n ← g.node? m.target
  let kept ← g.node? into
  if m.target ≠ into ∧ m.target ≠ source ∧ m.channel = l.channel ∧ m.loss = l.loss ∧
      n.gate = kept.gate ∧ n.isRemovable ∧ (g.inputs m.target).length = 1 then
    some m.target
  else none

/-- Merges the twin behind link `i`, if there is one. -/
def mergeTwin (source into : NodeId) (l : Link) (i : LinkId) (g : Circuit) : Revision :=
  match twin? g source into l i with
  | some twin => .once (merge g twin into)
  | none => .unchanged g

/-- The single link of a node that can have twins. -/
def soleLink? (g : Circuit) (id : NodeId) : Option Link := do
  let n ← g.node? id
  match g.inputs id with
  | [i] => do
      let l ← g.link? i
      let s ← g.node? l.source
      if !n.gate.isComparator ∧ n.isRemovable ∧ l.channel = .main ∧ l.source ≠ id ∧
          !s.gate.isComparator then
        some l
      else none
  | _ => none

/-- Merges all twins of a node into it. -/
def mergeTwins (id : NodeId) (g : Circuit) : Revision :=
  match soleLink? g id with
  | none => .unchanged g
  | some l => Revision.sweep (mergeTwin l.source id l) (g.outputs l.source) g

/-- Merges twins, node by node. -/
def mergeSweep (g : Circuit) : Revision :=
  Revision.sweep mergeTwins g.nodeIds g

/-- Merges until no node has a twin.  Every sweep but the last one removes a node,
so there are no more sweeps than nodes and one. -/
def mergeDuplicates (g : Circuit) : Revision :=
  Revision.untilStable mergeSweep (g.nodeBound + 1) g

end Redstone.Optimize
