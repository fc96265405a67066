import Redstone.Optimize.Revision

/-!
# Parallel links

Of several links from one node to one channel of another, only the one with the
least loss counts.  The others are removed; of links with equal loss the oldest
stays.
-/

namespace Redstone.Optimize

/-- Both links start at one node and end at one channel of one node. -/
def areParallel (l m : Link) : Bool :=
  l.source == m.source && l.target == m.target && l.channel == m.channel

/-- Link `j`, which is `m`, makes the parallel link `i`, which is `l`, superfluous:
it loses less, or as little and is older. -/
def outdoes (j : LinkId) (m : Link) (i : LinkId) (l : Link) : Bool :=
  areParallel l m && (m.loss < l.loss || (m.loss == l.loss && j < i))

/-- Some link that ends at the same node makes the link superfluous. -/
def isRedundant (g : Circuit) (i : LinkId) : Bool :=
  (g.link? i).any fun l =>
    (g.inputs l.target).any fun j => (g.link? j).any fun m => outdoes j m i l

/-- The superfluous links, node by node. -/
def redundantLinks (g : Circuit) : List LinkId :=
  g.nodeIds.flatMap fun id => (g.inputs id).filter (isRedundant g)

/-- Removes all superfluous links. -/
def dedupLinks (g : Circuit) : Revision :=
  let redundant := redundantLinks g
  { circuit := g.removeLinks redundant, changes := redundant.length }

end Redstone.Optimize
