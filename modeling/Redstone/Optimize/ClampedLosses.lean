import Redstone.Optimize.Revision

/-!
# Clamped losses

No signal is stronger than fifteen, so a greater loss is as good as a loss of
fifteen.
-/

namespace Redstone.Optimize

/-- The link with its loss cut off at the greatest strength. -/
def clampLink (l : Link) : Link :=
  { l with loss := min l.loss maxStrength }

/-- The link loses more than the greatest strength. -/
def exceedsMax (l : Link) : Bool :=
  maxStrength < l.loss

/-- Cuts off all losses at the greatest strength. -/
def clampLosses (g : Circuit) : Revision where
  circuit := { g with links := g.links.map (Option.map clampLink) }
  changes := ((g.linkIds.filterMap g.link?).filter exceedsMax).length

end Redstone.Optimize
