import Redstone.Circuit.Edit

/-!
# Revisions of circuits

A revision is a changed circuit together with the number of changes.
Revisions are put together by sweeping over nodes and by repeating a sweep until
it makes no more changes.
-/

namespace Redstone

/-- A changed circuit, and the number of changes. -/
structure Revision where
  circuit : Circuit
  changes : Nat
deriving DecidableEq

namespace Revision

/-- No change. -/
def unchanged (g : Circuit) : Revision :=
  { circuit := g, changes := 0 }

/-- One change. -/
def once (g : Circuit) : Revision :=
  { circuit := g, changes := 1 }

/-- Goes on with another revision. -/
def andThen (r : Revision) (step : Circuit → Revision) : Revision :=
  let next := step r.circuit
  { circuit := next.circuit, changes := r.changes + next.changes }

/-- Revises at every item of a list, one after the other. -/
def sweep {α : Type} (step : α → Circuit → Revision) (items : List α) (g : Circuit) :
    Revision :=
  items.foldl (fun r item => r.andThen (step item)) (unchanged g)

/-- Repeats a revision until it makes no change, but at most `fuel` times. -/
def untilStable (step : Circuit → Revision) : Nat → Circuit → Revision
  | 0, g => unchanged g
  | fuel + 1, g =>
      let next := step g
      if next.changes = 0 then next else next.andThen (untilStable step fuel)

end Revision

end Redstone
