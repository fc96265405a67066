/-!
# Progress monitors

A monitor shows how far a compilation has come and carries the request to stop
it.
-/

namespace Redstone

/-- The progress of a compilation. -/
structure Monitor where
  completed : Nat := 0
  total : Nat := 0
  status : String := ""
  cancelled : Bool := false
deriving DecidableEq, Repr, Inhabited

namespace Monitor

/-- Asks the compilation to stop before the next pass. -/
def cancel (m : Monitor) : Monitor :=
  { m with cancelled := true }

/-- Starts to count passes.  A request to stop stays. -/
def start (m : Monitor) (total : Nat) : Monitor :=
  { m with completed := 0, total }

/-- Counts a pass. -/
def advance (m : Monitor) : Monitor :=
  { m with completed := m.completed + 1 }

/-- Shows a status message. -/
def withStatus (m : Monitor) (status : String) : Monitor :=
  { m with status }

end Monitor

end Redstone
