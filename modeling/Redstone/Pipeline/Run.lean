import Redstone.Pipeline.Pass
import Redstone.Report.Timing

/-!
# Running passes

The passes of a list are run one after the other, each on the circuit that the
one before has left.  A request to stop is honoured before the next pass, and a
pass that fails ends the run.  Two things come from outside: a run in any monad
looks for a request to stop before every pass, and asks the clock for the time
before and after it.
-/

namespace Redstone

/-- Why a run ends early. -/
inductive RunError where
  | cancelled
  | failed (pass : String) (cause : PassError)
deriving DecidableEq, Repr

/-- The wording of a run error. -/
def RunError.message : RunError → String
  | cancelled => "compilation cancelled"
  | failed pass cause => pass ++ ": " ++ cause.message

/-- What a run needs from outside: the clock, and whether someone asks it to
stop. -/
structure Surroundings (m : Type → Type) where
  now : m Instant
  stopRequested : m Bool

/-- Surroundings in which nobody asks a run to stop. -/
def Surroundings.quiet {m : Type → Type} [Monad m] (now : m Instant) : Surroundings m where
  now
  stopRequested := pure false

/-- A run so far: the workspace, the timing samples, and what the monitor showed
while each pass was running. -/
structure Run where
  workspace : Workspace
  samples : List Sample := []
  sightings : List (String × Monitor) := []

namespace Run

/-- Changes the monitor. -/
def modifyMonitor (r : Run) (f : Monitor → Monitor) : Run :=
  { r with workspace := { r.workspace with monitor := f r.workspace.monitor } }

/-- Passes a request to stop on to the monitor. -/
def heed (r : Run) (stop : Bool) : Run :=
  if stop then r.modifyMonitor Monitor.cancel else r

/-- Adds a record about a pass. -/
def note (r : Run) (level : LogLevel) (message : String) (pass : Pass)
    (fields : List (String × String)) : Run :=
  { r with
    workspace :=
      { r.workspace with log := r.workspace.log.add level message (("pass", pass.name) :: fields) } }

/-- The sample of a pass that has just been run. -/
def sample (r : Run) (pass : Pass) (start stop : Instant) : Sample where
  label := pass.name
  start := start
  stop := stop
  nodes := r.workspace.circuit.nodeCount
  links := r.workspace.circuit.linkCount

/-- Lets a pass work, and notes what the monitor shows meanwhile. -/
def perform (settings : Settings) (scene : Option Scene) (pass : Pass) (r : Run) :
    Run × Option PassError :=
  let (workspace, failure) := pass.run settings scene r.workspace
  ({ r with
      workspace
      sightings := r.sightings ++ [(pass.name, r.workspace.monitor)] }, failure)

/-- Takes the sample of a pass and logs it, or ends the run if the pass has
failed. -/
def conclude (pass : Pass) (start stop : Instant) (failure : Option PassError) (r : Run) :
    Run × Option RunError :=
  let sample := r.sample pass start stop
  let r := { r with samples := r.samples ++ [sample] }
  match failure with
  | some cause => (r, some (.failed pass.name cause))
  | none =>
      ((r.note .debug pass.status pass
          [ ("nodes", toString sample.nodes), ("links", toString sample.links)
          , ("elapsed", sample.duration.text) ]).modifyMonitor Monitor.advance, none)

/-- The pass is to be run under the settings. -/
def isEnabled (settings : Settings) (pass : Pass) : Bool :=
  pass.applies settings && !settings.isDisabled pass.name

/-- Runs one pass, or skips it. -/
def stepIn {m : Type → Type} [Monad m] (env : Surroundings m) (settings : Settings)
    (scene : Option Scene) (pass : Pass) (r : Run) : m (Run × Option RunError) := do
  let r := r.heed (← env.stopRequested)
  if r.workspace.monitor.cancelled then
    return (r.note .info "compilation cancelled" pass [], some .cancelled)
  let r := r.modifyMonitor (·.withStatus pass.status)
  if isEnabled settings pass then
    let start ← env.now
    let (r, failure) := perform settings scene pass r
    let stop ← env.now
    return conclude pass start stop failure r
  else
    return ((r.note .debug "skipping pass" pass []).modifyMonitor Monitor.advance, none)

/-- Runs passes one after the other until one of them ends the run. -/
def stepsIn {m : Type → Type} [Monad m] (env : Surroundings m) (settings : Settings)
    (scene : Option Scene) : List Pass → Run → m (Run × Option RunError)
  | [], r => pure (r.modifyMonitor (·.withStatus "Done"), none)
  | pass :: rest, r => do
      let (r, failure) ← stepIn env settings scene pass r
      match failure with
      | some e => return (r, some e)
      | none => stepsIn env settings scene rest r

/-- A run before its first pass: the circuit is empty. -/
def start (w : Workspace) (count : Nat) : Run where
  workspace := { w with circuit := .empty, monitor := w.monitor.start count }

/-- Runs passes on an empty circuit. -/
def allIn {m : Type → Type} [Monad m] (env : Surroundings m) (settings : Settings)
    (scene : Option Scene) (passes : List Pass) (w : Workspace) : m (Run × Option RunError) :=
  stepsIn env settings scene passes (start w passes.length)

/-- Runs passes on an empty circuit, and nobody asks to stop. -/
def all {m : Type → Type} [Monad m] (now : m Instant) (settings : Settings)
    (scene : Option Scene) (passes : List Pass) (w : Workspace) : m (Run × Option RunError) :=
  allIn (.quiet now) settings scene passes w

/-- The timing report that a finished run prints when diagnostics are asked for. -/
def report (settings : Settings) (r : Run) (failure : Option RunError) : String :=
  if settings.diagnostics && failure.isNone then Timing.report r.samples else ""

end Run

end Redstone
