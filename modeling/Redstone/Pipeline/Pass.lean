import Redstone.Circuit.Edit
import Redstone.Files.Stream
import Redstone.Netlist.Flatten
import Redstone.Pipeline.Monitor
import Redstone.Pipeline.Settings
import Redstone.World.Basic

/-!
# Passes

A pass is a named step of a compilation.  It works on a workspace: the circuit,
and everything else that a step can look at or change.
-/

namespace Redstone

/-- The part of a world that is compiled. -/
structure Scene where
  world : World
  region : Region

/-- What a pass works on. -/
structure Workspace where
  circuit : Circuit := .empty
  monitor : Monitor := {}
  log : Log
  sink : Option Sink := none
  files : Directory := .empty

/-- Why an artifact is not exported. -/
inductive ExportError where
  | flatten (e : FlattenError)
  | create (e : FileError)
  | refused (reason : String)
deriving DecidableEq, Repr

/-- The wording of an export error. -/
def ExportError.message : ExportError → String
  | flatten e => "flatten failed: " ++ e.message
  | create e => "failed to create export file: " ++ e.message
  | refused reason => "export failed: " ++ reason

/-- Why a pass fails. -/
inductive PassError where
  | noScene
  | invalidRegion (r : Region)
  | notExported (e : ExportError)
  | other (text : String)
deriving DecidableEq, Repr

/-- The wording of a failure.  Of a message with several lines only the first one
is given. -/
def PassError.message : PassError → String
  | noScene => "no input world"
  | invalidRegion r => "invalid bounds " ++ r.text
  | notExported e => Log.firstLine e.message
  | other text => text

/-- A step of a compilation. -/
structure Pass where
  name : String
  status : String
  applies : Settings → Bool
  run : Settings → Option Scene → Workspace → Workspace × Option PassError

namespace Workspace

/-- Adds a debug record. -/
def debug (w : Workspace) (message : String) (fields : List (String × String)) : Workspace :=
  { w with log := w.log.add .debug message fields }

end Workspace

end Redstone
