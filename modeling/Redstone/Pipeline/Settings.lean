import Redstone.Report.Log

/-!
# Compiler settings

What a compilation is asked to do, and the streams that it may write to.
-/

namespace Redstone

/-- The settings of a compilation.  `logger` is the log that has been set up
beforehand, if any. -/
structure Settings where
  verbose : Bool := false
  diagnostics : Bool := false
  optimize : Bool := false
  exports : Bool := false
  exportPath : String := ""
  disabled : List String := []
  logger : Option Log := none
deriving DecidableEq, Repr

namespace Settings

/-- The file that is written when no other one is named. -/
def defaultExportPath : String := "redpiler_graph.bin"

/-- The default settings: optimize, and log without debug records. -/
def default : Settings :=
  { optimize := true, exportPath := defaultExportPath, logger := some { verbose := false } }

/-- The log to use: the one that has been set up, or a new one. -/
def log (s : Settings) : Log :=
  s.logger.getD { verbose := s.verbose }

/-- The pass with the given name is to be skipped. -/
def isDisabled (s : Settings) (pass : String) : Bool :=
  s.disabled.contains pass

/-- The file to which the artifact is exported. -/
def exportFile (s : Settings) : String :=
  if s.exportPath.isEmpty then defaultExportPath else s.exportPath

end Settings

/-- The streams of a compilation that are open. -/
structure Streams where
  artifact : Bool := false
  drawing : Bool := false
deriving DecidableEq, Repr

/-- Closes all streams.  The second result has those that were open. -/
def Streams.close (s : Streams) : Streams × Streams :=
  ({}, s)

end Redstone
