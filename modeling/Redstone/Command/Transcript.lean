import Redstone.Command.Flags
import Redstone.Files.Directory
import Redstone.Report.Log

/-!
# Transcripts of commands

All that a command leaves behind: its exit code, what it has printed on the two
channels, and the files.
-/

namespace Redstone.Command

/-- Something printed for the user's attention: a log record, or a text. -/
inductive Notice where
  | record (r : LogRecord)
  | text (b : Bytes)
deriving DecidableEq, Repr

/-- The bytes of a notice. -/
def Notice.bytes : Notice → Bytes
  | record r => Bytes.ofString (r.line ++ "\n")
  | text b => b

/-- A text on a line of its own. -/
def Notice.line (b : Bytes) : Notice :=
  .text (b ++ [Bytes.newline])

/-- A text with a line end, unless it has one already. -/
def Notice.terminated (b : Bytes) : Notice :=
  if b.getLast? = some Bytes.newline then .text b else .line b

/-- What a command leaves behind. -/
structure Transcript where
  exit : Nat := 0
  output : String := ""
  notices : List Notice := []
  files : Directory

namespace Transcript

/-- Prints a text. -/
def print (t : Transcript) (text : String) : Transcript :=
  { t with output := t.output ++ text }

/-- Adds the records of a log. -/
def addLog (t : Transcript) (log : Log) : Transcript :=
  { t with notices := t.notices ++ log.records.map .record }

/-- Adds a message and ends with the given exit code. -/
def fail (t : Transcript) (exit : Nat) (message : Bytes) : Transcript :=
  { t with exit, notices := t.notices ++ [.terminated message] }

/-- A command whose arguments are not accepted.  Asking for help is no error. -/
def refused (files : Directory) : Refusal → Transcript
  | .help => { files }
  | .error e => { exit := 2, notices := [.line (Bytes.ofString e.message)], files }

end Transcript

end Redstone.Command
