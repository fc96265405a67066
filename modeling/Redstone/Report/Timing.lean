import Redstone.Text.Duration
import Redstone.Text.Percentage
import Redstone.Text.Table

/-!
# Timing reports

A sample tells how long a pass took and how large the circuit was after it.  The
report is a table with the share of each pass in the total time.
-/

namespace Redstone

/-- An instant, in nanoseconds. -/
abbrev Instant := Int64

/-- A timing sample of one pass. -/
structure Sample where
  label : String
  start : Instant
  stop : Instant
  nodes : Int
  links : Int
deriving DecidableEq, Repr

/-- The time that the pass took. -/
def Sample.duration (s : Sample) : Duration :=
  .between s.start s.stop

namespace Timing

open Text

/-- The columns of the report. -/
def columns : List Column :=
  [ { title := "Pass", alignment := .left }
  , { title := "Time", alignment := .right }
  , { title := "%", alignment := .right }
  , { title := "Nodes", alignment := .right }
  , { title := "Links", alignment := .right } ]

/-- The total time of all samples. -/
def total (samples : List Sample) : Duration :=
  ⟨samples.foldl (fun t s => t + s.duration.nanoseconds) 0⟩

/-- The share of a duration in a total; nothing when there is no total to share. -/
def share (total d : Duration) : String :=
  if 0 < total.nanoseconds then percentage d.nanoseconds total.nanoseconds else ""

/-- The row of a sample. -/
def row (total : Duration) (s : Sample) : List Cell :=
  [ { text := s.label }
  , { text := s.duration.text }
  , { text := share total s.duration }
  , { text := toString s.nodes }
  , { text := toString s.links } ]

/-- The last row: the total time and the final size. -/
def totalRow (total : Duration) (last : Sample) : List Cell :=
  ["Total", total.text, "", toString last.nodes, toString last.links].map fun text =>
    { text, bold := true }

/-- The report of some samples; nothing when there are none. -/
def report (samples : List Sample) : String :=
  match samples.getLast? with
  | none => ""
  | some last =>
      let sum := total samples
      Table.draw { columns, rows := samples.map (row sum) ++ [totalRow sum last] }

end Timing

end Redstone
