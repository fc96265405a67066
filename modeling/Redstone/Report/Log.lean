import Redstone.Text.Quoted

/-!
# The log

A log collects records: a level, a message and named fields.  Records of the
debug level are kept by verbose logs only.  A record is written on one line, with
its fields in the order of their names; text that is not plain is quoted.
-/

namespace Redstone

/-- The level of a log record. -/
inductive LogLevel where
  | debug
  | info
  | warning
  | error
deriving DecidableEq, Repr

/-- The name of a level. -/
def LogLevel.name : LogLevel → String
  | debug => "debug"
  | info => "info"
  | warning => "warning"
  | error => "error"

/-- A log record. -/
structure LogRecord where
  level : LogLevel
  message : String
  fields : List (String × String) := []
deriving DecidableEq, Repr

namespace LogRecord

/-- The character stands in a value without quotes. -/
def isPlain (c : Char) : Bool :=
  c.isAlphanum || c == '-' || c == '.' || c == '_' || c == '/' || c == '@' || c == '^' || c == '+'

/-- A value: plain text as it is, any other text in quotes. -/
def value (s : String) : String :=
  if s.toList.all isPlain then s else Text.quote s

/-- The line of a record, without its end. -/
def line (r : LogRecord) : String :=
  "level=" ++ r.level.name ++
    (if r.message.isEmpty then "" else " msg=" ++ value r.message) ++
    String.join ((r.fields.mergeSort fun a b => !decide (b.1 < a.1)).map fun (name, text) =>
      " " ++ name ++ "=" ++ value text)

end LogRecord

/-- A log: the least level that it keeps, and its records. -/
structure Log where
  verbose : Bool
  records : List LogRecord := []
deriving DecidableEq, Repr

namespace Log

/-- The least level that the log keeps. -/
def level (log : Log) : LogLevel :=
  if log.verbose then .debug else .info

/-- Adds a record, if the log keeps records of its level. -/
def add (log : Log) (level : LogLevel) (message : String) (fields : List (String × String) := []) :
    Log :=
  if level = .debug && !log.verbose then log
  else { log with records := log.records ++ [{ level, message, fields }] }

/-- The lines of the log. -/
def lines (log : Log) : List String :=
  log.records.map LogRecord.line

/-- The whole text of the log. -/
def text (log : Log) : String :=
  String.join (log.lines.map (· ++ "\n"))

/-- A message without the line ends at its end. -/
def trimLineEnds (message : String) : String :=
  String.ofList (message.toList.reverse.dropWhile (· == '\n')).reverse

/-- The first line of a message.  A message that starts with a line end is left as
it is. -/
def firstLine (message : String) : String :=
  match message.toList.takeWhile (· != '\n') with
  | [] => message
  | line => String.ofList line

/-- Adds a warning. -/
def warn (log : Log) (message : String) : Log :=
  log.add .warning (trimLineEnds message)

/-- Adds an error. -/
def fail (log : Log) (message : String) : Log :=
  log.add .error (trimLineEnds message)

end Log

end Redstone
