import Redstone.Command.Build
import Redstone.Command.Inspect

/-!
# The command line

The first argument chooses the command: `build` compiles worlds and `inspect`
shows artifacts.  The files that a command may use are loaded beforehand, the
command is run on them, and those that it has written are stored.
-/

namespace Redstone.Main

open Command

/-- What stands at a name outside, if anything. -/
def probe (name : String) : IO (Option Entry) := do
  try
    let contents ← IO.FS.readBinFile name
    return some (.file contents.data.toList)
  catch
    | .noFileOrDirectory .. => return none
    | .inappropriateType .. => return some .directory
    | .resourceVanished .. => return none
    | _ => return some .directory

/-- The name of a path. -/
def nameOf : Path → String
  | [] => "."
  | p => "/".intercalate (if p.head? = some Directory.top then "" :: p.tail else p)

/-- Loads what stands at a path. -/
def loadPath (d : Directory) (p : Path) : IO Directory := do
  match ← probe (nameOf p) with
  | some entry => return d.put p entry
  | none => return d

/-- The paths that the parts of a name lead to, one after the other. -/
def pathsOf (name : String) : List Path :=
  ((Directory.parts name).foldl
    (fun (p, paths) part => (Directory.follow p part, paths ++ [Directory.follow p part]))
    ([], [])).2

/-- Loads the files with the given names, and the directories on the way to them. -/
def load (names : List String) : IO Directory :=
  (names.flatMap pathsOf).foldlM loadPath .empty

/-- Stores the files that differ from those that were loaded. -/
def store (before after : Directory) : IO Unit :=
  after.entries.forM fun (p, entry) =>
    match entry with
    | .file contents =>
        if before.entry? p = some entry then return
        else IO.FS.writeBinFile (nameOf p) ⟨contents.toArray⟩
    | .directory => return

/-- Prints the transcript of a command and stores its files. -/
def finish (before : Directory) (t : Transcript) : IO UInt32 := do
  store before t.files
  (← IO.getStdout).putStr t.output
  (← IO.getStderr).write ⟨(t.notices.flatMap Notice.bytes).toArray⟩
  return UInt32.ofNat t.exit

/-- The present instant. -/
def now : IO Instant := do
  return Int64.ofNat (← IO.monoNanosNow)

/-- Runs a command on the files outside. -/
def run : List String → IO UInt32
  | "build" :: arguments => do
      let files ← load (Build.fileNames arguments)
      finish files (← Build.run now arguments files)
  | "inspect" :: arguments => do
      let files ← load (Inspect.fileNames arguments)
      finish files (Inspect.run arguments files)
  | _ => do
      (← IO.getStderr).putStrLn "usage: build [flags] file.world... | inspect [flags] artifact..."
      return 2

end Redstone.Main

/-- The entry point. -/
def main (arguments : List String) : IO UInt32 :=
  Redstone.Main.run arguments
