import Redstone.Command.Transcript
import Redstone.Compile
import Redstone.Netlist.Listing
import Redstone.Netlist.Settle
import Redstone.Text.Blank

/-!
# The command that compiles worlds

Every operand is a world file.  It is compiled, and on request its artifact and
its drawing are written beside it, its netlist is settled, and its outputs and
nodes are listed.  The first file that cannot be compiled ends the command.
-/

namespace Redstone.Command.Build

/-- The options of the command. -/
structure Options where
  optimize : Bool := true
  exports : Bool := false
  exportName : String := ""
  drawing : Bool := false
  listing : Bool := false
  rounds : Int := 0
  disabled : List String := []
  diagnostics : Bool := false
  verbose : Bool := false
deriving DecidableEq, Repr

/-- The flags of the command. -/
def flags : List Flag :=
  [ { name := "O", kind := .switch }
  , { name := "e", kind := .switch }
  , { name := "o", kind := .text }
  , { name := "dot", kind := .switch }
  , { name := "dump", kind := .switch }
  , { name := "settle", kind := .number }
  , { name := "disable", kind := .text }
  , { name := "d", kind := .switch }
  , { name := "v", kind := .switch } ]

/-- The names of a list with commas, without white space around them. -/
def passNames (list : String) : List String :=
  ((Bytes.ofString list).split (· == 0x2C)).filterMap fun name =>
    if (Bytes.trim name).isEmpty then none else (Bytes.trim name).toString?

/-- Takes the value of a flag. -/
def Options.set (o : Options) (assignment : String × FlagValue) : Options :=
  match assignment with
  | ("O", .switch b) => { o with optimize := b }
  | ("e", .switch b) => { o with exports := b }
  | ("o", .text name) => { o with exportName := name }
  | ("dot", .switch b) => { o with drawing := b }
  | ("dump", .switch b) => { o with listing := b }
  | ("settle", .number n) => { o with rounds := n }
  | ("disable", .text list) => { o with disabled := passNames list }
  | ("d", .switch b) => { o with diagnostics := b }
  | ("v", .switch b) => { o with verbose := b }
  | _ => o

/-- The options that the values of flags amount to; the last value of a flag
counts. -/
def Options.ofValues (values : List (String × FlagValue)) : Options :=
  values.foldl Options.set {}

/-- The settings of the compilations. -/
def Options.settings (o : Options) : Settings :=
  { Settings.default with
    verbose := o.verbose
    diagnostics := o.diagnostics
    optimize := o.optimize
    exports := o.exports
    disabled := o.disabled
    logger := some { verbose := o.verbose } }

/-- A file name with another ending, which is the part behind the last dot. -/
def withEnding (name ending : String) : String :=
  match name.toList.reverse.dropWhile (· != '.') with
  | [] => name ++ "." ++ ending
  | stem => String.ofList stem.reverse ++ ending

/-- The name of the artifact of a world file. -/
def Options.artifactName (o : Options) (name : String) : String :=
  if o.exportName.isEmpty then withEnding name "bin" else o.exportName

/-- The name of the drawing of a world file. -/
def drawingName (name : String) : String :=
  withEnding name "dot"

/-- The output files of a compilation. -/
structure Outputs where
  artifact : Option OutputFile := none
  drawing : Option OutputFile := none

/-- Creates a file if it is wanted. -/
def create (wanted : Bool) (d : Directory) (name : String) :
    Except FileError (Directory × Option OutputFile) :=
  if wanted then (OutputFile.create d name).map fun (d, f) => (d, some f) else .ok (d, none)

/-- Creates the output files for a world file.  An error comes with the directory
as it is then. -/
def Options.createOutputs (o : Options) (d : Directory) (name : String) :
    Except (FileError × Directory) (Directory × Outputs) :=
  match create o.exports d (o.artifactName name) with
  | .error e => .error (e, d)
  | .ok (d, artifact) =>
      match create o.drawing d (drawingName name) with
      | .error e => .error (e, d)
      | .ok (d, drawing) => .ok (d, { artifact, drawing })

/-- Writes what a compilation has exported and drawn. -/
def Outputs.write (out : Outputs) (c : Compilation) (d : Directory) : Directory :=
  let exported := (c.workspace.sink.map Sink.contents).getD []
  let artifact := out.artifact.map fun f => { f with written := exported }
  let drawing := out.drawing.map fun f => { f with written := Bytes.ofString c.drawing }
  OutputFile.finish (artifact.toList ++ drawing.toList) d

/-- The lines that list the outputs of a netlist with their strengths. -/
def outputLines (n : Netlist) : String :=
  String.join ((n.nodes.toList.filter fun node => node.isOutput).flatMap fun node =>
    node.blocks.map fun b =>
      b.position.text ++ "\t" ++ node.gate.text ++ "\t" ++
        toString node.state.strength.toNat ++ "\n")

/-- The text and the log of a netlist that is settled and listed as asked. -/
def Options.present (o : Options) (name : String) (n : Netlist) (log : Log) : String × Log :=
  let listed := fun (n : Netlist) => if o.listing then n.listing else ""
  if 0 < o.rounds then
    let (settled, steady) := n.settle o.rounds.toNat
    let log :=
      if steady then log
      else log.warn (name ++ ": no steady state in " ++ toString o.rounds ++ " rounds")
    (outputLines settled ++ listed settled, log)
  else (listed n, log)

/-- The log of a compilation, with a warning if it has been cancelled. -/
def finalLog (name : String) (c : Compilation) : Log :=
  match c.error with
  | some (.stopped .cancelled) =>
      c.workspace.log.warn
        (name ++ ": cancelled after " ++ toString c.workspace.monitor.completed ++ "/" ++
          toString c.workspace.monitor.total ++ " passes")
  | _ => c.workspace.log

/-- Prints the outcome of a compilation, which has a circuit. -/
def Options.print (o : Options) (name : String) (t : Transcript) (c : Compilation)
    (g : Circuit) : Transcript :=
  let t := t.print (c.report ++ name ++ ": " ++ g.summary ++ "\n")
  let log := finalLog name c
  if !o.listing && o.rounds ≤ 0 then t.addLog log
  else
    match g.flatten with
    | .error e => (t.addLog log).fail 1 (Bytes.ofString e.message)
    | .ok n =>
        let (text, log) := o.present name n log
        (t.print text).addLog log

/-- Prints the outcome of a compilation.  A cancelled compilation has a circuit all
the same. -/
def Options.conclude (o : Options) (name : String) (t : Transcript) (c : Compilation) :
    Transcript :=
  match c.error, c.circuit? with
  | none, some g => o.print name t c g
  | some (.stopped .cancelled), some g => o.print name t c g
  | some e, _ => (t.addLog (finalLog name c)).fail 1 e.message
  | none, none => t.addLog (finalLog name c)

/-- Compiles one file. -/
def buildFile {m : Type → Type} [Monad m] (now : m Instant) (o : Options) (name : String)
    (t : Transcript) : m Transcript := do
  if !World.isFileName name then
    return t.fail 1 (Bytes.ofString ("unknown file type '" ++ name ++ "'"))
  match o.createOutputs t.files name with
  | .error (e, files) => return { t with files }.fail 1 (Bytes.ofString e.message)
  | .ok (files, outputs) =>
      let w : Workspace :=
        { log := o.settings.log
          sink := outputs.artifact.map fun _ => {}
          files }
      let c ← Compile.file now o.settings name w
      return o.conclude name { t with files := outputs.write c files } c

/-- Compiles files one after the other until one fails. -/
def buildFiles {m : Type → Type} [Monad m] (now : m Instant) (o : Options) :
    List String → Transcript → m Transcript
  | [], t => pure t
  | name :: rest, t => do
      let t ← buildFile now o name t
      if t.exit = 0 then buildFiles now o rest t else return t

/-- Runs the command. -/
def run {m : Type → Type} [Monad m] (now : m Instant) (arguments : List String)
    (files : Directory) : m Transcript :=
  match parse flags arguments with
  | .error refusal => return .refused files refusal
  | .ok a =>
      let o := Options.ofValues a.values
      let t : Transcript := { files }
      if a.operands.isEmpty then return { t.print "no input files\n" with exit := 1 }
      else if !o.exportName.isEmpty && 1 < a.operands.length then
        return t.fail 1 (Bytes.ofString "-o requires a single input file")
      else buildFiles now o a.operands t

/-- The names of all files that the command may read or write. -/
def fileNames (arguments : List String) : List String :=
  match parse flags arguments with
  | .error _ => []
  | .ok a =>
      let o := Options.ofValues a.values
      a.operands.flatMap fun name => [name, o.artifactName name, drawingName name]

end Redstone.Command.Build
