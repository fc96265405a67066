import Redstone.Artifact.Decode
import Redstone.Block.Id
import Redstone.Command.Transcript
import Redstone.Netlist.Listing
import Redstone.Netlist.Settle

/-!
# The command that shows artifacts

Every operand is an artifact.  Its netlist is summed up and listed, on request
after settling, and with the blocks of each node.  The first artifact that cannot
be read ends the command.
-/

namespace Redstone.Command.Inspect

/-- The options of the command. -/
structure Options where
  blocks : Bool := false
  summary : Bool := false
  rounds : Int := 0
deriving DecidableEq, Repr

/-- The flags of the command. -/
def flags : List Flag :=
  [ { name := "b", kind := .switch }
  , { name := "s", kind := .switch }
  , { name := "settle", kind := .number } ]

/-- Takes the value of a flag. -/
def Options.set (o : Options) (assignment : String × FlagValue) : Options :=
  match assignment with
  | ("b", .switch b) => { o with blocks := b }
  | ("s", .switch b) => { o with summary := b }
  | ("settle", .number n) => { o with rounds := n }
  | _ => o

/-- The options that the values of flags amount to; the last value of a flag
counts. -/
def Options.ofValues (values : List (String × FlagValue)) : Options :=
  values.foldl Options.set {}

/-- Why an artifact is not shown. -/
inductive InspectError where
  | unreadable (e : FileError)
  | undecodable (e : Artifact.DecodeError)
  | badBlock (index : Nat) (e : Block.IdError)
deriving DecidableEq, Repr

/-- The wording of an error.  A file that opens but cannot be read fails at its
header. -/
def InspectError.message : InspectError → String
  | unreadable e =>
      if e.operation == "read" then Artifact.headerMessage e.message else e.message
  | undecodable e => e.message
  | badBlock index e => "node " ++ toString index ++ ": " ++ e.message

/-- The netlist in a file. -/
def load (d : Directory) (name : String) : Except InspectError Netlist :=
  match d.read name with
  | .error e => .error (.unreadable e)
  | .ok data =>
      match Artifact.decode data with
      | .error e => .error (.undecodable e)
      | .ok n => .ok n

/-- All blocks of a netlist, each with the number of its node. -/
def blockRefs (n : Netlist) : List (Nat × BlockRef) :=
  n.nodes.toList.zipIdx.flatMap fun (node, index) => node.blocks.map (index, ·)

/-- Prints blocks, up to the first one that does not unpack. -/
def printBlocks : List (Nat × BlockRef) → Transcript → Transcript × Option InspectError
  | [], t => (t, none)
  | (index, ref) :: rest, t =>
      match Block.ofId ref.id with
      | .error e => (t, some (.badBlock index e))
      | .ok b =>
          printBlocks rest
            (t.print (toString index ++ "\t" ++ ref.position.text ++ "\t" ++ b.text ++ "\n"))

/-- Settles a netlist as asked.  The text says so if it has no steady state. -/
def Options.settle (o : Options) (name : String) (n : Netlist) : Netlist × String :=
  if 0 < o.rounds then
    let (settled, steady) := n.settle o.rounds.toNat
    (settled,
      if steady then ""
      else name ++ ": no steady state in " ++ toString o.rounds ++ " rounds\n")
  else (n, "")

/-- Shows a netlist. -/
def Options.display (o : Options) (name : String) (n : Netlist) (t : Transcript) :
    Transcript × Option InspectError :=
  let t := t.print (name ++ ": " ++ n.summary ++ "\n")
  if o.summary then (t, none)
  else
    let (n, remark) := o.settle name n
    let t := t.print (remark ++ n.listing)
    if o.blocks then printBlocks (blockRefs n) t else (t, none)

/-- Shows one artifact. -/
def inspectFile (o : Options) (name : String) (t : Transcript) : Transcript :=
  let (t, failure) :=
    match load t.files name with
    | .error e => (t, some e)
    | .ok n => o.display name n t
  match failure with
  | none => t
  | some e => t.fail 1 (Bytes.ofString (name ++ ": " ++ e.message))

/-- Shows artifacts one after the other until one fails. -/
def inspectFiles (o : Options) : List String → Transcript → Transcript
  | [], t => t
  | name :: rest, t =>
      let t := inspectFile o name t
      if t.exit = 0 then inspectFiles o rest t else t

/-- Runs the command. -/
def run (arguments : List String) (files : Directory) : Transcript :=
  match parse flags arguments with
  | .error refusal => .refused files refusal
  | .ok a =>
      let t : Transcript := { files }
      if a.operands.isEmpty then t.fail 1 (Bytes.ofString "no artifact files specified")
      else inspectFiles (Options.ofValues a.values) a.operands t

/-- The names of all files that the command may read. -/
def fileNames (arguments : List String) : List String :=
  match parse flags arguments with
  | .error _ => []
  | .ok a => a.operands

end Redstone.Command.Inspect
