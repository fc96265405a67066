import Redstone.Files.Directory

/-!
# Output streams

A sink collects bytes and may refuse to hold more than a limit.  An output file
passes its bytes on in blocks: a full block is written as soon as more bytes
follow it, and the rest when the file is closed.  So two output files at one path
write over each other block by block.
-/

namespace Redstone

/-- A sink: what it holds, how much it can hold, and what it says when it
refuses. -/
structure Sink where
  limit : Option Int := none
  refusal : String := "disk full"
  contents : Bytes := []
deriving DecidableEq, Repr

/-- Adds bytes to a sink, if it can hold them all. -/
def Sink.write (s : Sink) (b : Bytes) : Except String Sink :=
  let contents := s.contents ++ b
  match s.limit with
  | some limit =>
      if limit < contents.length then .error s.refusal else .ok { s with contents }
  | none => .ok { s with contents }

/-- Writes bytes over the contents of a file from the given offset on; a gap before
the offset is filled with zeros. -/
def overwrite (contents : Bytes) (offset : Nat) (b : Bytes) : Bytes :=
  (contents ++ List.replicate (offset - contents.length) 0).take offset ++ b ++
    contents.drop (offset + b.length)

/-- Writes bytes into the file at a path from the given offset on. -/
def Directory.overwrite (d : Directory) (p : Path) (offset : Nat) (b : Bytes) : Directory :=
  let old := match d.entry? p with
    | some (.file contents) => contents
    | _ => []
  d.put p (.file (Redstone.overwrite old offset b))

/-- A file that is open for writing, and all that has been written to it. -/
structure OutputFile where
  path : Path
  written : Bytes := []
deriving DecidableEq, Repr

namespace OutputFile

/-- The length of a block. -/
def blockLength : Nat := 4096

/-- The number of bytes that have been passed on in full blocks. -/
def flushed (f : OutputFile) : Nat :=
  (f.written.length - 1) / blockLength * blockLength

/-- Creates a file and opens it for writing. -/
def create (d : Directory) (name : String) : Except FileError (Directory × OutputFile) :=
  (d.target name).map fun path => (d.put path (.file []), { path })

/-- Passes on the full blocks. -/
def flush (f : OutputFile) (d : Directory) : Directory :=
  if f.flushed = 0 then d else d.overwrite f.path 0 (f.written.take f.flushed)

/-- Passes on the rest. -/
def close (f : OutputFile) (d : Directory) : Directory :=
  if f.written.isEmpty then d else d.overwrite f.path f.flushed (f.written.drop f.flushed)

/-- The directory after the files have been written one after the other and closed
in the same order. -/
def finish (files : List OutputFile) (d : Directory) : Directory :=
  files.foldl (fun d f => f.close d) (files.foldl (fun d f => f.flush d) d)

end OutputFile

end Redstone
