import Redstone.Text.Bytes

/-!
# Directories

A directory tree with files, as a value.  Names are paths with slashes; each part
but the last has to name a directory.  A name may lead out of the tree, to a
directory above its root or to the top of all absolute names; nothing is known to
be there until it is put there.  Every operation either succeeds or fails with the
operation, the name and the fault.
-/

namespace Redstone

/-- What stands at a path. -/
inductive Entry where
  | directory
  | file (contents : Bytes)
deriving DecidableEq, Repr

/-- The parts of a path from the root of the tree.  A path out of the tree starts
with the parts that lead up, or with the top of all absolute names. -/
abbrev Path := List String

/-- Why a file operation fails. -/
inductive Fault where
  | missing
  | isDirectory
  | notDirectory
  | alreadyThere
  | nameTooLong
  | badName
deriving DecidableEq, Repr

/-- The wording of a fault. -/
def Fault.message : Fault → String
  | missing => "no such file or directory"
  | isDirectory => "is a directory"
  | notDirectory => "not a directory"
  | alreadyThere => "file exists"
  | nameTooLong => "file name too long"
  | badName => "invalid argument"

/-- A failed file operation. -/
structure FileError where
  operation : String
  name : String
  fault : Fault
deriving DecidableEq, Repr

/-- The wording of a failed file operation. -/
def FileError.message (e : FileError) : String :=
  e.operation ++ " " ++ e.name ++ ": " ++ e.fault.message

/-- A directory tree: the entries below its root. -/
structure Directory where
  entries : List (Path × Entry)
deriving Repr

namespace Directory

/-- The tree without entries. -/
def empty : Directory where
  entries := []

/-- The first part of an absolute path. -/
def top : String := "/"

/-- The part that leads up. -/
def up : String := ".."

/-- The path is the root of the tree or a directory above it. -/
def isAbove (p : Path) : Bool :=
  p.all (· == up)

/-- The path of the directory that holds a path.  The top holds itself. -/
def parent (p : Path) : Path :=
  if p = [top] then p else if isAbove p then p ++ [up] else p.dropLast

/-- The path that a part of a name leads to. -/
def follow (p : Path) (part : String) : Path :=
  if part == "." then p else if part == up then parent p else p ++ [part]

/-- The entry at a path.  The root of the tree is a directory, and so are all that
stand above it and the top of all absolute paths. -/
def entry? (d : Directory) (p : Path) : Option Entry :=
  if isAbove p ∨ p = [top] then some .directory else d.entries.lookup p

/-- Puts an entry at a path. -/
def put (d : Directory) (p : Path) (e : Entry) : Directory where
  entries := (d.entries.filter fun old => old.1 != p) ++ [(p, e)]

/-- The parts of a name between slashes. -/
def relativeParts (name : String) : List String :=
  (name.toList.foldr
    (fun c acc =>
      if c == '/' then [] :: acc
      else match acc with
        | [] => [[c]]
        | part :: others => (c :: part) :: others)
    [[]]).filterMap fun part => if part.isEmpty then none else some (String.ofList part)

/-- The parts of a name; an absolute name starts at the top. -/
def parts (name : String) : List String :=
  if name.startsWith "/" then top :: relativeParts name else relativeParts name

/-- Follows the parts of a name from a path.  Every path on the way has to be a
directory. -/
def walk (d : Directory) : Path → List String → Except Fault Path
  | p, [] => .ok p
  | p, part :: rest =>
      match d.entry? p with
      | none => .error .missing
      | some (.file _) => .error .notDirectory
      | some .directory =>
          if 255 < part.utf8ByteSize then .error .nameTooLong
          else d.walk (follow p part) rest

/-- Why a name is refused as a whole. -/
def nameFault? (name : String) : Option Fault :=
  if name.toList.any fun c => c.toNat == 0 then some .badName
  else if name.isEmpty then some .missing
  else if 4096 ≤ name.utf8ByteSize then some .nameTooLong
  else none

/-- The path of a name. -/
def resolve (d : Directory) (name : String) : Except Fault Path :=
  match nameFault? name with
  | some fault => .error fault
  | none => d.walk [] (parts name)

/-- The path of the directory that a name stands in. -/
def resolveParent (d : Directory) (name : String) : Except Fault Path :=
  match nameFault? name with
  | some fault => .error fault
  | none => d.walk [] ((parts name).dropLast ++ ["."])

/-- The name can only be that of a directory. -/
def namesDirectory (name : String) : Bool :=
  name.endsWith "/"

/-- The contents of a file. -/
def read (d : Directory) (name : String) : Except FileError Bytes :=
  match d.resolve name with
  | .error fault => .error { operation := "open", name, fault }
  | .ok p =>
      match d.entry? p with
      | none => .error { operation := "open", name, fault := .missing }
      | some .directory => .error { operation := "read", name, fault := .isDirectory }
      | some (.file contents) =>
          if namesDirectory name then .error { operation := "open", name, fault := .notDirectory }
          else .ok contents

/-- The path at which a file with the given name can be written.  A name that can
only be that of a directory is refused whatever stands there. -/
def writablePath (d : Directory) (name : String) : Except Fault Path :=
  if namesDirectory name then
    match d.resolveParent name with
    | .error fault => .error fault
    | .ok _ => .error .isDirectory
  else
    match d.resolve name with
    | .error fault => .error fault
    | .ok p => if d.entry? p = some .directory then .error .isDirectory else .ok p

@[inherit_doc writablePath]
def target (d : Directory) (name : String) : Except FileError Path :=
  (d.writablePath name).mapError fun fault => { operation := "open", name, fault }

/-- Writes a file, in place of an old one if there is one. -/
def write (d : Directory) (name : String) (contents : Bytes) : Except FileError Directory :=
  (d.target name).map fun p => d.put p (.file contents)

/-- Makes a directory. -/
def makeDirectory (d : Directory) (name : String) : Except FileError Directory :=
  match d.resolve name with
  | .error fault => .error { operation := "mkdir", name, fault }
  | .ok p =>
      match d.entry? p with
      | none => .ok (d.put p .directory)
      | some _ => .error { operation := "mkdir", name, fault := .alreadyThere }

/-- The names right below the root, in increasing order. -/
def names (d : Directory) : List String :=
  (d.entries.filterMap fun (p, _) =>
    match p with
    | [name] => some name
    | _ => none).mergeSort fun a b => !decide (b < a)

end Directory

end Redstone
