import Redstone.Text.Blank
import Redstone.Text.Integer
import Redstone.World.Basic

/-!
# World files

A world file places one block a line: three coordinates, a material, and
properties as `key=value`.  A `#` starts a comment, and blank lines are passed
over.  Lines are read one after the other, so that a later line for a position
wins; the first line that cannot be read ends the reading.
-/

namespace Redstone.World

/-- The properties that a line can set. -/
inductive Property where
  | facing
  | delay
  | locked
  | powered
  | mode
  | power
  | instrument
  | note
deriving DecidableEq, Repr

namespace Property

/-- The properties that a line can set. -/
def all : List Property := [facing, delay, locked, powered, mode, power, instrument, note]

/-- The key of a property. -/
def key : Property → String
  | facing => "facing"
  | delay => "delay"
  | locked => "locked"
  | powered => "powered"
  | mode => "mode"
  | power => "power"
  | instrument => "instrument"
  | note => "note"

/-- The property with the given key. -/
def ofKey? (word : Bytes) : Option Property :=
  all.find? fun p => word.spells p.key

end Property

/-- Why a line is not read. -/
inductive LineError where
  | missingFields (fields : List Bytes)
  | badCoordinate (field : Bytes)
  | unknownMaterial (name : Bytes)
  | missingValue (field : Bytes)
  | unknownProperty (key : Bytes)
  | unknownDirection (value : Bytes)
  | badValue (property : Property) (value : Bytes)
  | badNumber (property : Property) (value : Bytes) (lo hi : Nat)
deriving DecidableEq, Repr

namespace LineError

/-- A part of a message between single quotes. -/
def quoted (b : Bytes) : Bytes :=
  Bytes.ofString "'" ++ b ++ Bytes.ofString "'"

/-- The fields of a line between brackets, with a space between two. -/
def bracketed (fields : List Bytes) : Bytes :=
  Bytes.ofString "[" ++ (Bytes.ofString " ").intercalate fields ++ Bytes.ofString "]"

/-- The wording of an error. -/
def message : LineError → Bytes
  | missingFields fields => Bytes.ofString "invalid block: " ++ bracketed fields
  | badCoordinate field => Bytes.ofString "invalid coordinate " ++ quoted field
  | unknownMaterial name => Bytes.ofString "unknown block type: " ++ name
  | missingValue field => Bytes.ofString "invalid property " ++ quoted field
  | unknownProperty key => Bytes.ofString "unknown property " ++ quoted key
  | unknownDirection value => Bytes.ofString "unknown direction: " ++ value
  | badValue property value =>
      Bytes.ofString ("invalid " ++ property.key ++ " ") ++ quoted value
  | badNumber property value lo hi =>
      Bytes.ofString ("invalid " ++ property.key ++ " ") ++ quoted value ++
        Bytes.ofString (": expected " ++ toString lo ++ "-" ++ toString hi)

end LineError

/-- Reads a number between `lo` and `hi`. -/
def readNumber (property : Property) (lo hi : Nat) (value : Bytes) : Except LineError UInt8 :=
  match Integer.ofDecimalIn? lo hi value with
  | some n => .ok (UInt8.ofNat n.toNat)
  | none => .error (.badNumber property value lo hi)

/-- Reads a truth value. -/
def readTruth (property : Property) (value : Bytes) : Except LineError Bool :=
  match Truth.ofBytes? value with
  | some b => .ok b
  | none => .error (.badValue property value)

/-- Reads a direction. -/
def readDirection (value : Bytes) : Except LineError Direction :=
  match Direction.ofName? value with
  | some d => .ok d
  | none => .error (.unknownDirection value)

/-- Reads the mode of a comparator; the result says whether it subtracts. -/
def readMode (value : Bytes) : Except LineError Bool :=
  if value.spells "compare" then .ok false
  else if value.spells "subtract" then .ok true
  else .error (.badValue .mode value)

/-- Gives a block the value of a property. -/
def setProperty (b : Block) (value : Bytes) : Property → Except LineError Block
  | .facing => (readDirection value).map fun d => { b with facing := d }
  | .delay => (readNumber .delay 1 4 value).map fun n => { b with delay := n }
  | .locked => (readTruth .locked value).map fun v => { b with locked := v }
  | .powered => (readTruth .powered value).map fun v => { b with powered := v }
  | .mode => (readMode value).map fun v => { b with subtract := v }
  | .power => (readNumber .power 0 15 value).map fun n => { b with power := n }
  | .instrument => (readNumber .instrument 0 31 value).map fun n => { b with instrument := n }
  | .note => (readNumber .note 0 24 value).map fun n => { b with note := n }

/-- The byte between the key and the value of a property. -/
def equalsSign : UInt8 := 0x3D

/-- Reads one `key=value` field; the first equals sign divides it. -/
def readProperty (b : Block) (field : Bytes) : Except LineError Block :=
  match field.dropWhile (· != equalsSign) with
  | [] => .error (.missingValue field)
  | _ :: value =>
      let key := field.takeWhile (· != equalsSign)
      match Property.ofKey? key with
      | none => .error (.unknownProperty key)
      | some property => setProperty b value property

/-- Reads a coordinate. -/
def readCoordinate (field : Bytes) : Except LineError Int32 :=
  match Integer.ofDecimalIn? Int32.minValue.toInt Int32.maxValue.toInt field with
  | some n => .ok (Int32.ofInt n)
  | none => .error (.badCoordinate field)

/-- Reads the fields of a line that places a block. -/
def readFields : List Bytes → Except LineError (Position × Block)
  | x :: y :: z :: name :: properties => do
      let x ← readCoordinate x
      let y ← readCoordinate y
      let z ← readCoordinate z
      match Material.ofName? name with
      | none => .error (.unknownMaterial name)
      | some m => do
          let b ← properties.foldlM readProperty (Block.placed m)
          return ({ x, y, z }, b)
  | fields => .error (.missingFields fields)

/-- The byte that starts a comment. -/
def numberSign : UInt8 := 0x23

/-- The part of a line that counts: no comment, no white space at the ends. -/
def content (line : Bytes) : Bytes :=
  Bytes.trim (line.takeWhile (· != numberSign))

/-- Reads a line.  A blank line places nothing. -/
def readLine (line : Bytes) : Except LineError (Option (Position × Block)) :=
  if (content line).isEmpty then .ok none
  else (readFields (content line).fields).map some

/-- An error, and the number of the line that has it. -/
structure ReadError where
  line : Nat
  cause : LineError
deriving DecidableEq, Repr

/-- The wording of an error in a source with the given name. -/
def ReadError.message (source : String) (e : ReadError) : Bytes :=
  Bytes.ofString (source ++ ":" ++ toString e.line ++ ": ") ++ e.cause.message

/-- Places the block of a line, if it has one. -/
def place (w : World) : Option (Position × Block) → World
  | none => w
  | some (p, b) => w.set p b

/-- Reads lines into a world; the first line has number `n`. -/
def readLines : Nat → World → List Bytes → Except ReadError World
  | _, w, [] => .ok w
  | n, w, line :: rest =>
      match readLine line with
      | .error cause => .error { line := n, cause }
      | .ok placement => readLines (n + 1) (w.place placement) rest

/-- Reads a world file. -/
def read (data : Bytes) : Except ReadError World :=
  readLines 1 empty data.lines

/-- World files are told by the end of their name. -/
def isFileName (name : String) : Bool :=
  (Bytes.ofString ".world").isSuffixOf (Bytes.ofString name)

end Redstone.World
