import Redstone.Artifact.Digest
import Redstone.Artifact.Format
import Redstone.Text.Quoted

/-!
# Reading artifacts

Records are taken from the front of the bytes one after the other.  Every number
is checked where it is read, so that a netlist that is read refers to its own
nodes only.  The digest has to be that of all bytes before it; bytes behind it
are not looked at.
-/

namespace Redstone.Artifact

/-- The bytes end where a record should start, or within a record. -/
inductive Shortage where
  | atStart
  | within
deriving DecidableEq, Repr

/-- The wording of a shortage. -/
def Shortage.message : Shortage → String
  | atStart => "EOF"
  | within => "unexpected EOF"

/-- The shortage of bytes that are fewer than a record needs. -/
def shortage (b : Bytes) : Shortage :=
  if b.isEmpty then .atStart else .within

/-- Why a node is not read. -/
inductive NodeError where
  | short (s : Shortage)
  | unknownType (code : UInt8)
  | excessiveStrength (strength : UInt8)
  | badInput (channel loss : UInt8) (source : UInt32)
  | badOutput (target : UInt32)
deriving DecidableEq, Repr

/-- The wording of a node error. -/
def NodeError.message : NodeError → String
  | short s => s.message
  | unknownType code => "invalid node type " ++ toString code.toNat
  | excessiveStrength strength => "invalid output strength " ++ toString strength.toNat
  | badInput channel loss source =>
      "invalid input " ++ Text.inBraces ("Type:" ++ toString channel.toNat ++
        " Weight:" ++ toString loss.toNat ++ " Source:" ++ toString source.toNat)
  | badOutput target => "invalid output " ++ toString target.toNat

/-- Why an artifact is not read. -/
inductive DecodeError where
  | shortHeader (s : Shortage)
  | badMagic (word : UInt32)
  | unknownVersion (version : UInt32)
  | tooManyNodes (count : UInt32)
  | node (index : Nat) (cause : NodeError)
  | shortDigest (s : Shortage)
  | wrongDigest
deriving DecidableEq, Repr

/-- The wording of a fault in the header. -/
def headerMessage (fault : String) : String :=
  "failed to read header: " ++ fault

/-- The wording of a decoding error. -/
def DecodeError.message : DecodeError → String
  | shortHeader s => headerMessage s.message
  | badMagic w => "invalid magic: " ++ Text.hex w.toNat
  | unknownVersion v => "unsupported version " ++ toString v.toNat
  | tooManyNodes count => "too many nodes: " ++ toString count.toNat
  | node index cause => "node " ++ toString index ++ ": " ++ cause.message
  | shortDigest s => "failed to read digest: " ++ s.message
  | wrongDigest => "digest mismatch"

/-- A decoder takes a value from the front of the bytes. -/
abbrev Decoder (α : Type) := Bytes → Except NodeError (α × Bytes)

/-- Takes a word. -/
def decodeWord : Decoder UInt32
  | a :: b :: c :: d :: rest => .ok (word a b c d, rest)
  | b => .error (.short (shortage b))

/-- Takes the given number of values. -/
def decodeMany {α : Type} (item : Decoder α) : Nat → Decoder (List α)
  | 0, b => .ok ([], b)
  | n + 1, b =>
      match item b with
      | .error e => .error e
      | .ok (x, rest) =>
          match decodeMany item n rest with
          | .error e => .error e
          | .ok (xs, rest) => .ok (x :: xs, rest)

/-- Takes a list behind its length. -/
def decodeList {α : Type} (item : Decoder α) : Decoder (List α) := fun b =>
  match decodeWord b with
  | .error e => .error e
  | .ok (count, rest) => decodeMany item count.toNat rest

/-- The coordinate that four bytes write. -/
def coordinate (a b c d : UInt8) : Int32 :=
  (word a b c d).toInt32

/-- Takes a block reference. -/
def decodeBlock : Decoder BlockRef
  | a₁ :: a₂ :: a₃ :: a₄ :: b₁ :: b₂ :: b₃ :: b₄ :: c₁ :: c₂ :: c₃ :: c₄ ::
      d₁ :: d₂ :: d₃ :: d₄ :: rest =>
      .ok
        ({ position :=
            { x := coordinate a₁ a₂ a₃ a₄
              y := coordinate b₁ b₂ b₃ b₄
              z := coordinate c₁ c₂ c₃ c₄ }
           id := word d₁ d₂ d₃ d₄ }, rest)
  | b => .error (.short (shortage b))

/-- Takes an input of a netlist with `count` nodes. -/
def decodeInput (count : UInt32) : Decoder NetInput
  | channel :: loss :: a :: b :: c :: d :: rest =>
      let source := word a b c d
      if Channel.side.code < channel || maxStrength < loss || count ≤ source then
        .error (.badInput channel loss source)
      else .ok ({ channel := .ofCode channel, loss, source }, rest)
  | b => .error (.short (shortage b))

/-- Takes an output of a netlist with `count` nodes. -/
def decodeOutput (count : UInt32) : Decoder UInt32 := fun b =>
  match decodeWord b with
  | .error e => .error e
  | .ok (target, rest) =>
      if count ≤ target then .error (.badOutput target) else .ok (target, rest)

/-- The fixed part of a node record: everything but its lists. -/
structure NodeHead where
  type : UInt8
  flags : UInt8
  delay : UInt8
  farInput : UInt8
  instrument : UInt8
  note : UInt8
  strength : UInt8
  blockCount : UInt32

/-- The node that a record describes, without its forward links. -/
def NodeHead.toNode (h : NodeHead) (blocks : List BlockRef) (inputs : List NetInput)
    (outputs : List UInt32) : NetNode :=
  let flags := Flags.ofByte h.flags
  { gate :=
      { type := .ofCode h.type
        delay := h.delay
        facingDiode := flags.facingDiode
        mode := if flags.subtract then .subtract else .compare
        farInput := h.farInput
        hasFarInput := flags.hasFarInput
        instrument := h.instrument
        note := h.note }
    blocks
    state := { powered := flags.powered, locked := flags.locked, strength := h.strength }
    isInput := flags.isInput
    isOutput := flags.isOutput
    inputs
    outputs }

/-- Takes the fixed part of a node record. -/
def decodeHead : Decoder NodeHead
  | type :: flags :: delay :: farInput :: instrument :: note :: strength ::
      a :: b :: c :: d :: rest =>
      if GateType.noteBlock.code < type then .error (.unknownType type)
      else if maxStrength < strength then .error (.excessiveStrength strength)
      else .ok
        ({ type, flags, delay, farInput, instrument, note, strength
           blockCount := word a b c d }, rest)
  | b => .error (.short (shortage b))

/-- Takes a node of a netlist with `count` nodes. -/
def decodeNode (count : UInt32) : Decoder NetNode := fun b => do
  let (head, b) ← decodeHead b
  let (blocks, b) ← decodeMany decodeBlock head.blockCount.toNat b
  let (inputs, b) ← decodeList (decodeInput count) b
  let (outputs, b) ← decodeList (decodeOutput count) b
  return (head.toNode blocks inputs outputs, b)

/-- Takes `n` nodes of a netlist with `count` nodes; the first one has number
`index`. -/
def decodeNodes (count : UInt32) : Nat → Nat → Bytes → Except DecodeError (List NetNode × Bytes)
  | 0, _, b => .ok ([], b)
  | n + 1, index, b =>
      match decodeNode count b with
      | .error cause => .error (.node index cause)
      | .ok (node, rest) =>
          match decodeNodes count n (index + 1) rest with
          | .error e => .error e
          | .ok (nodes, rest) => .ok (node :: nodes, rest)

/-- Takes the header, which gives the number of nodes. -/
def decodeHeader : Bytes → Except DecodeError (UInt32 × Bytes)
  | a₁ :: a₂ :: a₃ :: a₄ :: b₁ :: b₂ :: b₃ :: b₄ :: c₁ :: c₂ :: c₃ :: c₄ :: rest =>
      if word a₁ a₂ a₃ a₄ ≠ magic then .error (.badMagic (word a₁ a₂ a₃ a₄))
      else if word b₁ b₂ b₃ b₄ ≠ version then .error (.unknownVersion (word b₁ b₂ b₃ b₄))
      else if ForwardLink.maxNodes < (word c₁ c₂ c₃ c₄).toNat then
        .error (.tooManyNodes (word c₁ c₂ c₃ c₄))
      else .ok (word c₁ c₂ c₃ c₄, rest)
  | b => .error (.shortHeader (shortage b))

/-- Compares the bytes in front with the digest of those before. -/
def checkDigest (digest : Bytes → Bytes) (before rest : Bytes) : Except DecodeError Unit :=
  let found := rest.take Blake2b.digestLength
  if found.length < Blake2b.digestLength then .error (.shortDigest (shortage rest))
  else if found = digest before then .ok ()
  else .error .wrongDigest

/-- The netlist of an artifact with the given digest. -/
def decodeWith (digest : Bytes → Bytes) (b : Bytes) : Except DecodeError Netlist := do
  let (count, rest) ← decodeHeader b
  let (nodes, rest) ← decodeNodes count count.toNat 0 rest
  checkDigest digest (b.take (b.length - rest.length)) rest
  return Netlist.relink { nodes := nodes.toArray }

/-- The netlist of an artifact. -/
def decode (b : Bytes) : Except DecodeError Netlist :=
  decodeWith Blake2b.digest b

end Redstone.Artifact
