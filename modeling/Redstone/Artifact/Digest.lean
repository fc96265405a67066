import Redstone.Text.Bytes

/-!
# BLAKE2b-256

The unkeyed BLAKE2b hash function with 32 bytes of output.  The message is
absorbed in blocks of 128 bytes; each block is mixed into eight words of state in
twelve rounds.
-/

namespace Redstone.Blake2b

/-- The initialization vector. -/
def iv : Array UInt64 := #[
  0x6A09E667F3BCC908, 0xBB67AE8584CAA73B, 0x3C6EF372FE94F82B, 0xA54FF53A5F1D36F1,
  0x510E527FADE682D1, 0x9B05688C2B3E6C1F, 0x1F83D9ABFB41BD6B, 0x5BE0CD19137E2179]

/-- The order in which a round takes the words of a block. -/
def schedule : Array (Array Nat) := #[
  #[0, 1, 2, 3, 4, 5, 6, 7, 8, 9, 10, 11, 12, 13, 14, 15],
  #[14, 10, 4, 8, 9, 15, 13, 6, 1, 12, 0, 2, 11, 7, 5, 3],
  #[11, 8, 12, 0, 5, 2, 15, 13, 10, 14, 3, 6, 7, 1, 9, 4],
  #[7, 9, 3, 1, 13, 12, 11, 14, 2, 6, 5, 10, 4, 0, 15, 8],
  #[9, 0, 5, 7, 2, 4, 10, 15, 14, 1, 11, 12, 6, 8, 3, 13],
  #[2, 12, 6, 10, 0, 11, 8, 3, 4, 13, 7, 5, 15, 14, 1, 9],
  #[12, 5, 1, 15, 14, 13, 4, 10, 0, 7, 6, 3, 9, 2, 8, 11],
  #[13, 11, 7, 14, 12, 1, 3, 9, 5, 0, 15, 4, 8, 6, 2, 10],
  #[6, 15, 14, 9, 11, 3, 0, 8, 12, 2, 13, 7, 1, 4, 10, 5],
  #[10, 2, 8, 4, 7, 6, 1, 5, 15, 11, 9, 14, 3, 12, 13, 0]]

/-- The word at an index, zero beyond the end. -/
def word (v : Array UInt64) (i : Nat) : UInt64 :=
  v.getD i 0

/-- Turns a word to the right by `n` bits. -/
def rotate (x n : UInt64) : UInt64 :=
  (x >>> n) ||| (x <<< (64 - n))

/-- Mixes two words of a block into four words of the state. -/
def mix (v : Array UInt64) (a b c d : Nat) (x y : UInt64) : Array UInt64 :=
  let va := word v a + word v b + x
  let vd := rotate (word v d ^^^ va) 32
  let vc := word v c + vd
  let vb := rotate (word v b ^^^ vc) 24
  let va := va + vb + y
  let vd := rotate (vd ^^^ va) 16
  let vc := vc + vd
  let vb := rotate (vb ^^^ vc) 63
  (((v.setIfInBounds a va).setIfInBounds b vb).setIfInBounds c vc).setIfInBounds d vd

/-- The words that are mixed together in a round: columns, then diagonals. -/
def quadruples : List (Nat × Nat × Nat × Nat) :=
  [ (0, 4, 8, 12), (1, 5, 9, 13), (2, 6, 10, 14), (3, 7, 11, 15)
  , (0, 5, 10, 15), (1, 6, 11, 12), (2, 7, 8, 13), (3, 4, 9, 14) ]

/-- One round. -/
def mixRound (m v : Array UInt64) (round : Nat) : Array UInt64 :=
  let order := schedule.getD (round % 10) #[]
  quadruples.zipIdx.foldl
    (fun v ((a, b, c, d), k) =>
      mix v a b c d (word m (order.getD (2 * k) 0)) (word m (order.getD (2 * k + 1) 0)))
    v

/-- The number that up to eight bytes write, lowest byte first. -/
def littleEndian (b : Bytes) : UInt64 :=
  b.foldr (fun byte n => (n <<< 8) ||| byte.toUInt64) 0

/-- The sixteen words of a block; a short block is filled up with zeros. -/
def blockWords (b : Bytes) : Array UInt64 :=
  ((List.range 16).map fun i => littleEndian ((b.drop (8 * i)).take 8)).toArray

/-- Mixes a block into the state.  `count` is the number of message bytes up to
the end of the block, and `last` tells the last block from the others. -/
def compress (h : Array UInt64) (block : Bytes) (count : Nat) (last : Bool) : Array UInt64 :=
  let v := h ++ iv
  let v := v.setIfInBounds 12 (word v 12 ^^^ UInt64.ofNat count)
  let v := v.setIfInBounds 13 (word v 13 ^^^ UInt64.ofNat (count / UInt64.size))
  let v := if last then v.setIfInBounds 14 (word v 14 ^^^ 0xFFFFFFFFFFFFFFFF) else v
  let v := (List.range 12).foldl (mixRound (blockWords block)) v
  h.mapIdx fun i x => x ^^^ word v i ^^^ word v (i + 8)

/-- The length of a block in bytes. -/
def blockLength : Nat := 128

/-- Absorbs a message behind `count` bytes that have been absorbed before. -/
def absorb (h : Array UInt64) (count : Nat) (message : Bytes) : Array UInt64 :=
  match hrest : message.drop blockLength with
  | [] => compress h message (count + message.length) true
  | next :: rest =>
      have hshorter : (next :: rest).length < message.length := by
        have hlength := congrArg List.length hrest
        simp only [List.length_drop, List.length_cons, blockLength] at hlength ⊢
        omega
      absorb (compress h (message.take blockLength) (count + blockLength) false)
        (count + blockLength) (next :: rest)
termination_by message.length

/-- The eight bytes of a word, lowest byte first. -/
def wordBytes (x : UInt64) : Bytes :=
  (List.range 8).map fun i => (x >>> UInt64.ofNat (8 * i)).toUInt8

/-- The length of the digest in bytes. -/
def digestLength : Nat := 32

/-- The state before the first block. -/
def initial : Array UInt64 :=
  iv.setIfInBounds 0 (word iv 0 ^^^ 0x01010000 ^^^ UInt64.ofNat digestLength)

/-- The BLAKE2b-256 digest of a message. -/
def digest (message : Bytes) : Bytes :=
  ((absorb initial 0 message).toList.flatMap wordBytes).take digestLength

end Redstone.Blake2b
