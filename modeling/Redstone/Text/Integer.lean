import Redstone.Text.Bytes

/-!
# Reading integers

Two notations are read.  Coordinates and block properties are plain decimal
numbers with an optional sign.  Command-line numbers are literals: they may also
be binary, octal or hexadecimal and may group their digits with underscores.
-/

namespace Redstone.Integer

/-- The value of an ASCII digit. -/
def digit? (c : UInt8) : Option Nat :=
  if 0x30 ≤ c && c ≤ 0x39 then some (c.toNat - 0x30) else none

/-- The number that a non-empty list of decimal digits writes. -/
def ofDigits? (b : Bytes) : Option Nat :=
  if b.isEmpty then none
  else b.foldlM (fun n c => (digit? c).map (n * 10 + ·)) 0

/-- The number that an optional sign and decimal digits write. -/
def ofDecimal? : Bytes → Option Int
  | 0x2B :: digits => (ofDigits? digits).map Int.ofNat
  | 0x2D :: digits => (ofDigits? digits).map fun n => -Int.ofNat n
  | digits => (ofDigits? digits).map Int.ofNat

/-- The number that the bytes write, if it lies between `lo` and `hi`. -/
def ofDecimalIn? (lo hi : Int) (b : Bytes) : Option Int :=
  (ofDecimal? b).filter fun v => lo ≤ v && v ≤ hi

/-- Why a literal is not read. -/
inductive LiteralError where
  | malformed
  | outOfRange
deriving DecidableEq, Repr

/-- The wording of a literal error. -/
def LiteralError.message : LiteralError → String
  | malformed => "parse error"
  | outOfRange => "value out of range"

/-- A letter is read in either case. -/
def lower (c : UInt8) : UInt8 :=
  c ||| 0x20

/-- The value of a digit or letter; letters count on from ten. -/
def alphanumeric? (c : UInt8) : Option Nat :=
  match digit? c with
  | some d => some d
  | none =>
      if 0x61 ≤ lower c && lower c ≤ 0x7A then some ((lower c).toNat - 0x61 + 10) else none

/-- The radix that a literal announces, and its digits. -/
def radix : Bytes → Nat × Bytes
  | 0x30 :: mark :: c :: rest =>
      if lower mark == 0x62 then (2, c :: rest)
      else if lower mark == 0x6F then (8, c :: rest)
      else if lower mark == 0x78 then (16, c :: rest)
      else (8, mark :: c :: rest)
  | 0x30 :: rest => (8, rest)
  | b => (10, b)

/-- Reads digits in the given radix; underscores are passed over.  The first
fault from the left counts: a digit that the radix lacks, or a value that 64 bits
cannot hold. -/
def magnitude (base : Nat) : Nat → Bytes → Except LiteralError Nat
  | n, [] => .ok n
  | n, c :: rest =>
      if c == 0x5F then magnitude base n rest
      else match alphanumeric? c with
        | none => .error .malformed
        | some d =>
            if base ≤ d then .error .malformed
            else if UInt64.size ≤ n * base + d then .error .outOfRange
            else magnitude base (n * base + d) rest

/-- What the last character was, when underscores are checked. -/
inductive Previous where
  | start
  | digit
  | underscore
  | other
deriving DecidableEq

/-- Every underscore stands between two digits. -/
def groupedFrom (hex : Bool) : Previous → Bytes → Bool
  | previous, [] => previous != .underscore
  | previous, c :: rest =>
      if (digit? c).isSome || (hex && 0x61 ≤ lower c && lower c ≤ 0x66) then
        groupedFrom hex .digit rest
      else if c == 0x5F then previous == .digit && groupedFrom hex .underscore rest
      else previous != .underscore && groupedFrom hex .other rest

/-- Underscores group digits properly; the mark of the radix counts as a digit. -/
def grouped : Bytes → Bool
  | 0x30 :: mark :: rest =>
      if lower mark == 0x62 || lower mark == 0x6F then groupedFrom false .digit rest
      else if lower mark == 0x78 then groupedFrom true .digit rest
      else groupedFrom false .start (0x30 :: mark :: rest)
  | b => groupedFrom false .start b

/-- The value of an unsigned literal. -/
def ofUnsigned (b : Bytes) : Except LiteralError Nat :=
  if b.isEmpty then .error .malformed
  else
    match magnitude (radix b).1 0 (radix b).2 with
    | .error e => .error e
    | .ok n => if b.contains 0x5F && !grouped b then .error .malformed else .ok n

/-- The value of a literal that has to fit in 64 bits with a sign. -/
def ofLiteral : Bytes → Except LiteralError Int
  | 0x2B :: b => (ofUnsigned b).bind (signed 1)
  | 0x2D :: b => (ofUnsigned b).bind (signed (-1))
  | b => (ofUnsigned b).bind (signed 1)
where
  /-- The signed value, if it is in range. -/
  signed (sign : Int) (n : Nat) : Except LiteralError Int :=
    if Int64.minValue.toInt ≤ sign * n && sign * n ≤ Int64.maxValue.toInt then .ok (sign * n)
    else .error .outOfRange

end Redstone.Integer
