/-!
# Durations

A duration is a number of nanoseconds.  Below a second it is written in the
largest unit that keeps it at least one; from a second on it is written in hours,
minutes and seconds.  Fractions have no zeros at their end.
-/

namespace Redstone

/-- A span of time, in nanoseconds. -/
structure Duration where
  nanoseconds : Int64
deriving DecidableEq, Repr, Inhabited

namespace Duration

/-- The decimal digits behind a point, without zeros at the end; nothing at all
for a zero fraction. -/
def fraction (places n : Nat) : String :=
  let digits := Nat.toDigits 10 n
  let padded := List.replicate (places - digits.length) '0' ++ digits
  match (padded.reverse.dropWhile (· == '0')).reverse with
  | [] => ""
  | shown => "." ++ String.ofList shown

/-- `n` units of `10 ^ places` parts, with the parts as a fraction. -/
def inUnits (places n : Nat) (unit : String) : String :=
  let parts := Nat.pow 10 places
  toString (n / parts) ++ (if places == 0 then "" else fraction places (n % parts)) ++ unit

/-- The nanoseconds of a microsecond. -/
def microsecond : Nat := 1000

/-- The nanoseconds of a millisecond. -/
def millisecond : Nat := 1000 * microsecond

/-- The nanoseconds of a second. -/
def second : Nat := 1000 * millisecond

/-- The text of a number of nanoseconds. -/
def magnitudeText (n : Nat) : String :=
  if n == 0 then "0s"
  else if n < microsecond then inUnits 0 n "ns"
  else if n < millisecond then inUnits 3 n "µs"
  else if n < second then inUnits 6 n "ms"
  else
    let seconds := n / second
    let minutes := seconds / 60
    let hours := minutes / 60
    let shown := inUnits 9 (seconds % 60 * second + n % second) "s"
    if minutes == 0 then shown
    else if hours == 0 then toString minutes ++ "m" ++ shown
    else toString hours ++ "h" ++ toString (minutes % 60) ++ "m" ++ shown

/-- The text of a duration. -/
def text (d : Duration) : String :=
  (if d.nanoseconds < 0 then "-" else "") ++ magnitudeText d.nanoseconds.toInt.natAbs

instance : ToString Duration := ⟨text⟩

/-- The time from one instant to another, both in nanoseconds.  A difference that
does not fit is cut off at the longest duration of its sign. -/
def between (start stop : Int64) : Duration :=
  ⟨Int64.ofIntClamp (stop.toInt - start.toInt)⟩

end Duration

end Redstone
