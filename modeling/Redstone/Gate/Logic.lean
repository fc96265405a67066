import Redstone.Gate.Basic

/-!
# Gate logic

Signals have strengths up to fifteen and lose strength on their way.  A gate has
two inputs: the main input, and the side input of repeaters and comparators.
`fold` gives the output of a gate with fixed inputs once and for all; `settle` is
one evaluation step of a running circuit.
-/

namespace Redstone

/-- The strongest signal. -/
def maxStrength : UInt8 := 15

/-- What is left of a signal after a loss. -/
def attenuate (strength loss : UInt8) : UInt8 :=
  if strength ≤ loss then 0 else strength - loss

/-- The strengths at the two inputs of a gate. -/
structure Power where
  main : UInt8 := 0
  side : UInt8 := 0
deriving DecidableEq, Repr, Inhabited

/-- Full strength for a powered input, none otherwise. -/
def digital (on : Bool) : UInt8 :=
  if on then maxStrength else 0

namespace Gate

/-- What a comparator compares with its side input: its far input, unless it has
none or the main input is at full strength. -/
def effectiveMain (k : Gate) (main : UInt8) : UInt8 :=
  if k.hasFarInput && main < maxStrength then k.farInput else main

/-- The output of a comparator. -/
def comparatorOutput (k : Gate) (p : Power) : UInt8 :=
  let main := k.effectiveMain p.main
  match k.mode with
  | .subtract => if p.side < main then main - p.side else 0
  | _ => if p.side ≤ main then main else 0

/-- The output of a gate with constant inputs.  Only comparators, repeaters and
torches are computed; a locked repeater keeps its output. -/
def fold (k : Gate) (s : GateState) (p : Power) : Option UInt8 :=
  match k.type with
  | .comparator => some (k.comparatorOutput p)
  | .repeater => some (if s.locked then s.strength else digital (0 < p.main))
  | .torch => some (digital (p.main == 0))
  | _ => none

/-- The state that follows from the state of a gate and the power at its inputs.
Switches, constants and unknown gates keep their state. -/
def settle (k : Gate) (s : GateState) (p : Power) : GateState :=
  match k.type with
  | .repeater =>
      let strength := if 0 < p.side then s.strength else digital (0 < p.main)
      { powered := 0 < strength, locked := 0 < p.side, strength }
  | .comparator =>
      let strength := k.comparatorOutput p
      { s with powered := 0 < strength, strength }
  | .torch =>
      let strength := digital (p.main == 0)
      { s with powered := 0 < strength, strength }
  | .lamp | .trapdoor | .noteBlock | .wire =>
      { s with powered := 0 < p.main, strength := p.main }
  | _ => s

end Gate

end Redstone
