import Redstone.Circuit.Basic
import Redstone.World.Basic
import Std.Data.ExtTreeSet

/-!
# What feeds a component

A feed is a position that sends a signal into a component, the channel on which
the signal arrives, and the strength that it has lost on its way.  Feeds are read
off the world alone: directly from a neighbour, through one solid block, or along
a network of wires.  On wires a signal loses one strength from each wire to the
next, so that the search spreads over the network level by level and stops after
fifteen levels.
-/

namespace Redstone.Survey

/-- The origin of a signal, the channel on which it arrives and its loss. -/
structure Feed where
  origin : Position
  channel : Channel
  loss : UInt8
deriving DecidableEq, Repr

/-- The block `b` at `p` puts out power into the neighbour `target`. -/
def emitsInto (p : Position) (b : Block) (target : Position) : Bool :=
  match b.material with
  | .repeater | .comparator => p.step b.facing == target
  | .torch => p.step b.facing != target
  | .lever | .button | .pressurePlate | .redstoneBlock => true
  | _ => false

/-- The block `b` at `p` powers the solid neighbour `target`. -/
def powersSolid (p : Position) (b : Block) (target : Position) : Bool :=
  match b.material with
  | .repeater | .comparator => p.step b.facing == target
  | .torch => b.facing != .up && p.step .up == target
  | .lever | .button | .pressurePlate => p.step b.facing == target
  | _ => false

/-- The wire at `p` powers the neighbour `target`: on its own layer, or below. -/
def wirePowers (p target : Position) : Bool :=
  target.y == p.y || target == p.step .down

/-- There is a wire at the position. -/
def isWire (w : World) (p : Position) : Bool :=
  (w.get p).material == .wire

/-- The neighbours of a wire that put out power into it. -/
def emitters (w : World) (p : Position) : List Position :=
  (Direction.all.map p.step).filter fun n => !isWire w n && emitsInto n (w.get n) p

/-- The wires that a wire is joined to: those beside it on its layer. -/
def joinedWires (w : World) (p : Position) : List Position :=
  ((Direction.all.filter Direction.isHorizontal).map p.step).filter (isWire w)

/-- The positions that a search has come to, and those of its newest level in the
order in which they were found. -/
structure Reached where
  visited : Std.ExtTreeSet Position Position.scanOrder
  level : List Position

/-- Comes to a position, unless the search has been there. -/
def Reached.visit (r : Reached) (p : Position) : Reached :=
  if r.visited.contains p then r
  else { visited := r.visited.insert p, level := r.level ++ [p] }

/-- The next level of a search. -/
def Reached.next (w : World) (r : Reached) : Reached :=
  (r.level.flatMap (joinedWires w)).foldl Reached.visit { r with level := [] }

/-- The feeds of a wire network, found level by level.  The first argument is the
number of levels that are left, the second the loss at the present level. -/
def networkFeeds (w : World) (channel : Channel) : Nat → UInt8 → Reached → List Feed
  | 0, _, _ => []
  | levels + 1, loss, reached =>
      (reached.level.flatMap (emitters w)).map (fun origin => { origin, channel, loss }) ++
        networkFeeds w channel levels (loss + 1) (reached.next w)

/-- The feeds that reach a component through the wire at `start`. -/
def wireFeeds (w : World) (channel : Channel) (start : Position) : List Feed :=
  networkFeeds w channel maxStrength.toNat 0
    { visited := Std.ExtTreeSet.empty.insert start, level := [start] }

/-- The feeds that reach a component at `p` through its solid neighbour `q`. -/
def solidFeeds (w : World) (channel : Channel) (p q : Position) : List Feed :=
  ((Direction.all.map q.step).filter (· != p)).flatMap fun n =>
    if isWire w n then
      if wirePowers n q then wireFeeds w channel n else []
    else if powersSolid n (w.get n) q then [{ origin := n, channel, loss := 0 }]
    else []

/-- The feeds that reach a component at `p` from its neighbour `q`. -/
def neighbourFeeds (w : World) (channel : Channel) (p q : Position) : List Feed :=
  match (w.get q).material with
  | .wire => if wirePowers q p then wireFeeds w channel q else []
  | .solid => solidFeeds w channel p q
  | _ => if emitsInto q (w.get q) p then [{ origin := q, channel, loss := 0 }] else []

/-- The neighbours at the sides of a diode: clockwise first. -/
def sides (p : Position) (facing : Direction) : List Position :=
  [p.step facing.clockwise, p.step facing.counterclockwise]

/-- The feed that locks a repeater at `p` from its side `q`: a diode. -/
def lockFeeds (w : World) (p q : Position) : List Feed :=
  if (w.get q).material.isDiode && emitsInto q (w.get q) p then
    [{ origin := q, channel := .side, loss := 0 }]
  else []

/-- The feeds of a comparator at `p` from its side `q`: diodes, blocks of redstone
and wires. -/
def comparedFeeds (w : World) (p q : Position) : List Feed :=
  match (w.get q).material with
  | .repeater | .comparator | .redstoneBlock =>
      if emitsInto q (w.get q) p then [{ origin := q, channel := .side, loss := 0 }] else []
  | .wire => wireFeeds w .side q
  | _ => []

/-- The feeds of the component at a position, in the order in which they are
linked. -/
def feeds (w : World) (p : Position) : List Feed :=
  let b := w.get p
  match b.material with
  | .repeater =>
      neighbourFeeds w .main p (p.step b.facing.opposite) ++
        (sides p b.facing).flatMap (lockFeeds w p)
  | .comparator =>
      neighbourFeeds w .main p (p.step b.facing.opposite) ++
        (sides p b.facing).flatMap (comparedFeeds w p)
  | .torch => neighbourFeeds w .main p (p.step b.facing)
  | .lamp | .trapdoor | .noteBlock =>
      (Direction.all.map p.step).flatMap (neighbourFeeds w .main p)
  | .wire => wireFeeds w .main p
  | _ => []

end Redstone.Survey
