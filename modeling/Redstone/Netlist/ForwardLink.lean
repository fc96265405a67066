import Redstone.Circuit.Basic

/-!
# Forward links

A forward link packs an outgoing link into one word: the target in the high 27
bits, then the flag for the side channel, then four bits of loss.
-/

namespace Redstone

/-- A packed outgoing link. -/
structure ForwardLink where
  word : UInt32
deriving DecidableEq, Repr, Inhabited

namespace ForwardLink

/-- The number of nodes that a forward link can tell apart. -/
def maxNodes : Nat := 0x8000000

/-- The flag for the side channel. -/
def sideFlag : UInt32 := 0x10

/-- Packs a link.  The high bits of the target and of the loss that do not fit are
lost. -/
def pack (target : UInt32) (side : Bool) (loss : UInt8) : ForwardLink where
  word := (target <<< 5) ||| (loss &&& 0xF).toUInt32 ||| (if side then sideFlag else 0)

/-- The node at the end of the link. -/
def target (l : ForwardLink) : UInt32 :=
  l.word >>> 5

/-- The link ends at the side channel. -/
def side (l : ForwardLink) : Bool :=
  l.word &&& sideFlag != 0

/-- The loss on the link. -/
def loss (l : ForwardLink) : UInt8 :=
  (l.word &&& 0xF).toUInt8

/-- The written form of a forward link. -/
def text (l : ForwardLink) : String :=
  "->" ++ toString l.target.toNat ++ ":" ++
    Link.labelText (if l.side then .side else .main) l.loss

end ForwardLink

end Redstone
