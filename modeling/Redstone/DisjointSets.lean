/-!
# Disjoint sets

A partition of the numbers below a bound, kept as a forest of parent pointers.
Each tree is one class and its root names the class.  Looking for a root lets
every second element on the way skip its parent, and joining hangs the tree of
smaller rank below the other.
-/

namespace Redstone

/-- A forest of parent pointers, with the ranks of its roots. -/
structure DisjointSets where
  parent : Array Nat
  rank : Array Nat
deriving DecidableEq, Repr

namespace DisjointSets

/-- Every number below `n` in a class of its own. -/
def discrete (n : Nat) : DisjointSets where
  parent := Array.range n
  rank := Array.replicate n 0

/-- The number of elements. -/
def size (s : DisjointSets) : Nat :=
  s.parent.size

/-- The parent of an element.  A root is its own parent. -/
def parentOf (s : DisjointSets) (x : Nat) : Nat :=
  s.parent.getD x x

/-- The rank of an element. -/
def rankOf (s : DisjointSets) (x : Nat) : Nat :=
  s.rank.getD x 0

/-- Hangs an element below another one. -/
def hang (s : DisjointSets) (x below : Nat) : DisjointSets :=
  { s with parent := s.parent.setIfInBounds x below }

/-- Raises the rank of an element by one. -/
def promote (s : DisjointSets) (x : Nat) : DisjointSets :=
  { s with rank := s.rank.setIfInBounds x (s.rankOf x + 1) }

/-- Climbs towards the root for at most the given number of steps, hanging each
visited element below its grandparent. -/
def climb : Nat → DisjointSets → Nat → Nat × DisjointSets
  | 0, s, x => (x, s)
  | fuel + 1, s, x =>
      if s.parentOf x = x then (x, s)
      else
        let grandparent := s.parentOf (s.parentOf x)
        climb fuel (s.hang x grandparent) grandparent

/-- The root of an element, and the forest with the shortened path. -/
def find (s : DisjointSets) (x : Nat) : Nat × DisjointSets :=
  climb s.size s x

/-- The root of an element. -/
def root (s : DisjointSets) (x : Nat) : Nat :=
  (s.find x).1

/-- Joins the trees of two roots.  The root of smaller rank is hung below the
other; of two equal ranks the first root stays and rises. -/
def joinRoots (s : DisjointSets) (a b : Nat) : DisjointSets :=
  if a = b then s
  else if s.rankOf a < s.rankOf b then s.hang a b
  else if s.rankOf b < s.rankOf a then s.hang b a
  else (s.hang b a).promote a

/-- Joins the classes of two elements. -/
def union (s : DisjointSets) (a b : Nat) : DisjointSets :=
  let (ra, s) := s.find a
  let (rb, s) := s.find b
  s.joinRoots ra rb

end DisjointSets

end Redstone
