import Redstone.Text.Bytes

/-!
# Truth values

The words that are read as truth values, in world files and on the command line.
-/

namespace Redstone.Truth

/-- The words for true. -/
def affirmative : List String := ["1", "t", "T", "TRUE", "true", "True"]

/-- The words for false. -/
def negative : List String := ["0", "f", "F", "FALSE", "false", "False"]

/-- The truth value that a word stands for. -/
def ofBytes? (word : Bytes) : Option Bool :=
  if affirmative.any word.spells then some true
  else if negative.any word.spells then some false
  else none

/-- The word that is written for a truth value. -/
def text (b : Bool) : String :=
  if b then "true" else "false"

end Redstone.Truth
