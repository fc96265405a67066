import Redstone.Netlist.Basic
import Redstone.Text.Table

/-!
# Listings of netlists

A netlist is listed as a table with one row a node.
-/

namespace Redstone.Netlist

open Text

/-- The columns of the listing. -/
def listingColumns : List Column :=
  [ { title := "ID", alignment := .right }
  , { title := "Kind", alignment := .left }
  , { title := "I/O", alignment := .left }
  , { title := "SS", alignment := .right }
  , { title := "Blocks", alignment := .left }
  , { title := "Inputs", alignment := .left }
  , { title := "Links", alignment := .left } ]

/-- The row of a node. -/
def listingRow (index : Nat) (n : NetNode) : List Cell :=
  [ { text := toString index }
  , { text := n.gate.text }
  , { text := (if n.isInput then "I" else "") ++ (if n.isOutput then "O" else "") }
  , { text := toString n.state.strength.toNat }
  , { text := " ".intercalate (n.blocks.map fun b => b.position.text) }
  , { text := " ".intercalate (n.inputs.map NetInput.text) }
  , { text := " ".intercalate (n.links.map ForwardLink.text) } ]

/-- The listing of a netlist. -/
def listing (n : Netlist) : String :=
  Table.draw
    { columns := listingColumns
      rows := n.nodes.toList.zipIdx.map fun (node, index) => listingRow index node }

end Redstone.Netlist
