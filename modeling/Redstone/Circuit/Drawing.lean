import Redstone.Circuit.Basic

/-!
# Drawings and listings of circuits

`drawing` describes a circuit in the dot language: nodes are boxes with gate and
strength, inputs stand at the top and outputs at the bottom, and side links are
dashed.  `listing` lists the nodes with the links that end at them.
-/

namespace Redstone.Circuit

/-- The style of a node: bold for inputs, filled for outputs. -/
def nodeStyle (n : Node) : String :=
  if n.isInput then ",style=bold" else if n.isOutput then ",style=filled" else ""

/-- The line that draws a node. -/
def drawNode (id : NodeId) (n : Node) : String :=
  "    " ++ NodeId.text id ++ "\t[label=\"" ++ n.gate.text ++ "\\n" ++
    toString n.state.strength.toNat ++ "\"" ++ nodeStyle n ++ "];\n"

/-- The line that puts nodes in one row. -/
def drawRank (rank : String) (ids : List NodeId) : String :=
  "  " ++ Text.inBraces
    ("  rank=" ++ rank ++ String.join (ids.map fun id => "; " ++ NodeId.text id) ++ ";") ++ "\n"

/-- The line that draws a link. -/
def drawLink (l : Link) : String :=
  "  " ++ NodeId.text l.source ++ " -> " ++ NodeId.text l.target ++ "\t[label=\"" ++
    toString l.loss.toNat ++ "\",style=" ++
    (if l.channel = .side then "dashed" else "solid") ++ "];\n"

/-- The drawing of a circuit. -/
def drawing (g : Circuit) : String :=
  let nodes := "\n    node [shape=box];\n" ++
    String.join (g.nodes.map fun (id, n) => drawNode id n) ++ "  "
  let body := "\n  overlap=scale;\n  node\t[fontname=\"Helvetica\"];\n" ++
    "  " ++ Text.inBraces nodes ++ "\n" ++
    drawRank "source" ((g.nodes.filter fun (_, n) => n.isInput).map Prod.fst) ++
    drawRank "sink" ((g.nodes.filter fun (_, n) => n.isOutput).map Prod.fst) ++
    String.join ((g.linkIds.filterMap g.link?).map drawLink)
  "digraph redstone\n" ++ Text.inBraces body ++ "\n"

/-- The listing of a node. -/
def listNode (g : Circuit) (id : NodeId) (n : Node) : String :=
  NodeId.text id ++ "\t" ++ n.text ++ "\n" ++
    String.join ((g.inLinks id).map fun l =>
      "\t<- " ++ NodeId.text l.source ++ " " ++ l.label ++ "\n")

/-- The listing of a circuit. -/
def listing (g : Circuit) : String :=
  "graph " ++ g.summary ++ "\n" ++ String.join (g.nodes.map fun (id, n) => g.listNode id n)

end Redstone.Circuit
