/-!
# Tables

A table has a header and rows of cells, drawn with light box lines.  A column is
as wide as its widest line, header included; a cell with several lines is
centred vertically in its row.
-/

namespace Redstone.Text

/-- The side to which the contents of a column are moved. -/
inductive Alignment where
  | left
  | right
deriving DecidableEq, Repr

/-- A cell: its text, and whether it is set in bold. -/
structure Cell where
  text : String
  bold : Bool := false
deriving Repr

/-- A column: its title and alignment. -/
structure Column where
  title : String
  alignment : Alignment
deriving Repr

/-- A table: its columns and the rows below the header. -/
structure Table where
  columns : List Column
  rows : List (List Cell) := []

namespace Cell

/-- The pieces of a text between line ends. -/
def pieces (cs : List Char) : List (List Char) :=
  cs.foldr
    (fun c acc =>
      if c == '\n' then [] :: acc
      else match acc with
        | [] => [[c]]
        | piece :: others => (c :: piece) :: others)
    [[]]

/-- The lines of a cell.  Line ends at the end of the text do not count, and an
empty text has no lines. -/
def lines (cell : Cell) : List (List Char) :=
  match pieces (cell.text.toList.reverse.dropWhile (· == '\n')).reverse with
  | [[]] => []
  | ls => ls

/-- The number of characters of the longest line. -/
def width (cell : Cell) : Nat :=
  cell.lines.foldl (fun w line => max w line.length) 0

/-- Line number `index` of the cell in a row of the given height. -/
def lineAt (cell : Cell) (height index : Nat) : List Char :=
  let space := (height - cell.lines.length) / 2
  if index < space then [] else (cell.lines[index - space]?).getD []

/-- The switches between bold and plain characters. -/
def boldOn : String := "\x1b[1m"

@[inherit_doc boldOn] def boldOff : String := "\x1b[m"

/-- Line number `index` of the cell, padded to the width of its column, behind its
left border. -/
def draw (cell : Cell) (alignment : Alignment) (width height index : Nat) : String :=
  let content := cell.lineAt height index
  let padding := String.ofList (List.replicate (width - content.length) ' ')
  let shown :=
    if cell.bold then boldOn ++ String.ofList content ++ boldOff else String.ofList content
  match alignment with
  | .left => "│ " ++ shown ++ padding ++ " "
  | .right => "│ " ++ padding ++ shown ++ " "

end Cell

namespace Table

/-- The cells of the header. -/
def header (t : Table) : List Cell :=
  t.columns.map fun column => { text := column.title }

/-- The width of each column. -/
def widths (t : Table) : List Nat :=
  (t.header :: t.rows).foldl (fun ws row => List.zipWith (fun w c => max w c.width) ws row)
    (t.columns.map fun _ => 0)

/-- A horizontal line with the given ends and crossing. -/
def rule (widths : List Nat) (first crossing last : String) : String :=
  first ++
    crossing.intercalate (widths.map fun w => String.ofList (List.replicate (w + 2) '─')) ++
    last ++ "\n"

/-- One row of cells. -/
def drawRow (t : Table) (row : List Cell) : String :=
  let height := row.foldl (fun h c => max h c.lines.length) 0
  String.join ((List.range height).map fun index =>
    String.join ((t.columns.zip (t.widths.zip row)).map fun (column, width, cell) =>
      cell.draw column.alignment width height index) ++ "│\n")

/-- The drawn table.  Without rows the line below the header is left out. -/
def draw (t : Table) : String :=
  rule t.widths "┌" "┬" "┐" ++
    t.drawRow t.header ++
    (if t.rows.isEmpty then "" else rule t.widths "├" "┼" "┤") ++
    String.join (t.rows.map t.drawRow) ++
    rule t.widths "└" "┴" "┘"

end Table

end Redstone.Text
