import QuadAsm.Text.Directive
import QuadAsm.Text.Words

/-!
# Tables

Tables drawn with `+`, `-` and `|`. Columns are as wide as their widest line. A column whose cells
are all numbers is set to the right, others to the left. Main definition: `Table.text`.
-/

namespace QuadAsm.Text

open Utf8 (Piece)

/-- A cell of a table. -/
structure Cell where
  text : Bytes
  isNumber : Bool := false
  deriving DecidableEq, Repr, Inhabited

/-- A table. Every row has as many cells as the header. -/
structure Table where
  /-- The title, as a template for which no values are given. -/
  title : Bytes := []
  header : List Bytes
  rows : List (List Cell) := []
  footer : List Bytes := []
  deriving DecidableEq, Repr, Inhabited

/-- A column as it is drawn. -/
structure Column where
  width : Nat
  toRight : Bool
  deriving DecidableEq, Repr

/-- The letters `a` to `z` in upper case; headers and footers have no others. -/
def upperCase (text : Bytes) : Bytes :=
  text.map fun b => if 0x61 ≤ b && b ≤ 0x7A then b - 0x20 else b

/-- A line with blanks up to the width of the column. -/
def Column.pad (c : Column) (line : List Piece) : Bytes :=
  let isBlank (p : Piece) := p == blankPiece
  let kept :=
    if c.toRight then line.dropWhile isBlank
    else (line.reverse.dropWhile isBlank).reverse
  let fill := Bytes.blanks (c.width - displayWidth kept)
  if c.toRight then fill ++ bytesOf kept else bytesOf kept ++ fill

/-- A cell with the bar behind it. -/
def drawCell (cell : Bytes) : Bytes := " " ++ cell ++ " |"

/-- One line of a table. -/
def drawLine (cells : List Bytes) : Bytes := "|" ++ cells.flatMap drawCell ++ "\n"

/-- A row of a table. Its height is that of its highest cell; other cells are blank below. -/
def drawRow (columns : List Column) (cells : List (List Piece)) : Bytes :=
  let filled := (columns.zip cells).map fun (c, text) => (c, lines text)
  let height := (filled.map (·.2.length)).foldl max 1
  (List.range height).flatMap fun i =>
    drawLine (filled.map fun (c, ls) => c.pad (ls.getD i []))

/-- The rule below a column. -/
def Column.rule (c : Column) : Bytes := List.replicate (c.width + 2) (Bytes.code '-') ++ "+"

/-- A rule between rows. -/
def drawRule (columns : List Column) : Bytes := "+" ++ columns.flatMap Column.rule ++ "\n"

namespace Table

variable (t : Table)

/-- The texts of the header. -/
def headerTexts : List (List Piece) := t.header.map fun h => cellText (upperCase h)

/-- The texts of the footer. -/
def footerTexts : List (List Piece) := t.footer.map fun f => cellText (upperCase f)

/-- The texts of the rows. -/
def rowTexts : List (List (List Piece)) := t.rows.map fun row => row.map fun c => cellText c.text

/-- Column number `i`. -/
def column (i : Nat) : Column where
  width := ((t.headerTexts :: t.footerTexts :: t.rowTexts).map
    fun row => widest (row.getD i [])).foldl max 0
  toRight := t.rows.all fun row => (row[i]?.map (·.isNumber)).getD true

/-- The columns. -/
def columns : List Column := (List.range t.header.length).map t.column

/-- The title with the rule above it, set to the width of the table. -/
def drawTitle (columns : List Column) : Bytes :=
  let inner := columns.foldl (fun sum c => sum + (c.width + 3)) 0 - 3
  let column : Column := ⟨inner, false⟩
  if t.title.isEmpty then []
  else
    drawRule [column]
      ++ (wrap inner (expandTabs (Utf8.pieces (fill t.title)))).flatMap fun line =>
        drawLine [column.pad (trim line)]

/-- How a table is drawn. -/
def text : Bytes :=
  let columns := t.columns
  let rule := drawRule columns
  t.drawTitle columns ++ rule ++ drawRow columns t.headerTexts ++ rule
    ++ t.rowTexts.flatMap (drawRow columns)
    ++ (if t.footer.isEmpty then [] else rule ++ drawRow columns t.footerTexts) ++ rule

end Table

end QuadAsm.Text
