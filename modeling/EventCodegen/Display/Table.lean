import EventCodegen.Display.Markup
import EventCodegen.Display.Wrap

/-! Tables drawn with lines. Every column is as wide as its widest cell, with a space on either
side. -/
namespace EventCodegen.Display

/-- The characters of one line of a border: its left end, what fills a column, what stands between
two columns, and its right end. -/
structure Rule where
  left : Char
  fill : Char
  cross : Char
  right : Char
deriving DecidableEq, Repr

namespace Rule

/-- A line with given contents of the columns. -/
def draw (r : Rule) (cells : List (List Char)) : List Char :=
  r.left :: List.intercalate [r.cross] cells ++ [r.right]

/-- A line with nothing but its filling, for columns of the given widths. -/
def line (r : Rule) (widths : List Nat) : List Char :=
  r.draw (widths.map fun n => List.replicate n r.fill)

end Rule

/-- The lines around and within a table. -/
structure Border where
  top : Rule
  row : Rule
  headEnd : Rule
  bottom : Rule
deriving DecidableEq, Repr

namespace Border

/-- Lines all around with round corners. -/
def rounded : Border :=
  { top := ⟨'╭', '─', '┬', '╮'⟩
    row := ⟨'│', ' ', '│', '│'⟩
    headEnd := ⟨'├', '─', '┼', '┤'⟩
    bottom := ⟨'╰', '─', '┴', '╯'⟩ }

/-- A line below the head and none elsewhere. -/
def simple : Border :=
  { top := ⟨' ', ' ', ' ', ' '⟩
    row := ⟨' ', ' ', ' ', ' '⟩
    headEnd := ⟨' ', '─', '─', ' '⟩
    bottom := ⟨' ', ' ', ' ', ' '⟩ }

end Border

/-- A table. Its cells are marked texts. -/
structure Table where
  title : String
  border : Border
  head : List String
  rows : List (List String) := []
deriving Repr

namespace Table

/-- A cell as it is shown: its lines. -/
abbrev Cell := List (List Char)

/-- The lines of a cell for a marked text, if it can be shown. -/
def cell? (markup : String) : Option Cell := Text.lines <$> shown? markup

/-- Columns of a cell. -/
def cellWidth (c : Cell) : Nat := (c.map Text.width).foldl max 0

/-- The width of each column within its spaces, over all rows. -/
def widths (columns : Nat) (rows : List (List Cell)) : List Nat :=
  (List.range columns).map fun i => (rows.map fun row => cellWidth (row.getD i [])).foldl max 0

/-- The `i`-th line of a row. -/
def rowLine (border : Border) (widths : List Nat) (row : List Cell) (i : Nat) : List Char :=
  border.row.draw <| (row.zip widths).map fun (c, n) => ' ' :: Text.fit n (c.getD i []) ++ [' ']

/-- The lines of a row: as many as its highest cell has. -/
def rowLines (border : Border) (widths : List Nat) (row : List Cell) : List (List Char) :=
  (List.range ((row.map List.length).foldl max 0)).map (rowLine border widths row)

/-- The lines of a table with the given cells. -/
def linesOf (border : Border) (title : List Char) (head : List Cell) (rows : List (List Cell)) :
    List (List Char) :=
  let inner := widths head.length (head :: rows)
  let outer := inner.map (· + 2)
  let top := border.top.line outer
  [centred (Text.width top) title, top] ++
    rowLines border inner head ++ [border.headEnd.line outer] ++
    rows.flatMap (rowLines border inner) ++ [border.bottom.line outer]

/-- The lines of a table, if all its cells can be shown. -/
def lines? (t : Table) : Option (List (List Char)) := do
  let head ← t.head.mapM cell?
  let rows ← t.rows.mapM fun row => row.mapM cell?
  let title ← shown? t.title
  return linesOf t.border title head rows

end Table
end EventCodegen.Display
