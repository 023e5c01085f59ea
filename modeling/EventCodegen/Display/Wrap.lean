import EventCodegen.Text.Blank
import EventCodegen.Text.Lines
import EventCodegen.Text.Width

/-! Text broken into lines that fit the display. A line is broken before a word that no longer fits,
and only a word that is too long for any line is broken itself. -/
namespace EventCodegen.Display

/-- A line with spaces in the place of tabs: each leads to the next column that `size` divides.
`columns` says how far a character leads. -/
def expandTabs (size : Nat) (columns : Char → Nat) (column : Nat) : List Char → List Char
  | [] => []
  | c :: rest =>
    if c = '\t' then
      List.replicate (size - column % size) ' ' ++
        expandTabs size columns (column + (size - column % size)) rest
    else c :: expandTabs size columns (column + columns c) rest

/-- The words of a line, each with the blanks after it, and the first also with those before it. -/
def words (line : List Char) : List (List Char) :=
  match line.splitBy (fun a b => !Text.isBlank a || Text.isBlank b) with
  | first :: second :: rest =>
    if first.all Text.isBlank then (first ++ second) :: rest else first :: second :: rest
  | short => short

/-- A word cut into parts of at most so many columns. `part` is the part at hand, in reverse order,
and `used` its columns. -/
def chop (columns : Nat) (part : List Char) (used : Nat) : List Char → List (List Char)
  | [] => [part.reverse]
  | c :: rest =>
    if used + Text.charWidth c > columns then
      part.reverse :: chop columns [c] (Text.charWidth c) rest
    else chop columns (c :: part) (used + Text.charWidth c) rest

/-- Lines for some words. `line` is the line at hand. -/
def fill (columns : Nat) (line : List Char) : List (List Char) → List (List Char)
  | [] => [line]
  | word :: rest =>
    let needed := Text.width (Text.trimRight word)
    if Text.width line + needed ≤ columns then fill columns (line ++ word) rest
    else if needed > columns then
      let parts := chop columns [] 0 word
      let before := if line.isEmpty then [] else [line]
      before ++ parts.dropLast ++ fill columns (parts.getLastD []) rest
    else line :: fill columns word rest

/-- A line without blanks beyond the edge, and without anything else there. -/
def crop (columns : Nat) (line : List Char) : List Char :=
  let blanks := line.length - (Text.trimRight line).length
  let kept := line.take (line.length - min blanks (line.length - columns))
  if Text.width kept ≤ columns then kept else Text.fit columns kept

/-- How far apart the tab stops of the display are. -/
def tabStop : Nat := 8

/-- The lines of one line of a text. -/
def wrapLine (columns : Nat) (line : List Char) : List (List Char) :=
  let line := expandTabs tabStop Text.charWidth 0 line
  (fill columns [] (words line)).map (crop columns)

/-- A text as it is shown, with a line feed after each line. -/
def paragraph (columns : Nat) (s : List Char) : String :=
  String.ofList (((Text.lines s).flatMap (wrapLine columns)).flatMap (· ++ ['\n']))

/-- A line in the middle of so many columns; a space that cannot be shared out goes to the right. -/
def centred (columns : Nat) (line : List Char) : List Char :=
  Text.fit columns (List.replicate ((columns - Text.width line) / 2) ' ' ++ line)

end EventCodegen.Display
