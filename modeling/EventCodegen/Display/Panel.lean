import EventCodegen.Display.Table

/-! A text in a frame that takes the whole width of the display, with its title in the upper edge. -/
namespace EventCodegen.Display

/-- A text in a frame. The title is a marked text, the content is shown as it is. -/
structure Panel where
  title : String
  content : String
deriving Repr

namespace Panel

/-- How far apart the tab stops in a content are. -/
def tabStop : Nat := 4

/-- A title on one line with a space on either side. -/
def titleText (shown : List Char) : List Char :=
  let line := shown.map fun c => if c = '\n' then ' ' else c
  ' ' :: expandTabs Display.tabStop Text.charWidth 0 line ++ [' ']

/-- A title in the middle of so many columns of an edge. -/
def edge (columns : Nat) (title : List Char) : List Char :=
  let title := if Text.width title ≤ columns then title else Text.fit columns title
  let free := columns - Text.width title
  List.replicate (free / 2) Border.rounded.top.fill ++ title ++
    List.replicate (free - free / 2) Border.rounded.top.fill

/-- One line of a content within the frame. -/
def contentLine (columns : Nat) (line : List Char) : List Char :=
  let line := (expandTabs tabStop (fun _ => 1) 0 line).filter (!isLeftOut ·)
  Border.rounded.row.draw [' ' :: Text.fit (columns - 4) line ++ [' ']]

/-- The lines of a panel of so many columns, if its title can be shown. -/
def lines? (columns : Nat) (p : Panel) : Option (List (List Char)) := do
  let title ← shown? p.title
  let top := Border.rounded.top
  return [top.left :: top.fill :: edge (columns - 4) (titleText title) ++ [top.fill, top.right]] ++
    (Text.lines p.content.toList).map (contentLine columns) ++
    [Border.rounded.bottom.line [columns - 2]]

end Panel
end EventCodegen.Display
