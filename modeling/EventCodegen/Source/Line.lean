import EventCodegen.Source.Literal
import EventCodegen.Text.Lines

/-! Source text as lines. A line keeps the text that came from the plan apart from the code around
it: such text only ever appears as a literal, so no text can add code or end a line. -/
namespace EventCodegen.Source

/-- A part of a line: code as it is, or the literal for a text. -/
inductive Piece
  | code (s : String)
  | literal (raw : String)
deriving DecidableEq, Repr

/-- A line, indented by `level` steps. -/
structure Line where
  level : Nat := 0
  pieces : List Piece := []
deriving DecidableEq, Repr

/-- Spaces in one step of indentation, before the layout changes their number. -/
def step : Nat := 4

namespace Line

def blank : Line := {}

/-- A line of code alone. -/
def code (level : Nat) (s : String) : Line := ⟨level, [.code s]⟩

/-- A line with the literal for `raw` between two texts of code. -/
def around (level : Nat) (before raw after : String) : Line :=
  ⟨level, [.code before, .literal raw, .code after]⟩

/-- An argument of its own: the literal for `raw` and a comma. -/
def argument (level : Nat) (raw : String) : Line := ⟨level, [.literal raw, .code ","]⟩

/-- A line that holds a literal alone. -/
def literal (level : Nat) (raw : String) : Line := ⟨level, [.literal raw]⟩

end Line

/-- The characters of a piece in a language. -/
def Piece.render (t : Target) : Piece → List Char
  | code s => s.toList
  | literal raw => literalChars t raw.toList

/-- The characters of a line in a language. -/
def Line.render (t : Target) (l : Line) : List Char :=
  List.replicate (step * l.level) ' ' ++ l.pieces.flatMap (Piece.render t)

/-- The text of some lines. -/
def text (t : Target) (ls : List Line) : List Char := Text.unlines (ls.map (Line.render t))

/-- Some lines if a condition holds, else none. -/
def onlyIf (condition : Bool) (ls : List Line) : List Line := if condition then ls else []

end EventCodegen.Source
