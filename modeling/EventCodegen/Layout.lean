import EventCodegen.Json.Basic
import EventCodegen.Text.Blank
import EventCodegen.Text.Lines

/-! The layout of generated text: no blanks at the end of a line, no more than two empty lines in a
row and none at either end, one line feed at the very end, and indentation in steps of any width. -/
namespace EventCodegen

/-- The width of one step of indentation. A setting that is no whole number is `unusable`: lines
cannot be laid out with it. -/
inductive Indent
  | spaces (n : Int)
  | unusable
deriving DecidableEq, Repr

namespace Indent

/-- The width that leaves lines as they are written. -/
def standard : Indent := .spaces 4

/-- The width that a setting stands for. A truth value counts as one or zero, and the
floating-point number four is as good as the whole one. -/
def ofJson : Json → Indent
  | .int n => .spaces n
  | .bool b => .spaces (if b then 1 else 0)
  | .float x => if x.equalsNat 4 then standard else .unusable
  | _ => .unusable

end Indent

namespace Layout

/-- Keeps at most two empty lines in a row; `before` empty lines stand right before these. -/
def squeeze (before : Nat) : List (List Char) → List (List Char)
  | [] => []
  | [] :: rest => if before < 2 then [] :: squeeze (before + 1) rest else squeeze (before + 1) rest
  | (c :: cs) :: rest => (c :: cs) :: squeeze 0 rest

/-- The number of spaces for `w` of them, where four make a step and a step becomes `n`. -/
def scaled (n : Int) (w : Nat) : Nat := ((w / 4 : Nat) * n + (w % 4 : Nat)).toNat

/-- A line with its leading spaces scaled. -/
def reindent (n : Int) (line : List Char) : List Char :=
  let content := line.dropWhile (· == ' ')
  List.replicate (scaled n (line.length - content.length)) ' ' ++ content

/-- The lines of a text without blanks at their ends and without superfluous empty ones. -/
def tidyLines (s : List Char) : List (List Char) := squeeze 0 ((Text.lines s).map Text.trimRight)

/-- Lines as a text that neither begins nor ends with an empty line, and ends in a line feed. -/
def close (ls : List (List Char)) : List Char := Text.stripChar '\n' (Text.unlines ls) ++ ['\n']

/-- Lays out a text with steps of `n` spaces. -/
def format (n : Int) (s : List Char) : List Char := close ((tidyLines s).map (reindent n))

/-- Lays out a text, if that can be done: without a usable width only empty lines can be. -/
def format? (indent : Indent) (s : List Char) : Option (List Char) :=
  match indent with
  | .spaces n => some (format n s)
  | .unusable => if (tidyLines s).all (·.isEmpty) then some (format 4 s) else none

example : format 4 "a  \n\n\n\n    b\n".toList = "a\n\n\n    b\n".toList := by decide
example : format 2 "a\n     b".toList = "a\n   b\n".toList := by decide

end Layout
end EventCodegen
