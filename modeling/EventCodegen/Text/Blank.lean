import EventCodegen.Text.CodePoint

/-! White space in the wide sense of Unicode, and what is left of a line without it. -/
namespace EventCodegen.Text

/-- The white space of Unicode together with the four ASCII separators 1C to 1F. -/
def blankRanges : List (Nat × Nat) :=
  [(0x09, 0x0D), (0x1C, 0x20), (0x85, 0x85), (0xA0, 0xA0), (0x1680, 0x1680), (0x2000, 0x200A),
   (0x2028, 0x2029), (0x202F, 0x202F), (0x205F, 0x205F), (0x3000, 0x3000)]

/-- Whether a character is white space. -/
def isBlank (c : Char) : Bool := inRanges c.toNat blankRanges

/-- A line without the white space at its end. -/
def trimRight (s : List Char) : List Char := (s.reverse.dropWhile isBlank).reverse

/-- A text without the white space at its beginning. -/
def trimLeft (s : List Char) : List Char := s.dropWhile isBlank

/-- A text without the white space around it. -/
def trim (s : List Char) : List Char := trimLeft (trimRight s)

example : blankRanges.foldl (fun n r => n + (r.2 + 1 - r.1)) 0 = 29 := rfl

end EventCodegen.Text
