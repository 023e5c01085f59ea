/-! A text as lines: every way to end a line read as a line feed, and the separators within one. -/
namespace EventCodegen.Text

/-- Reads a carriage return, with or without a line feed after it, as a line feed. -/
def unifyNewlines : List Char → List Char
  | [] => []
  | '\r' :: '\n' :: rest => '\n' :: unifyNewlines rest
  | c :: rest => (if c = '\r' then '\n' else c) :: unifyNewlines rest

/-- The lines between line feeds; a text without one is a single line. -/
def lines (s : List Char) : List (List Char) := s.splitOn '\n'

/-- Lines joined by line feeds. -/
def unlines (ls : List (List Char)) : List Char := List.intercalate ['\n'] ls

/-- A text without the characters `c` at its beginning and its end. -/
def stripChar (c : Char) (s : List Char) : List Char :=
  ((s.dropWhile (· == c)).reverse.dropWhile (· == c)).reverse

/-- The parts of a text between the characters `c`. -/
def parts (c : Char) (s : String) : List String := (s.toList.splitOn c).map String.ofList

/-- Whether a text occurs in another one. -/
def occurs (part : List Char) : List Char → Bool
  | [] => part.isEmpty
  | c :: rest => part.isPrefixOf (c :: rest) || occurs part rest

/-- Texts joined by `separator`. -/
def joined (separator : String) (texts : List String) : String := separator.intercalate texts

end EventCodegen.Text
