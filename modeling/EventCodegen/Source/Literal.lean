import EventCodegen.Target
import EventCodegen.Json.Printer

/-! String literals of the target languages. Both are in double quotes. -/
namespace EventCodegen.Source

/-- A character of a Kotlin literal. Besides quote, backslash and control characters the dollar
sign is escaped, which would start a template. -/
def kotlinChar (c : Char) : List Char :=
  if c = Text.doubleQuote ∨ c = Text.backslash ∨ c = '$' then [Text.backslash, c]
  else if c = '\n' then [Text.backslash, 'n']
  else if c = '\r' then [Text.backslash, 'r']
  else if c = '\t' then [Text.backslash, 't']
  else if c = Char.ofNat 8 then [Text.backslash, 'b']
  else if c.toNat < 0x20 then Text.backslash :: 'u' :: Text.hex 4 c.toNat
  else [c]

/-- A character of a literal. The escapes of JSON are also escapes of Python. -/
def literalChar : Target → Char → List Char
  | .python => Json.escapedChar
  | .kotlin => kotlinChar

/-- The characters of the literal for a text. -/
def literalChars (t : Target) (s : List Char) : List Char :=
  Text.doubleQuote :: s.flatMap (literalChar t) ++ [Text.doubleQuote]

/-- The literal for a text. -/
def literal (t : Target) (s : String) : String := String.ofList (literalChars t s.toList)

end EventCodegen.Source
