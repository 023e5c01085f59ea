import EventCodegen.Text.Case

/-! Names of the tracking plan turned into the styles of generated code. Words are separated by
underscores; a style only touches the first letter of a word (`pascal`, `camel`) or every letter
(`constant`), never the rest. -/
namespace EventCodegen

/-- The styles in which names are written; `asIs` leaves a name alone. -/
inductive NameStyle
  | pascal
  | camel
  | constant
  | asIs
deriving DecidableEq, Repr

namespace Naming

/-- A word with its first letter in capital form. -/
def capitalize : List Char → List Char
  | [] => []
  | c :: rest => Text.upperChar c ++ rest

/-- `user_profile` as `UserProfile`. -/
def pascalChars (s : List Char) : List Char := (s.splitOn '_').flatMap capitalize

/-- `user_id` as `userId`. -/
def camelChars (s : List Char) : List Char :=
  match s.splitOn '_' with
  | [] => []
  | first :: rest => first ++ rest.flatMap capitalize

/-- `Home Screen` as `HOME_SCREEN`. -/
def constantChars (s : List Char) : List Char :=
  (s.flatMap Text.upperChar).map fun c => if c = ' ' then '_' else c

/-- The small form without underscores, used as a part of a package. -/
def segmentChars (s : List Char) : List Char := (Text.lowerFrom false s).filter (· != '_')

/-- The characters of a name in the given style. -/
def styledChars : NameStyle → List Char → List Char
  | .pascal => pascalChars
  | .camel => camelChars
  | .constant => constantChars
  | .asIs => id

/-- A name in the given style. -/
def styled (style : NameStyle) (name : String) : String :=
  String.ofList (styledChars style name.toList)

/-- The part of a package that belongs to a category. -/
def segment (name : String) : String := String.ofList (segmentChars name.toList)

/-- A part of a package below a package, which may be empty. -/
def below (package part : String) : String :=
  if package.isEmpty then part else package ++ "." ++ part

/-- Characters that may stand in an identifier. -/
def isIdentifierChar (c : Char) : Bool :=
  ('A' ≤ c && c ≤ 'Z') || ('a' ≤ c && c ≤ 'z') || ('0' ≤ c && c ≤ '9') || c == '_'

def isDigit (c : Char) : Bool := '0' ≤ c && c ≤ '9'

/-- Every other character becomes an underscore, and one more stands before a first digit. -/
def cleanChars (s : List Char) : List Char :=
  let replaced := s.map fun c => if isIdentifierChar c then c else '_'
  match replaced with
  | [] => []
  | c :: rest => if isDigit c then '_' :: c :: rest else c :: rest

/-- An identifier for a name, `fallback` if nothing is left of it. -/
def clean (fallback name : String) : String :=
  match cleanChars name.toList with
  | [] => fallback
  | cleaned => String.ofList cleaned

/-- Whether a text is an ASCII identifier. -/
def isIdentifier (s : List Char) : Bool :=
  match s with
  | [] => false
  | c :: rest => isIdentifierChar c && !isDigit c && rest.all isIdentifierChar

end Naming
end EventCodegen
