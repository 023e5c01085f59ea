import EventCodegen.Text.Lines

/-! Paths as text and as parts. Empty parts and single dots have no meaning and are dropped; two dots
are kept. Exactly two slashes at the beginning are not the same as one, and more than two are. -/
namespace EventCodegen

/-- What a path starts from. -/
inductive Start
  | here
  | root
  | doubleRoot
deriving DecidableEq, Repr

/-- A path: where it starts and the names on the way. -/
structure Path where
  start : Start := .here
  parts : List String := []
deriving DecidableEq, Repr

namespace Path

/-- Where the text of a path starts, by the slashes at its beginning. -/
def startOf (s : List Char) : Start :=
  match (s.takeWhile (· == '/')).length with
  | 0 => .here
  | 2 => .doubleRoot
  | _ => .root

/-- Whether a part names something. -/
def isName (part : String) : Bool := part != "" && part != "."

/-- The path that a text writes. -/
def ofString (s : String) : Path := ⟨startOf s.toList, (Text.parts '/' s).filter isName⟩

def Start.text : Start → String
  | .here => ""
  | .root => "/"
  | .doubleRoot => "//"

/-- The text of a path. -/
def text (p : Path) : String :=
  if p.start = .here ∧ p.parts = [] then "." else Start.text p.start ++ Text.joined "/" p.parts

/-- A path taken from another one: it goes on from there unless it starts at a root. -/
def join (p q : Path) : Path :=
  match q.start with
  | .here => ⟨p.start, p.parts ++ q.parts⟩
  | _ => q

/-- The path of several texts, each taken from the one before it. -/
def ofStrings (texts : List String) : Path := texts.foldl (fun p s => p.join (ofString s)) {}

/-- The path without its last part. -/
def parent (p : Path) : Path := { p with parts := p.parts.dropLast }

/-- The last part, empty if there is none. -/
def name (p : Path) : String := p.parts.getLastD ""

/-- The path with `ending` added to its last part, if it has one. -/
def extended (p : Path) (ending : String) : Option Path :=
  if p.parts = [] then none else some { p with parts := p.parts.dropLast ++ [p.name ++ ending] }

/-- What a name ends in from its last dot on. A dot at either end of the name does not count. -/
def nameSuffix (name : List Char) : List Char :=
  let ending := (name.reverse.takeWhile (· != '.')).reverse
  if ending.isEmpty ∨ ending.length + 1 ≥ name.length then [] else '.' :: ending

/-- What the last part ends in from its last dot on. -/
def suffix (p : Path) : String := String.ofList (nameSuffix p.name.toList)

/-- Whether a path stays below where it is taken from. -/
def isBelow (p : Path) : Bool := p.start == .here && p.parts.all (· != "..")

end Path
end EventCodegen
