import EventCodegen.Settings.Basic

/-! What a run is warned about without being stopped: settings that look wrong, and parts of the plan
that lose something on the way. -/
namespace EventCodegen

inductive Warning
  | noDefaults (language : String)
  | badPackage (name : String) (segments : List String)
  | badIndent (shown : String)
  | emptyCategory (name : String)
  | noScreen (category event : String)
  | repeatedKeys (category event : String)
deriving DecidableEq, Repr

def Warning.message : Warning → String
  | noDefaults language => "No defaults for language: " ++ language
  | badPackage name segments =>
    "Invalid package name: " ++ name ++ " (bad segments: " ++
      Text.joined ", " (segments.map Text.quoted) ++ ")"
  | badIndent shown => "Invalid indent_size: " ++ shown
  | emptyCategory name => "Category '" ++ name ++ "' has no events"
  | noScreen category event =>
    "Event " ++ category ++ "." ++ event ++ " has no screen_name parameter"
  | repeatedKeys category event =>
    "Event " ++ category ++ "." ++ event ++ " repeats parameter keys, first occurrence is used"

namespace Settings

/-- A segment of a package: an identifier, after which one line feed is let pass. -/
def isSegment (s : List Char) : Bool :=
  Naming.isIdentifier s || (s.getLast? == some '\n' && Naming.isIdentifier s.dropLast)

/-- The segments of a package that are none. -/
def badSegments (package : String) : List String :=
  (Text.parts '.' package).filter (fun s => !isSegment s.toList)

/-- Warnings about the language: it should be one that has default settings. -/
def languageWarnings (language : Json) : Except Misuse (List Warning) :=
  match language with
  | .arr _ => .error .wrongType
  | .obj _ => .error .wrongType
  | x =>
    let known := match x.text? with
      | some name => languagesWithDefaults.contains name
      | none => false
    .ok (if known then [] else [.noDefaults x.display])

/-- Warnings about the package: every segment should be an identifier. -/
def packageWarnings (package : Json) : Except Misuse (List Warning) :=
  if !package.isGiven then .ok []
  else match package.text? with
    | none => .error .notText
    | some name =>
      .ok (if (badSegments name).isEmpty then [] else [.badPackage name (badSegments name)])

/-- Whether a number is below one; what is no number cannot be compared. -/
def belowOne? : Json → Option Bool
  | .int n => some (n < 1)
  | .bool b => some !b
  | .float x => some x.belowOne
  | _ => none

/-- Warnings about the width of indentation: it should be at least one. -/
def indentWarnings (indent : Json) : Except Misuse (List Warning) :=
  match belowOne? indent with
  | some below => .ok (if below then [.badIndent indent.display] else [])
  | none => .error .wrongType

/-- Warnings about settings. -/
def warnings (s : Settings) : Except Misuse (List Warning) := do
  let language ← languageWarnings s.language
  let package ← packageWarnings s.package
  let indent ← indentWarnings s.indentSize
  return language ++ package ++ indent

end Settings

/-- The keys of an event's parameters. -/
def Event.keys (e : Event) : List String := e.parameters.map (·.key)

/-- Warnings about an event: it should name its screen and no key twice. -/
def Event.warnings (category : String) (e : Event) : List Warning :=
  (if screenKey ∈ e.keys then [] else [.noScreen category e.name]) ++
  (if e.keys.Nodup then [] else [.repeatedKeys category e.name])

/-- Warnings about a category: it should have events, and they are looked at one by one. -/
def Category.warnings (c : Category) : List Warning :=
  (if c.events.isEmpty then [.emptyCategory c.name] else []) ++
    c.events.flatMap (Event.warnings c.name)

end EventCodegen
