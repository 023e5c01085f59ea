import EventCodegen.Failure
import EventCodegen.Target

/-! The settings of a run. They come from files and callers as JSON values and are kept as such: a
value of the wrong kind does no harm until it is used. -/
namespace EventCodegen

/-- The settings of a run. -/
structure Settings where
  planFile : Json := .null
  destination : Json := .text "generated"
  package : Json := .text "analytics.events"
  language : Json := .text "python"
  strictScreenName : Json := .bool false
  addComments : Json := .bool true
  indentSize : Json := .int 4
  custom : Json := .obj []
deriving Repr

namespace Settings

/-- The names under which settings are known, apart from the custom ones. -/
def names : List String :=
  ["schema_file", "destination_path", "package_name", "language", "strict_screen_name",
   "add_comments", "indent_size", "custom"]

/-- The name of the setting that holds the custom ones. -/
def customName : String := "custom"

/-- Whether a member of an object names a setting. -/
def isSetting : Json.Str → Bool
  | .text s => names.contains s
  | .broken _ _ _ => false

/-- The settings that some members give; what they do not give has its default. -/
def ofFields (fields : Json.Fields) : Settings :=
  let standard : Settings := {}
  let given (name : String) (default : Json) : Json := (Json.lookup name fields).getD default
  { planFile := given "schema_file" standard.planFile
    destination := given "destination_path" standard.destination
    package := given "package_name" standard.package
    language := given "language" standard.language
    strictScreenName := given "strict_screen_name" standard.strictScreenName
    addComments := given "add_comments" standard.addComments
    indentSize := given "indent_size" standard.indentSize
    custom := given customName standard.custom }

/-- The settings that some members give, all of which have to name one. -/
def ofFields? (fields : Json.Fields) : Except Failure Settings :=
  if fields.all (fun m => isSetting m.1) then .ok (ofFields fields)
  else .error (.misuse .wrongType)

/-- The settings as members, the custom ones left out. -/
def plainFields (s : Settings) : Json.Fields :=
  [("schema_file", s.planFile), ("destination_path", s.destination), ("package_name", s.package),
   ("language", s.language), ("strict_screen_name", s.strictScreenName),
   ("add_comments", s.addComments), ("indent_size", s.indentSize)]

/-- The settings as members. -/
def fields (s : Settings) : Json.Fields := s.plainFields ++ [(.text customName, s.custom)]

/-- The package as it is written in front of a part of it: empty if none is given. -/
def packageText (s : Settings) : String := if s.package.isGiven then s.package.display else ""

/-- Whether every event has to name its screen. -/
def isStrict (s : Settings) : Bool := s.strictScreenName.isGiven

/-- Whether generated files carry comments. -/
def hasComments (s : Settings) : Bool := s.addComments.isGiven

/-- The default settings of a language, as members. -/
def defaultsOf : Json.Str → Json.Fields
  | .text language => match Target.ofName? language with
    | some t => [("package_name", .text t.defaultPackage), ("indent_size", .int 4)]
    | none => []
  | .broken _ _ _ => []

/-- The languages that have default settings. -/
def languagesWithDefaults : List String := Target.all.map (·.name)

end Settings

/-- The name that a value is when it is used as the name of a member. -/
def Json.memberName? : Json → Option Json.Str
  | .str s => some s
  | .int n => some (.text (toString n))
  | .float x => some (.text (Json.floatText x))
  | .bool b => some (.text (if b then "true" else "false"))
  | .null => some (.text "null")
  | _ => none

/-- The two values that an item of a list of pairs stands for. -/
def Json.asPair : Json → Except Misuse (Json × Json)
  | .arr [a, b] => .ok (a, b)
  | .str (.text s) => match s.toList with
    | [a, b] => .ok (.text (String.singleton a), .text (String.singleton b))
    | _ => .error .wrongValue
  | .obj [a, b] => .ok (.str a.1, .str b.1)
  | .arr _ => .error .wrongValue
  | .str _ => .error .wrongValue
  | .obj _ => .error .wrongValue
  | _ => .error .wrongType

/-- Puts the pairs of a list into some members, one after the other. -/
def Json.putPairs (fields : Json.Fields) : List Json → Except Misuse Json.Fields
  | [] => .ok fields
  | x :: rest => do
    let (name, value) ← x.asPair
    match name.memberName? with
    | some name => putPairs (Json.put name value fields) rest
    | none => .error .wrongType

/-- Some members with those of a value put in. Besides an object, a list of pairs has members. -/
def Json.mergeValue (fields : Json.Fields) : Json → Except Misuse Json.Fields
  | .obj more => .ok (Json.merge fields more)
  | .arr items => Json.putPairs fields items
  | .str (.text s) => Json.putPairs fields (s.toList.map fun c => .text (String.singleton c))
  | _ => .error .wrongType

/-- The members of a value. -/
def Json.membersOf (x : Json) : Except Misuse Json.Fields := Json.mergeValue [] x

namespace Json

/-- What keeps a string from being written to a file: only a text has bytes. -/
def Str.writeFault? : Str → Option Misuse
  | .text _ => none
  | .broken _ _ _ => some .unencodable

mutual

/-- What keeps a value from being written to a file, the first of it: strings that are no texts, and
whole numbers of too many digits. -/
def writeFault? : Json → Option Misuse
  | .int n =>
    if maxIntegerDigits < (Nat.toDigits 10 n.natAbs).length then some .wrongValue else none
  | .str s => s.writeFault?
  | .arr items => itemsFault? items
  | .obj fields => membersFault? fields
  | _ => none

def itemsFault? : List Json → Option Misuse
  | [] => none
  | x :: rest => x.writeFault?.or (itemsFault? rest)

def membersFault? : List (Str × Json) → Option Misuse
  | [] => none
  | (name, x) :: rest => (name.writeFault?.or x.writeFault?).or (membersFault? rest)

end

end Json

end EventCodegen
