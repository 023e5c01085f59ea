import EventCodegen.Settings.Layers

/-! Settings files: JSON objects in files whose names end in `.json`. -/
namespace EventCodegen.Settings

/-- The part of the program whose notes these are. -/
def part : String := "core.config"

/-- The path that a value names. -/
def pathOf (x : Json) : Except Failure Path :=
  match x.text? with
  | some s => .ok (Path.ofString s)
  | none => .error (.misuse .wrongType)

/-- Whether the name at a path ends as that of a JSON file. -/
def isJsonPath (path : Path) : Bool := Text.lower path.suffix == ".json"

/-- The members of the object that the text of a settings file holds. -/
def ofText (path : Path) (s : List Char) : Except Failure Json.Fields :=
  match Json.parse (String.ofList (Text.unifyNewlines s)) with
  | .error (.malformed reason line column position) =>
    .error (.settings (.malformed path reason line column position))
  | .error .hugeInteger => .error (.misuse .wrongValue)
  | .ok (.obj fields) => .ok fields
  | .ok _ => .error (.settings (.notObject path))

/-- The members that the settings file at a path holds. -/
def read (files : FileTree) (path : Path) : Except Failure Json.Fields :=
  match files.present path with
  | .error e => .error (.file e)
  | .ok false => .error (.settings (.missing path))
  | .ok true =>
    if !isJsonPath path then .error (.settings (.notJson path))
    else match files.read path with
      | .error e => .error (.settings (.unreadable path e))
      | .ok bytes => match Text.decode bytes with
        | .error fault => .error (.misuse (.undecodable fault))
        | .ok s => ofText path s

/-- The members of a settings file, none if no file is named. -/
def readFile (files : FileTree) (file : Json) : Traced Json.Fields :=
  if !file.isGiven then pure []
  else do
    let path ← Traced.ofExcept (pathOf file)
    let fields ← Traced.ofExcept (read files path)
    Traced.note .debug part ("Loaded configuration file " ++ path.text)
    return fields

/-- The settings of a run: `asked` is the language asked for, `overrides` and `file` may be missing.
The registry is not needed before a language has been chosen, and is obtained only then. -/
def loadWith (registry : Traced Registry) (files : FileTree) (asked overrides file : Json) :
    Traced Settings := do
  let fields ← readFile files file
  let overrides ← Traced.ofExcept (overridesOf overrides)
  let language ← Traced.ofExcept (chosenLanguage asked fields overrides)
  let registry ← registry
  Traced.ofExcept (layeredFor (primaryName registry language) fields overrides)

/-- The settings of a run for a registry that is there already. -/
def load (registry : Registry) (files : FileTree) (asked overrides file : Json) :
    Traced Settings :=
  loadWith (pure registry) files asked overrides file

/-- The members of a settings file: the custom settings stand among the others. -/
def savedFields (s : Settings) : Except Failure Json.Fields :=
  (Json.mergeValue s.plainFields s.custom).mapError .misuse

/-- Writes settings to a file. What has no written form is met only when the file is open; what the
file holds after that is left open. -/
def save (files : FileTree) (s : Settings) (file : Json) : Except Failure FileTree := do
  let path ← pathOf file
  let saved := Json.obj (← savedFields s)
  match files.write path (Text.encode (Json.write .saved saved).toList) with
  | .ok files => match saved.writeFault? with
    | none => return files
    | some e => .error (.misuse e)
  | .error e => .error (if e.fault.isSystem then .settings (.unsaved path e) else .file e)

end EventCodegen.Settings
