import EventCodegen.Loading.Url
import EventCodegen.Settings.File
import EventCodegen.World

/-! The text of a plan, from a file or from an address. -/
namespace EventCodegen.Loading

/-- The part of the program whose notes these are. -/
def part : String := "utils"

/-- Notes an error and stops with it. -/
def refuse {α : Type} (noted : String) (e : LoadError) : Run α := do
  Run.note .error part noted
  Run.fail (.load e)

/-- The text of a file. -/
def fromFile (file : Json) : Run String := do
  let path ← Run.ofExcept (Settings.pathOf file)
  Run.note .debug part ("Reading schema from file: " ++ path.text)
  let files := (← get).files
  match files.present path with
  | .error e => Run.fail (.file e)
  | .ok false =>
    Run.note .error part ("Schema file not found: " ++ path.text)
    Run.fail (.noPlanFile path)
  | .ok true =>
    if !Settings.isJsonPath path then
      Run.note .warning part ("Schema file does not have .json extension: " ++ path.text)
    match files.read path with
    | .error cause => refuse (LoadError.unreadable path cause).message (.unreadable path cause)
    | .ok bytes =>
      match Text.decode bytes with
      | .error fault => refuse (LoadError.undecodable path fault).message (.undecodable path fault)
      | .ok s =>
        Run.note .info part ("Loaded schema from " ++ path.text)
        return String.ofList (Text.unifyNewlines s)

/-- Whether an answer is announced as JSON, or its address ends as that of a JSON file. -/
def looksLikeJson (url contentType : String) : Bool :=
  Text.occurs "json".toList (Text.lower contentType).toList ||
    ".json".toList.isSuffixOf url.toList

/-- Sends a request and gives back what comes of it. -/
def request (url : String) (timeout : Json) : Run Response :=
  modifyGet fun w => (w.response, { w with requests := w.requests ++ [⟨url, timeout⟩] })

/-- The text behind a usable address. -/
def receive (url : String) (timeout : Json) : Run String := do
  match ← request url timeout with
  | .timeout => refuse ("Request timeout for URL: " ++ url) (.timedOut url)
  | .noConnection cause =>
    refuse ("Connection error for URL " ++ url ++ ": " ++ cause) (.noConnection url)
  | .otherFailure cause => refuse (LoadError.request url cause).message (.request url cause)
  | .answer status contentType text =>
    if 400 ≤ status then refuse (LoadError.status status url).message (.status status url)
    else
      let announced := contentType.getD ""
      if !looksLikeJson url announced then
        Run.note .warning part
          ("URL " ++ url ++ " does not have JSON content type: " ++ Text.lower announced)
      Run.note .info part ("Fetched schema from " ++ url)
      return text

/-- The text behind an address. -/
def fromUrl (url timeout : Json) : Run String := do
  Run.note .debug part ("Fetching schema from URL: " ++ url.display)
  match url.text? with
  | none => Run.fail (.misuse .notText)
  | some url =>
    match Url.verdict url with
    | .malformed => Run.fail (.misuse .wrongValue)
    | .incomplete => refuse ("Invalid URL format: " ++ url) (.invalidUrl url)
    | .usable => receive url timeout

/-- The text of a plan from a file or from an address, of which exactly one has to be given. -/
def fetch (file url timeout : Json) : Run String :=
  match file.isGiven, url.isGiven with
  | false, false => Run.fail (.load .noSource)
  | true, true => Run.fail (.load .twoSources)
  | true, false => fromFile file
  | false, true => fromUrl url timeout

/-- The seconds that a request may take unless the caller says otherwise. -/
def standardTimeout : Json := .int 30

end EventCodegen.Loading
