import EventCodegen.Files.Tree
import EventCodegen.Plan.Reader
import EventCodegen.Json.Printer
import EventCodegen.Shape

/-! Everything that may stop the program, by its cause, with the kind and the wording under which it
is reported. -/
namespace EventCodegen

/-- What goes wrong with settings files. -/
inductive SettingsError
  | missing (path : Path)
  | notJson (path : Path)
  | malformed (path : Path) (reason : Json.Reason) (line column position : Nat)
  | unreadable (path : Path) (cause : FileError)
  | notObject (path : Path)
  | unsaved (path : Path) (cause : FileError)
deriving DecidableEq, Repr

def SettingsError.message : SettingsError → String
  | missing path => "Configuration file not found: " ++ path.text
  | notJson path => "Configuration file must be JSON: " ++ path.text
  | malformed path reason line column position =>
    "Invalid JSON in configuration file " ++ path.text ++ ": " ++
      reason.messageAt line column position
  | unreadable path cause =>
    "Failed to load configuration file " ++ path.text ++ ": " ++ cause.message
  | notObject path => "Configuration file must contain a JSON object: " ++ path.text
  | unsaved path cause => "Failed to save configuration to " ++ path.text ++ ": " ++ cause.message

/-- What goes wrong with the table of languages. -/
inductive RegistryError
  | notGenerator (shown : String)
  | aliasIsLanguage (name : String)
  | aliasTaken (name owner : String)
  | unknownLanguage (name : String) (known : List String)
  | settingsType (shown : String)
deriving DecidableEq, Repr

def RegistryError.message : RegistryError → String
  | notGenerator shown => shown ++ " is not a CodeGenerator subclass"
  | aliasIsLanguage name => "Alias '" ++ name ++ "' conflicts with existing primary language"
  | aliasTaken name owner => "Alias '" ++ name ++ "' already points to '" ++ owner ++ "'"
  | unknownLanguage name known =>
    "No generator registered for language: " ++ name ++ ". Available: " ++
      Text.joined ", " known
  | settingsType shown => "Invalid config type: " ++ shown

/-- What goes wrong when the text of a plan is fetched from a file or an address. -/
inductive LoadError
  | noSource
  | twoSources
  | unreadable (path : Path) (cause : FileError)
  | undecodable (path : Path) (cause : Text.DecodeFault)
  | invalidUrl (url : String)
  | timedOut (url : String)
  | noConnection (url : String)
  | status (code : Int) (url : String)
  | request (url cause : String)
deriving DecidableEq, Repr

def LoadError.message : LoadError → String
  | noSource => "Either file_path or url must be provided"
  | twoSources => "Cannot specify both file_path and url"
  | unreadable path cause => "Error reading schema file " ++ path.text ++ ": " ++ cause.message
  | undecodable path cause => "Error reading schema file " ++ path.text ++ ": " ++ cause.message
  | invalidUrl url => "Invalid URL: " ++ url
  | timedOut url => "Request timeout for URL: " ++ url
  | noConnection url => "Connection error for URL: " ++ url
  | status code url => "HTTP error " ++ toString code ++ " for URL: " ++ url
  | request url cause => "Request error for URL " ++ url ++ ": " ++ cause

/-- Where in a template something is missing or out of place: the tags that may come next and the
innermost block that is open, none of them outside all blocks. -/
structure TemplatePlace where
  looking : List String := []
  innermost : Option String := none
  /-- Whether the tag that was found would close some other open block. -/
  nested : Bool := false
deriving DecidableEq, Repr

/-- What a message says about a place. -/
def TemplatePlace.message (p : TemplatePlace) : String :=
  let tags := Text.joined " or " (p.looking.map fun tag => "'" ++ tag ++ "'")
  let search :=
    if p.looking.isEmpty then ""
    else if p.nested then
      " You probably made a nesting mistake. Jinja is expecting this tag, but currently looking for "
        ++ tags ++ "."
    else " Jinja was looking for the following tags: " ++ tags ++ "."
  match p.innermost with
  | some block => search ++ " The innermost block that needs to be closed is '" ++ block ++ "'."
  | none => search

/-- What is wrong with the text of a template. -/
inductive TemplateFault
  | unknownTag (name : String) (place : TemplatePlace)
  | unexpectedEnd (place : TemplatePlace)
  | unknownFilter (name : String)
  | tagWithoutName
  | emptyOutput
  | unreadable
deriving DecidableEq, Repr

def TemplateFault.message : TemplateFault → String
  | unknownTag name place => "Encountered unknown tag '" ++ name ++ "'." ++ place.message
  | unexpectedEnd place => "Unexpected end of template." ++ place.message
  | unknownFilter name => "No filter named '" ++ name ++ "'."
  | tagWithoutName => "tag name expected"
  | emptyOutput => "Expected an expression, got 'end of print statement'"
  | unreadable => "unexpected end of template"

def TemplateFault.kind : TemplateFault → String
  | unknownFilter _ => "TemplateAssertionError"
  | _ => "TemplateSyntaxError"

/-- What goes wrong when a template is looked up, read or filled in. -/
inductive TemplateError
  | noDirectory (directory : Path)
  | notFound (name : String) (directory : Path)
  | faulty (name : String) (fault : TemplateFault)
  | unfilled (name : String) (wording : String)
deriving DecidableEq, Repr

def TemplateError.message : TemplateError → String
  | noDirectory directory => "Template directory not found: " ++ directory.text
  | notFound name directory => "Template " ++ name ++ " not found in " ++ directory.text
  | faulty name fault => "Failed to load template " ++ name ++ ": " ++ fault.message
  | unfilled name wording => "Failed to render template " ++ name ++ ": " ++ wording

/-- What the command line refuses by itself. -/
inductive CommandError
  | unsupportedLanguage (name : String) (known : List String)
  | noInput
deriving DecidableEq, Repr

def CommandError.message : CommandError → String
  | unsupportedLanguage name known =>
    "Unsupported language '" ++ name ++ "'. Supported languages: " ++ Text.joined ", " known
  | noInput => "Input source required (SCHEMA file, --url, or schema_file in config)"

/-- Values of the wrong kind, which nothing else speaks about: settings are taken as they come and
are only looked at where they are used. -/
inductive Misuse
  /-- A text is needed. -/
  | notText
  /-- A value of another type is needed. -/
  | wrongType
  /-- A value of the right type cannot be used. -/
  | wrongValue
  /-- Bytes that should be a text are none. -/
  | undecodable (fault : Text.DecodeFault)
  /-- A string that should become bytes is no text. -/
  | unencodable
  /-- A closing tag of the display without an opening one. -/
  | unopenedTag
deriving DecidableEq, Repr

def Misuse.kind : Misuse → String
  | notText => "AttributeError"
  | wrongType => "TypeError"
  | wrongValue => "ValueError"
  | undecodable _ => "UnicodeDecodeError"
  | unencodable => "UnicodeEncodeError"
  | unopenedTag => "MarkupError"

def Misuse.message : Misuse → String
  | undecodable fault => fault.message
  | _ => ""

/-- Everything that may stop the program. -/
inductive Failure
  | plan (e : PlanError)
  | missingScreen (e : MissingScreen)
  | settings (e : SettingsError)
  | registry (e : RegistryError)
  | load (e : LoadError)
  | noPlanFile (path : Path)
  | template (e : TemplateError)
  | templateText (e : TemplateFault)
  | file (e : FileError)
  | command (e : CommandError)
  | misuse (e : Misuse)
deriving DecidableEq, Repr

namespace Failure

/-- The kind under which a failure is reported. -/
def kind : Failure → String
  | plan _ => "SchemaParseError"
  | missingScreen _ => "MissingScreenNameError"
  | settings _ => "ConfigError"
  | registry _ => "RegistryError"
  | load _ => "SchemaLoaderError"
  | noPlanFile _ => "FileNotFoundError"
  | template _ => "TemplateError"
  | templateText e => e.kind
  | file e => e.fault.kind
  | command _ => "Error"
  | misuse e => e.kind

/-- The wording of a failure. -/
def message : Failure → String
  | plan e => e.message
  | missingScreen e => e.message
  | settings e => e.message
  | registry e => e.message
  | load e => e.message
  | noPlanFile path => "Schema file not found: " ++ path.text
  | template e => e.message
  | templateText e => e.message
  | file e => e.message
  | command e => e.message
  | misuse e => e.message

/-- Whether the failure is one of the program's own. The others come from below it, and only their
kind is part of its interface. -/
def isOwn : Failure → Bool
  | templateText _ => false
  | file _ => false
  | misuse _ => false
  | _ => true

/-- Whether the command line reports the failure and ends; it lets any other pass. -/
def isReported : Failure → Bool
  | templateText _ => false
  | file e => e.fault.isSystem
  | misuse (.undecodable _) => true
  | misuse .unencodable => true
  | misuse _ => false
  | _ => true

/-- The failure behind a plan that cannot be read. -/
def ofReadFault : Plan.ReadFault → Failure
  | .plan e => .plan e
  | .hugeInteger => .misuse .wrongValue

end Failure
end EventCodegen
