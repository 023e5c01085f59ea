import EventCodegen.CommandLine.Option
import EventCodegen.Journal

/-! The commands of the program with their options and their help. -/
namespace EventCodegen.CommandLine

/-- What the program is asked to do. -/
inductive Command
  | generate
  | base
  | inspect
  | languages
deriving DecidableEq, Repr

namespace Command

def all : List Command := [generate, base, inspect, languages]

def name : Command → String
  | generate => "generate"
  | base => "base"
  | inspect => "inspect"
  | languages => "languages"

/-- The command of a name. -/
def ofName? (name : String) : Option Command := all.find? (·.name == name)

/-- Whether a command takes a plan, from a file or from an address. -/
def takesPlan : Command → Bool
  | generate => true
  | inspect => true
  | _ => false

end Command

def helpOption : OptionSpec := ⟨.help, ["-h", "--help"], false⟩
def versionOption : OptionSpec := ⟨.version, ["--version"], false⟩
def urlOption : OptionSpec := ⟨.url, ["--url"], true⟩
def languageOption : OptionSpec := ⟨.language, ["--language", "-l"], true⟩
def verboseOption : OptionSpec := ⟨.verbose, ["--verbose", "-v"], false⟩

/-- The options of commands that write files. -/
def targetOptions : Specs :=
  [⟨.destination, ["--destination", "-d"], true⟩, ⟨.package, ["--package", "-p"], true⟩,
   languageOption, ⟨.settingsFile, ["--config"], true⟩, verboseOption]

/-- The options of the program itself. -/
def programOptions : Specs := [helpOption, versionOption]

/-- The options of a command. -/
def Command.options : Command → Specs
  | generate =>
    helpOption :: urlOption :: targetOptions ++
      [⟨.strict, ["--strict-screen-name"], false⟩, ⟨.noComments, ["--no-comments"], false⟩,
       ⟨.dryRun, ["--dry-run"], false⟩]
  | base => helpOption :: targetOptions
  | inspect => [helpOption, urlOption, languageOption, verboseOption]
  | languages => [helpOption]

/-! ## Help -/

/-- The version of the program. -/
def version : String := "0.1.0"

/-- Lines, each with its line feed. -/
def block (lines : List String) : String := String.join (lines.map (· ++ "\n"))

/-- How the program is called. -/
def programUsage : List String := ["usage: eventgen [-h] [--version] COMMAND ..."]

/-- How a command is called. -/
def Command.usage : Command → List String
  | generate =>
    ["usage: eventgen generate [-h] [--url URL] [--destination DIR] [--package NAME]",
     "                         [--language LANGUAGE] [--config FILE] [--verbose]",
     "                         [--strict-screen-name] [--no-comments] [--dry-run]",
     "                         [schema]"]
  | base =>
    ["usage: eventgen base [-h] [--destination DIR] [--package NAME]",
     "                     [--language LANGUAGE] [--config FILE] [--verbose]"]
  | inspect =>
    ["usage: eventgen inspect [-h] [--url URL] [--language LANGUAGE] [--verbose]",
     "                        [schema]"]
  | languages => ["usage: eventgen languages [-h]"]

/-- The help of the program. -/
def programHelp : String :=
  block (programUsage ++
    ["",
     "Generate typed analytics event classes from a JSON schema",
     "",
     "positional arguments:",
     "  COMMAND",
     "    generate  Generate event modules from a schema",
     "    base      Generate only the base event module",
     "    inspect   Show how the events in a schema resolve",
     "    languages",
     "              List supported languages",
     "",
     "options:",
     "  -h, --help  show this help message and exit",
     "  --version   show program's version number and exit",
     "",
     "Examples:",
     "  eventgen generate analytics.json -d src -p myapp.analytics",
     "  eventgen generate --url https://example.com/events.json -l kotlin -p com.app.events",
     "  eventgen inspect analytics.json",
     "  eventgen languages"])

/-- The part of the help about the plan. -/
def planHelp : List String :=
  ["positional arguments:",
   "  schema                Schema JSON file",
   ""]

def helpHelp : String := "  -h, --help            show this help message and exit"
def urlHelp : String := "  --url URL             URL to fetch the schema from"

/-- The part of the help about the options of commands that write files. -/
def targetHelp : List String :=
  ["  --destination DIR, -d DIR",
   "                        Directory the package tree is written to (default:",
   "                        generated)",
   "  --package NAME, -p NAME",
   "                        Dotted package the generated modules live in",
   "  --language LANGUAGE, -l LANGUAGE",
   "                        Target language (use 'eventgen languages' to see",
   "                        options)",
   "  --config FILE         JSON configuration file",
   "  --verbose, -v         Show debug logging and metadata"]

/-- The part of the help of a command after its usage. -/
def Command.details : Command → List String
  | generate =>
    planHelp ++ ["options:", helpHelp, urlHelp] ++ targetHelp ++
      ["  --strict-screen-name  Fail when an event has no screen_name parameter",
       "  --no-comments         Don't add comments to generated code",
       "  --dry-run             Print generated code instead of writing files"]
  | base => ["options:", helpHelp] ++ targetHelp
  | inspect =>
    planHelp ++ ["options:", helpHelp, urlHelp, "  --language LANGUAGE, -l LANGUAGE",
      "  --verbose, -v"]
  | languages => ["options:", "  -h, --help  show this help message and exit"]

/-- The help of a command. -/
def Command.help (c : Command) : String := block (c.usage ++ [""] ++ c.details)

end EventCodegen.CommandLine
