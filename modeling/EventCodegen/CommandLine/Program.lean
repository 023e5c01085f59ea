import EventCodegen.CommandLine.Reader
import EventCodegen.Display.Panel
import EventCodegen.Files.Survey
import EventCodegen.Generation.FromSource
import EventCodegen.Generation.Options

/-! What the commands do, what they show, and how a run of the program ends. -/
namespace EventCodegen.CommandLine

/-! ## Showing -/

/-- The columns of the display. -/
def columns : Nat := 200

/-- Shows a marked text on lines of its own. -/
def say (markup : String) : Run Unit :=
  match Display.shown? markup with
  | some s => Run.display (Display.paragraph columns s)
  | none => Run.fail (.misuse .unopenedTag)

/-- Shows lines that have been laid out, if they could be. -/
def showLines : Option (List (List Char)) → Run Unit
  | some ls => Run.display (String.ofList (ls.flatMap (· ++ ['\n'])))
  | none => Run.fail (.misuse .unopenedTag)

/-! ## From arguments to settings -/

/-- A value that is not empty. -/
def given? (value : Option String) : Option String := value.filter (· != "")

/-- A value as JSON. -/
def jsonOf (value : Option String) : Json := (value.map Json.text).getD .null

/-- The settings that the arguments override. -/
def Arguments.overrides (a : Arguments) : Json.Fields :=
  let text (name : String) (value : Option String) : Json.Fields :=
    ((given? value).map fun v => (.text name, Json.text v)).toList
  let bool (name : String) (isSet value : Bool) : Json.Fields :=
    if isSet then [(.text name, .bool value)] else []
  text "destination_path" a.destination ++ text "package_name" a.package ++
    bool "strict_screen_name" a.strict true ++ bool "add_comments" a.noComments false

/-- The language that a name leads to, which has to be there. -/
def supported (r : Registry) (name : Json) : Except Failure String := do
  if ← r.isSupported name then r.resolve name
  else throw (.command (.unsupportedLanguage name.display r.languageNames))

/-- The registry and the settings of a run. A language that is asked for is looked up before the
settings file is read; otherwise the settings name it. -/
def configure (a : Arguments) : Run (Registry × Settings) := do
  let overrides : Json := .obj a.overrides
  let file := jsonOf a.settingsFile
  match given? a.language with
  | some name =>
    let registry ← Run.ofTraced Registry.setUp
    let language ← Run.ofExcept (supported registry (.text name))
    let files := (← get).files
    let settings ← Run.ofTraced (Settings.load registry files (.text language) overrides file)
    return (registry, settings)
  | none =>
    let files := (← get).files
    let settings ← Run.ofTraced (Settings.loadWith Registry.setUp files .null overrides file)
    let registry := Registry.builtIn
    let language ← Run.ofExcept (supported registry settings.language)
    return (registry, { settings with language := .text language })

/-- The text of the plan. If the arguments name none, the settings may name a file. -/
def fetchPlan (a : Arguments) (s : Settings) : Run String := do
  let url := jsonOf a.url
  let named := jsonOf a.plan
  let file := if !named.isGiven && !url.isGiven then s.planFile else named
  if !file.isGiven && !url.isGiven then Run.fail (.command .noInput)
  Loading.fetch file url Loading.standardTimeout

/-! ## The commands -/

/-- The table of what a run counted. -/
def metadataTable (m : Metadata) : Display.Table :=
  { title := "📊 Generation Metadata"
    border := .simple
    head := ["Property", "Value"]
    rows :=
      [["Language", m.target.name], ["File Extension", m.target.extension],
       ["Package Name", m.package.display], ["Category Count", toString m.categories],
       ["Event Count", toString m.events], ["Simple Event Count", toString m.simpleEvents],
       ["Parameterized Event Count", toString m.parameterizedEvents],
       ["Constant Count", toString m.constants]] }

/-- Shows generated files. -/
def showFiles : List GeneratedFile → Run Unit
  | [] => pure ()
  | f :: rest => do
    showLines (Display.Panel.lines? columns ⟨"📄 " ++ f.path.text, f.content⟩)
    showFiles rest

/-- Shows where files were written. -/
def showLocations : List String → Run Unit
  | [] => pure ()
  | location :: rest => do
    say ("[green]✓[/green] Wrote [cyan]" ++ location ++ "[/cyan]")
    showLocations rest

/-- Shows warnings, each on a line of its own. -/
def showWarnings : List Warning → Run Unit
  | [] => pure ()
  | w :: rest => do
    say ("  [yellow]•[/yellow] " ++ Display.escape w.message)
    showWarnings rest

/-- Shows what a run counted. -/
def showMetadata : Option Metadata → Run Unit
  | none => pure ()
  | some m => do
    Run.display "\n"
    showLines (metadataTable m).lines?

/-- What a generation works with: the session, where its files go, and the text of the plan. The
indicator of progress, which is gone when the command ends, leaves an empty line. -/
def prepare (a : Arguments) : Run (Session × Output × String) := do
  let (registry, settings) ← configure a
  Run.display "\n"
  let text ← fetchPlan a settings
  let session ← Run.ofExcept (Session.make registry settings none)
  let output ← if a.dryRun then pure .memory else Run.ofExcept (Output.ofSettings settings)
  return (session, output, text)

/-- Shows what has been generated: the files themselves or where they are, and the warnings. -/
def showGeneration (a : Arguments) (g : Generation) : Run Unit := do
  if a.dryRun then showFiles g.files else showLocations g.locations
  showMetadata (if a.verbose then g.metadata else none)
  if !g.warnings.isEmpty then
    say "\n[yellow]⚠️  Warnings:[/yellow]"
    showWarnings g.warnings

/-- Generates all files for a plan and writes them, or only shows them. -/
def runGenerate (a : Arguments) : Run Unit := do
  let (session, output, text) ← prepare a
  let g ← session.generate output text
  showGeneration a g

/-- Generates and writes the file of the base type. -/
def runBase (a : Arguments) : Run Unit := do
  let (registry, settings) ← configure a
  let session ← Run.ofExcept (Session.make registry settings none)
  let output ← Run.ofExcept (Output.ofSettings settings)
  let f ← session.generateBase output
  say ("[green]✓[/green] Wrote [cyan]" ++ f.path.text ++ "[/cyan] to [cyan]" ++
    settings.destination.display ++ "[/cyan]")

/-- A cell for something that may be missing. -/
def cellOr (whenMissing text : String) : String :=
  if text.isEmpty then "[dim]" ++ whenMissing ++ "[/dim]" else text

/-- The row of an event type. -/
def eventRow (m : CategoryModule) (t : EventType) : List String :=
  [Display.escape m.categoryName, Display.escape t.eventName, m.containerName ++ "." ++ t.name,
   if t.isSimple then "singleton" else "record", cellOr "none" (Display.escape t.screenName),
   cellOr "-" (Text.joined ", " (t.fields.map (·.name)))]

/-- The table of the event types of some modules. -/
def eventTable (modules : List CategoryModule) : Display.Table :=
  { title := "📋 Schema Events"
    border := .rounded
    head := ["Category", "Event", "Type", "Shape", "Screen", "Fields"]
    rows := modules.flatMap fun m => m.eventTypes.map (eventRow m) }

/-- Shows what types the events of a plan get. -/
def runInspect (a : Arguments) : Run Unit := do
  let (registry, settings) ← configure a
  let text ← fetchPlan a settings
  let categories ← Run.ofTraced (Session.readPlan text)
  let session ← Run.ofExcept (Session.make registry settings none)
  let modules ← Run.ofTraced (categories.mapM session.buildModule)
  showLines (eventTable modules).lines?
  say ("[bold]" ++ toString categories.length ++ "[/bold] categories, [bold]" ++
    toString (modules.flatMap (·.constants)).length ++ "[/bold] predefined values")

/-- The row of a language. -/
def languageRow (name : String) (d : Registry.Description) : List String :=
  [name, d.target.extension, d.target.generatorName, cellOr "none" (Text.joined ", " d.aliases),
   d.package.display]

/-- The table of the languages. -/
def languageTable (languages : List (String × Registry.Description)) : Display.Table :=
  { title := "📋 Supported Languages"
    border := .rounded
    head := ["Language", "Extension", "Generator Class", "Aliases", "Default Package"]
    rows := languages.map fun (name, d) => languageRow name d }

/-- Shows the languages. -/
def runLanguages : Run Unit := do
  let registry ← Run.ofTraced Registry.setUp
  let files := (← get).files
  let languages ← Run.ofTraced (registry.describeAll registry files)
  showLines (languageTable languages).lines?

/-- Does what a command asks for. -/
def Command.run (a : Arguments) : Command → Run Unit
  | generate => runGenerate a
  | base => runBase a
  | inspect => runInspect a
  | languages => runLanguages

/-! ## The end of a run -/

/-- Shows a failure. The program ends with it, or lets it pass if it is none that it reports. -/
def report (e : Failure) : Run Nat := do
  if !e.isReported then Run.fail e
  match e with
  | .command _ => pure ()
  | _ => Run.note .debug "cli" "Command failed"
  say ("[red]✗ " ++ e.kind ++ ":[/red] " ++ Display.escape e.message)
  return 1

/-- Does what a command asks for and gives back the exit code. -/
def perform (c : Command) (a : Arguments) : Run Nat :=
  tryCatch (do c.run a; return 0) report

/-- Runs the program for a command line. -/
def program (words : List String) : Run Exit :=
  match read words with
  | .exit e => pure e
  | .noCommand => pure { code := 1, output := programHelp }
  | .run c a => do return { code := ← perform c a }

/-- How important a note has to be to be made known. -/
def leastLevel (words : List String) : Level :=
  match read words with
  | .run _ a => if a.verbose then .debug else .warning
  | _ => .warning

/-! ## Files that a run looks at -/

/-- The paths of the files that a command line names, directly or by the settings that it leads
to. -/
def pathsRead (words : List String) (w : World) : List Path :=
  match read words with
  | .run _ a =>
    let plan := match (configure a).apply w with
      | (.ok (_, s), _) => s.planFile
      | (.error _, _) => .null
    ([jsonOf a.settingsFile, jsonOf a.plan, plan].filterMap Json.text?).map Path.ofString
  | _ => []

/-- The places that a run looks at: those of the files that it reads and of all that it writes. -/
def placesOf (words : List String) (w : World) : List Place :=
  (pathsRead words w).flatMap w.files.stepsOf ++
    FileTree.touched (FileTree.changes w.files ((program words).apply w).2.files)

end EventCodegen.CommandLine
