import EventCodegen.Layout
import EventCodegen.ModuleTree
import EventCodegen.Registry
import EventCodegen.Source.BaseFile
import EventCodegen.Warning

/-! From a plan to the text of every file. A session holds the settings of the run and a generator
with settings of its own; nothing in it changes, so no run leaves a trace in a later one. All files
are complete before any of them is handed on. -/
namespace EventCodegen

/-- The generator of a language with the settings that it lays out files by. -/
structure Generator where
  target : Target
  settings : Settings
deriving Repr

/-- The settings that a generator has if it is given none. -/
def Generator.ownSettings (t : Target) : Settings :=
  { language := .text t.name, package := .text t.defaultPackage }

/-- What a generated file is for. -/
inductive FileKind
  | category
  | base
  | other (name : String)
deriving DecidableEq, Repr

def FileKind.name : FileKind → String
  | category => "category"
  | base => "base"
  | other name => name

/-- The kind of a name. -/
def FileKind.ofName (name : String) : FileKind :=
  if name = "category" then .category else if name = "base" then .base else .other name

/-- A generated file and its path below the destination. -/
structure GeneratedFile where
  path : Path
  content : String
  kind : FileKind := .category
deriving DecidableEq, Repr

/-- What a run counted. -/
structure Metadata where
  target : Target
  package : Json
  categories : Nat
  events : Nat
  simpleEvents : Nat
  parameterizedEvents : Nat
  constants : Nat
deriving Repr

/-- The counts for some modules. -/
def Metadata.ofModules (t : Target) (package : Json) (modules : List CategoryModule) : Metadata :=
  let events := modules.flatMap (·.eventTypes)
  { target := t
    package
    categories := modules.length
    events := events.length
    simpleEvents := (events.filter (·.isSimple)).length
    parameterizedEvents := (events.filter (!·.isSimple)).length
    constants := (modules.flatMap (·.constants)).length }

/-- What a run gives back. -/
structure Generation where
  files : List GeneratedFile := []
  warnings : List Warning := []
  metadata : Option Metadata := none
  locations : List String := []
deriving Repr

/-- The files of categories. -/
def Generation.categoryFiles (g : Generation) : List GeneratedFile :=
  g.files.filter (·.kind = .category)

/-- The file of the base type. -/
def Generation.baseFile? (g : Generation) : Option GeneratedFile :=
  g.files.find? (·.kind = .base)

/-- The settings of a run together with its generator. -/
structure Session where
  settings : Settings
  generator : Generator
deriving Repr

namespace Session

/-- A session with the given settings. Without a generator the registry provides the one for the
language; the language is then called by the name that its generator goes by. -/
def make (registry : Registry) (settings : Settings) (generator? : Option Generator) :
    Except Failure Session := do
  let generator ← match generator? with
    | some g => pure g
    | none => (fun t => (⟨t, settings⟩ : Generator)) <$> registry.generatorOf settings.language
  return ⟨{ settings with language := .text generator.target.name }, generator⟩

/-- The language of a session. -/
def target (s : Session) : Target := s.generator.target

/-- The naming rules of a session. -/
def rules (s : Session) : Scope := s.target.scope

/-- The module of a category. -/
def moduleOf (s : Session) (c : Category) : Except MissingScreen CategoryModule :=
  CategoryModule.ofCategory s.rules s.settings.isStrict s.settings.packageText c

/-- The path of a file in a package: a directory for each segment. -/
def filePath (t : Target) (package stem : String) : Path :=
  Path.ofStrings ((Text.parts '.' package).filter (· != "") ++ [stem ++ t.extension])

/-- A text laid out by the settings of the generator. -/
def laidOut (s : Session) (lines : List Source.Line) : Except Failure String :=
  match Layout.format? (.ofJson s.generator.settings.indentSize) (Source.text s.target lines) with
  | some text => .ok (String.ofList text)
  | none => .error (.misuse .wrongType)

/-- The file of a category. -/
def categoryFile (s : Session) (m : CategoryModule) : Except Failure GeneratedFile := do
  let content ← s.laidOut (Source.categoryLines s.target s.generator.settings.hasComments
    s.settings.packageText m)
  return { path := filePath s.target m.path m.containerName, content, kind := .category }

/-- The file of the base type. Its path needs a package that is a text. -/
def baseFile (s : Session) : Except Failure GeneratedFile := do
  let content ← s.laidOut (Source.baseLines s.target s.generator.settings.hasComments
    s.settings.packageText)
  match s.settings.package.text? with
  | some package =>
    return { path := filePath s.target package baseTypeName, content, kind := .base }
  | none => .error (.misuse .notText)

/-- The names under which the forms of the two kinds of files are known. -/
def formName (t : Target) (stem : String) : String := stem ++ t.extension ++ ".j2"

/-- Resolves events one by one and notes each. -/
def resolveEvents (s : Session) (category : String) :
    Scope → List Event → Traced (List ResolvedEvent)
  | _, [] => pure []
  | types, e :: rest => do
    let (r, types) ← Traced.ofExcept
      ((Shape.resolve s.rules s.settings.isStrict category types e).mapError .missingScreen)
    let place := category ++ "." ++ e.name
    if e.screen?.isNone then
      Traced.note .debug "core.resolver"
        ("Event " ++ place ++ " has no screen_name, using empty string")
    Traced.note .debug "core.resolver" ("Resolved " ++ place ++ " -> " ++ r.typeName ++ " (" ++
      (if r.isSimple then "simple" else "parameterized") ++ ", " ++ toString r.fields.length ++
      " fields)")
    let rs ← s.resolveEvents category types rest
    return r :: rs

/-- Builds the module of a category and notes what is built. -/
def buildModule (s : Session) (c : Category) : Traced CategoryModule := do
  let events ← s.resolveEvents c.name (Shape.typeScope s.rules) c.events
  let m := CategoryModule.build s.rules s.settings.packageText c.name events
    (Shape.predefinedValues events)
  Traced.note .debug "core.emitter" ("Built " ++ m.containerName ++ ": " ++
    toString m.eventTypes.length ++ " event types, " ++ toString m.constants.length ++
    " constants")
  return m

/-- Notes that the form of a file is being filled in. -/
def noteForm (s : Session) (stem : String) : Traced Unit :=
  Traced.note .debug "core.templates" ("Rendering " ++ formName s.target stem)

/-- Builds modules with their files. -/
def buildFiles (s : Session) : List Category → Traced (List (CategoryModule × GeneratedFile))
  | [] => pure []
  | c :: rest => do
    let m ← s.buildModule c
    s.noteForm "category"
    let file ← Traced.ofExcept (s.categoryFile m)
    let more ← s.buildFiles rest
    return (m, file) :: more

/-- Builds the file of the base type. -/
def buildBase (s : Session) : Traced GeneratedFile := do
  s.noteForm "base_event"
  Traced.ofExcept s.baseFile

/-- All that is generated for some categories, nothing of it written yet. -/
def generation (s : Session) (categories : List Category) : Traced Generation := do
  let own ← Traced.ofExcept (s.settings.warnings.mapError .misuse)
  let warnings := own ++ categories.flatMap Category.warnings
  Traced.noteAll .warning "generator" (warnings.map (·.message))
  let built ← s.buildFiles categories
  let base ← s.buildBase
  return { files := built.map (·.2) ++ [base]
           warnings
           metadata := some (.ofModules s.target s.settings.package (built.map (·.1))) }

/-- Reads a plan and notes its size. -/
def readPlan (text : String) : Traced (List Category) := do
  let categories ← Traced.ofExcept ((Plan.parse text).mapError .ofReadFault)
  Traced.note .debug "core.schema" ("Parsed " ++ toString categories.length ++
    " categories with " ++ toString (categories.flatMap (·.events)).length ++ " events")
  return categories

end Session
end EventCodegen
