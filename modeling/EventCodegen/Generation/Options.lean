import EventCodegen.Generation.Session
import EventCodegen.Settings.File

/-! Sessions for a caller who names a language and some options, and generators with settings from
any source. -/
namespace EventCodegen

/-- Names that no option may have, as the caller gives these values in another way. -/
def ownArguments : List String := ["language", "writer"]

/-- The same, where the text of the plan is given as well. -/
def ownPlanArguments : List String := "schema_text" :: ownArguments

/-- The session for a language, which may be missing, and options, which override the settings of
that language. -/
def Session.ofOptions (registry : Registry) (taken : List String) (language : Json)
    (options : Json.Fields) : Except Failure Session := do
  if options.any (fun m => taken.any (fun name => m.1 == .text name)) then
    throw (.misuse .wrongType)
  let asked ← if language.isGiven then Json.text <$> registry.resolve language else pure .null
  let settings ← Settings.layered registry asked [] options
  Session.make registry settings none

/-- Where the settings of a generator come from. -/
inductive SettingsSource
  | settings (s : Settings)
  | value (x : Json)

/-- How the type of a value is shown in a refusal. -/
def Json.shownType : Json → String
  | .null => "<class 'NoneType'>"
  | .bool _ => "<class 'bool'>"
  | .int _ => "<class 'int'>"
  | .float _ => "<class 'float'>"
  | .str _ => "<class 'str'>"
  | .arr _ => "<class 'list'>"
  | .obj _ => "<class 'dict'>"

namespace Registry

/-- The settings that a source gives for a language: nothing, the name of a settings file and an
object of overrides are all understood. `shared` knows the aliases of languages. -/
def settingsFrom (shared : Registry) (files : FileTree) (language : String) :
    SettingsSource → Traced Settings
  | .settings s => pure s
  | .value .null => Settings.load shared files (.text language) .null .null
  | .value (.str s) => Settings.load shared files (.text language) .null (.str s)
  | .value (.obj fields) => Settings.load shared files (.text language) (.obj fields) .null
  | .value x => Traced.fail (.registry (.settingsType x.shownType))

/-- The generator of a language with its settings. -/
def create (r shared : Registry) (files : FileTree) (language : Json) (source : SettingsSource) :
    Traced Generator := do
  let name ← Traced.ofExcept (r.resolve language)
  let t ← Traced.ofExcept (r.generatorNamed name)
  let settings ← settingsFrom shared files name source
  return ⟨t, settings⟩

/-- What is told about a language. -/
structure Description where
  target : Target
  aliases : List String
  package : Json
deriving Repr

/-- Describes a language by its generator with default settings. -/
def describe (r shared : Registry) (files : FileTree) (language : Json) : Traced Description := do
  let name ← Traced.ofExcept (r.resolve language)
  let g ← r.create shared files (.text name) (.value .null)
  return { target := g.target, aliases := r.aliasesOf name, package := g.settings.package }

/-- Describes every language, in the order of their names. -/
def describeAll (r shared : Registry) (files : FileTree) :
    Traced (List (String × Description)) :=
  r.languageNames.mapM fun name => do
    let d ← r.describe shared files (.text name)
    return (name, d)

end Registry
end EventCodegen
