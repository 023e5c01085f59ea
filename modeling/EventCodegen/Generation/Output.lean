import EventCodegen.Files.Replace
import EventCodegen.Generation.Session
import EventCodegen.World

/-! Where generated files go: below a directory, or held in memory. -/
namespace EventCodegen

/-- Where generated files go. -/
inductive Output
  | directory (path : Path)
  | memory
deriving DecidableEq, Repr

namespace Output

/-- Holds a text under a location: in the place of an earlier one, else after all others. -/
def hold (location content : String) : List (String × String) → List (String × String)
  | [] => [(location, content)]
  | (l, c) :: rest =>
    if l = location then (l, content) :: rest else (l, c) :: hold location content rest

/-- Writes a text to a path below a directory, making the directories above it. -/
def writeBelow (directory path : Path) (content : String) : Run String := do
  let path := directory.join path
  Run.onFiles (·.makeDirectories path.parent)
  match path.extended FileTree.temporaryEnding with
  | none => Run.fail (.misuse .wrongValue)
  | some temporary =>
    Run.onFiles (·.replace path temporary (Text.encode content.toList))
    Run.note .info "core.writer" ("Wrote " ++ path.text)
    return path.text

/-- Hands a file on and gives back its location. -/
def write (output : Output) (f : GeneratedFile) : Run String :=
  match output with
  | directory d => writeBelow d f.path f.content
  | memory => do
    modify fun w => { w with held := hold f.path.text f.content w.held }
    return f.path.text

/-- Hands files on, one after the other. -/
def writeAll (output : Output) : List GeneratedFile → Run (List String)
  | [] => pure []
  | f :: rest => do
    let location ← output.write f
    let locations ← output.writeAll rest
    return location :: locations

/-- The output below the destination of the settings. -/
def ofSettings (s : Settings) : Except Failure Output :=
  match s.destination.text? with
  | some path => .ok (.directory (.ofString path))
  | none => .error (.misuse .wrongType)

end Output

namespace Session

/-- Generates everything for some categories: first all files, then they are written. -/
def generateCategories (s : Session) (output : Output) (categories : List Category) :
    Run Generation := do
  let g ← Run.ofTraced (s.generation categories)
  let locations ← output.writeAll g.files
  Run.note .info "generator" ("Generated " ++ toString categories.length ++
    " category modules and " ++ baseTypeName)
  return { g with locations }

/-- Generates everything for the text of a plan. -/
def generate (s : Session) (output : Output) (text : String) : Run Generation := do
  let categories ← Run.ofTraced (readPlan text)
  s.generateCategories output categories

/-- Generates only the file of the base type. -/
def generateBase (s : Session) (output : Output) : Run GeneratedFile := do
  let f ← Run.ofTraced s.buildBase
  discard (output.write f)
  return f

end Session
end EventCodegen
