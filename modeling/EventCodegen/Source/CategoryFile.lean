import EventCodegen.ModuleTree
import EventCodegen.Source.Line

/-! The source file of a category: imports, the container, in it a type for each event and, if the
category has predefined values, the container of their constants. -/
namespace EventCodegen.Source

/-- What every generated file says about itself. -/
def notice : String := "Generated by eventgen. Do not edit by hand."

/-- The arguments that every event type hands to its base type: category, screen and event name. -/
def identity (level : Nat) (e : EventType) : List Line :=
  [.argument level e.categoryName, .argument level e.screenName, .argument level e.eventName]

/-- The remark on a field that names the constant with its predefined value. -/
def fieldRemark (comments : Bool) (m : CategoryModule) (f : Field) : String :=
  if comments ∧ f.value ≠ "" then
    match m.constantFor? f.value with
    | some constant => "  # e.g. " ++ valuesName ++ "." ++ constant
    | none => ""
  else ""

/-- A simple event in Python: a class that its decorator replaces by its only instance. -/
def pythonSingleton (comments : Bool) (e : EventType) : List Line :=
  [.code 1 "@singleton",
   .code 1 ("class " ++ e.name ++ "(" ++ baseTypeName ++ "):")] ++
  onlyIf comments
    [.literal 2 ("Event " ++ e.eventName ++ " without custom parameters."), .blank] ++
  [.code 2 "def __init__(self) -> None:",
   .code 3 "super().__init__("] ++
  identity 4 e ++
  [.code 4 "\x7b\x7d,",
   .code 3 ")"]

/-- An event with parameters in Python: a frozen data class with a field for each key. -/
def pythonRecord (comments : Bool) (m : CategoryModule) (e : EventType) : List Line :=
  [.code 1 "@dataclass(frozen=True)",
   .code 1 ("class " ++ e.name ++ "(" ++ baseTypeName ++ "):")] ++
  onlyIf comments [.literal 2 ("Event " ++ e.eventName ++ "."), .blank] ++
  e.fields.map (fun f => .code 2 (f.name ++ ": str" ++ fieldRemark comments m f)) ++
  onlyIf (!e.fields.isEmpty) [.blank] ++
  [.code 2 "def __post_init__(self) -> None:",
   .code 3 "super().__init__("] ++
  identity 4 e ++
  [.code 4 "\x7b"] ++
  e.fields.map (fun f => ⟨5, [.literal f.key, .code (": self." ++ f.name ++ ",")]⟩) ++
  [.code 4 "\x7d,",
   .code 3 ")"]

/-- The event types of a category in Python, each after a blank line. -/
def pythonEvent (comments : Bool) (m : CategoryModule) (e : EventType) : List Line :=
  .blank :: if e.isSimple then pythonSingleton comments e else pythonRecord comments m e

/-- The container of predefined values in Python. -/
def pythonValues (comments : Bool) (m : CategoryModule) : List Line :=
  [.blank,
   .code 1 ("class " ++ valuesName ++ ":")] ++
  onlyIf comments [.literal 2 "Predefined parameter values.", .blank] ++
  m.constants.map (fun c => ⟨2, [.code (c.name ++ ": Final = "), .literal c.value]⟩)

/-- The module of a category in Python, whose base type stands below `package`. -/
def pythonCategory (comments : Bool) (package : String) (m : CategoryModule) : List Line :=
  [.literal 0 ("Analytics events of the " ++ m.categoryName ++ " category."),
   .code 0 ("# " ++ notice),
   .blank] ++
  onlyIf m.hasRecords [.code 0 "from dataclasses import dataclass"] ++
  onlyIf m.hasConstants [.code 0 "from typing import Final"] ++
  [.blank,
   .code 0 ("from " ++ Naming.below package baseTypeName ++ " import " ++ baseTypeName ++
     if m.hasSingletons then ", singleton" else ""),
   .blank,
   .blank,
   .code 0 ("class " ++ m.containerName ++ ":"),
   .literal 1 ("Events of the " ++ m.categoryName ++ " category.")] ++
  m.eventTypes.flatMap (pythonEvent comments m) ++
  onlyIf m.hasConstants (pythonValues comments m)

/-- A simple event in Kotlin: an object. -/
def kotlinSingleton (e : EventType) : List Line :=
  [.code 1 ("object " ++ e.name ++ " : " ++ baseTypeName ++ "(")] ++
  identity 2 e ++
  [.code 2 "emptyMap(),",
   .code 1 ")"]

/-- An event with parameters in Kotlin: a class with a property for each key, a data class unless
it has none. -/
def kotlinRecord (e : EventType) : List Line :=
  [.code 1 ((if e.fields.isEmpty then "" else "data ") ++ "class " ++ e.name ++ "(")] ++
  e.fields.map (fun f => .code 2 ("val " ++ f.name ++ ": String,")) ++
  [.code 1 (") : " ++ baseTypeName ++ "(")] ++
  identity 2 e ++
  [.code 2 "mapOf("] ++
  e.fields.map (fun f => ⟨3, [.literal f.key, .code (" to " ++ f.name ++ ",")]⟩) ++
  [.code 2 "),",
   .code 1 ")"]

/-- The event types of a category in Kotlin, each after a blank line. -/
def kotlinEvent (comments : Bool) (e : EventType) : List Line :=
  .blank :: onlyIf comments [.around 1 "// Event " e.eventName ""] ++
    if e.isSimple then kotlinSingleton e else kotlinRecord e

/-- The container of predefined values in Kotlin. -/
def kotlinValues (m : CategoryModule) : List Line :=
  [.blank,
   .code 1 ("object " ++ valuesName ++ " \x7b")] ++
  m.constants.map (fun c => ⟨2, [.code ("const val " ++ c.name ++ " = "), .literal c.value]⟩) ++
  [.code 1 "\x7d"]

/-- The file of a category in Kotlin, whose base type stands in `package`. -/
def kotlinCategory (comments : Bool) (package : String) (m : CategoryModule) : List Line :=
  [.code 0 ("// " ++ notice)] ++
  onlyIf (!m.path.isEmpty) [.code 0 ("package " ++ m.path)] ++
  [.blank] ++
  onlyIf (!package.isEmpty) [.code 0 ("import " ++ package ++ "." ++ baseTypeName), .blank] ++
  onlyIf comments [.around 0 "// Events of the " m.categoryName " category."] ++
  [.code 0 ("object " ++ m.containerName ++ " \x7b")] ++
  m.eventTypes.flatMap (kotlinEvent comments) ++
  onlyIf m.hasConstants (kotlinValues m) ++
  [.code 0 "\x7d"]

/-- The lines of the source file of a category. -/
def categoryLines (t : Target) (comments : Bool) (package : String) (m : CategoryModule) :
    List Line :=
  match t with
  | .python => pythonCategory comments package m
  | .kotlin => kotlinCategory comments package m

end EventCodegen.Source
