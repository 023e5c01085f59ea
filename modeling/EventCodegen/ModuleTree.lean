import EventCodegen.Shape

/-! What is generated for a category, before it is written in any language: a container with one
type for each event and the constants for the predefined values. -/
namespace EventCodegen

/-- The generated type of one event. -/
structure EventType where
  name : String
  eventName : String
  categoryName : String
  screenName : String
  isSimple : Bool
  fields : List Field := []
deriving DecidableEq, Repr

/-- A named constant of the values container. -/
structure Constant where
  name : String
  value : String
deriving DecidableEq, Repr

/-- The module of one category. -/
structure CategoryModule where
  categoryName : String
  containerName : String
  path : String
  eventTypes : List EventType := []
  constants : List Constant := []
deriving DecidableEq, Repr

namespace CategoryModule

def hasConstants (m : CategoryModule) : Bool := !m.constants.isEmpty
def hasRecords (m : CategoryModule) : Bool := m.eventTypes.any (!·.isSimple)
def hasSingletons (m : CategoryModule) : Bool := m.eventTypes.any (·.isSimple)

/-- The name of the constant that holds `value`, if one does. -/
def constantFor? (m : CategoryModule) (value : String) : Option String :=
  (m.constants.find? (·.value == value)).map (·.name)

/-- Gives the constant `name` the value `value`: in its old place if there is one, else at the
end. -/
def putConstant (name value : String) : List Constant → List Constant
  | [] => [⟨name, value⟩]
  | c :: rest => if c.name = name then ⟨name, value⟩ :: rest else c :: putConstant name value rest

/-- The constants for some values. Of values with the same constant name the last one stays. -/
def constantsFor (rules : Scope) (values : List String) : List Constant :=
  values.foldl (fun cs v => putConstant (rules.identifier v .constant) v cs) []

/-- The type of a resolved event. -/
def eventType (category : String) (r : ResolvedEvent) : EventType :=
  { name := r.typeName
    eventName := r.eventName
    categoryName := category
    screenName := r.screenName
    isSimple := r.isSimple
    fields := r.fields }

/-- The module of a category below `package`, from its resolved events and its values. -/
def build (rules : Scope) (package category : String) (events : List ResolvedEvent)
    (values : List String) : CategoryModule :=
  { categoryName := category
    containerName := rules.identifier (category ++ "_events") .pascal
    path := Naming.below package (rules.moduleName category)
    eventTypes := events.map (eventType category)
    constants := constantsFor rules values }

/-- The module of a category of the plan. -/
def ofCategory (rules : Scope) (strict : Bool) (package : String) (c : Category) :
    Except MissingScreen CategoryModule := do
  let events ← Shape.resolveCategory rules strict c
  return build rules package c.name events (Shape.predefinedValues events)

end CategoryModule
end EventCodegen
