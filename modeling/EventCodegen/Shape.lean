import EventCodegen.Plan.Basic
import EventCodegen.Target

/-! The shape of the generated type of an event: a singleton for a simple event, else a record with
one field for each key besides the screen name, in the order in which the keys first appear. -/
namespace EventCodegen

/-- The name of the type that all generated event types extend. -/
def baseTypeName : String := "BaseEvent"

/-- The name of the container of predefined values. -/
def valuesName : String := "Values"

/-- One field of a record: the key it stands for, its name, and the value that the plan gives. -/
structure Field where
  key : String
  name : String
  value : String := ""
deriving DecidableEq, Repr

/-- All that is known about the type of one event. -/
structure ResolvedEvent where
  eventName : String
  typeName : String
  isSimple : Bool
  screenName : String
  fields : List Field := []
  values : List String := []
deriving DecidableEq, Repr

/-- In strict mode every event has to name its screen. -/
structure MissingScreen where
  category : String
  event : String
deriving DecidableEq, Repr

def MissingScreen.message (e : MissingScreen) : String :=
  "screen_name parameter is not defined for event '" ++ e.category ++ "." ++ e.event ++ "'!"

namespace Shape

/-- The scope of the type names of one category: the base type and the values container are
visible there, so no event type takes their names. -/
def typeScope (rules : Scope) : Scope := rules.fork [baseTypeName, valuesName]

/-- The fields for some parameters, given the keys that have one already. -/
def fieldsFrom (scope : Scope) (seen : List String) : List Parameter → List Field
  | [] => []
  | p :: rest =>
    if p.key = screenKey ∨ p.key ∈ seen then fieldsFrom scope seen rest
    else
      let (name, scope) := scope.unique p.key .camel
      ⟨p.key, name, p.value⟩ :: fieldsFrom scope (p.key :: seen) rest

/-- The fields of a record. Field names are unique within their event. -/
def fields (rules : Scope) (parameters : List Parameter) : List Field :=
  fieldsFrom rules.fork [] parameters

/-- `known` with those of `values` at its end that it lacks, in their order. -/
def addNew (known : List String) : List String → List String
  | [] => known
  | v :: rest => addNew (if v ∈ known then known else known ++ [v]) rest

/-- Whether an event may be resolved: strict mode asks for a screen name. -/
def admits (strict : Bool) (e : Event) : Bool := !strict || e.screen?.isSome

/-- The resolved event, and the scope of type names after it. -/
def resolved (rules : Scope) (types : Scope) (e : Event) : ResolvedEvent × Scope :=
  let (typeName, types) := types.unique (e.name ++ "_event") .pascal
  ({ eventName := e.name
     typeName
     isSimple := e.isSimple
     screenName := (e.screen?.map (·.value)).getD ""
     fields := if e.isSimple then [] else fields rules e.parameters
     values := e.values }, types)

/-- Resolves one event of a category. -/
def resolve (rules : Scope) (strict : Bool) (category : String) (types : Scope) (e : Event) :
    Except MissingScreen (ResolvedEvent × Scope) :=
  if admits strict e then .ok (resolved rules types e) else .error ⟨category, e.name⟩

/-- Resolves events in order. -/
def resolveAll (rules : Scope) (strict : Bool) (category : String) :
    Scope → List Event → Except MissingScreen (List ResolvedEvent)
  | _, [] => .ok []
  | types, e :: rest => do
    let (r, types) ← resolve rules strict category types e
    let rs ← resolveAll rules strict category types rest
    return r :: rs

/-- Resolves the events of a category. -/
def resolveCategory (rules : Scope) (strict : Bool) (c : Category) :
    Except MissingScreen (List ResolvedEvent) :=
  resolveAll rules strict c.name (typeScope rules) c.events

/-- The distinct predefined values of some events, in the order of their first appearance. -/
def predefinedValues (events : List ResolvedEvent) : List String :=
  events.foldl (fun known r => addNew known r.values) []

end Shape
end EventCodegen
