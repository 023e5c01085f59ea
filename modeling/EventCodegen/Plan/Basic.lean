/-! The tracking plan: categories of events, each with its parameters. -/
namespace EventCodegen

/-- One parameter of an event: its key and the value that the plan gives it. -/
structure Parameter where
  key : String
  value : String
deriving DecidableEq, Repr

/-- One event that can be tracked. -/
structure Event where
  name : String
  parameters : List Parameter := []
deriving DecidableEq, Repr

/-- A named group of events. -/
structure Category where
  name : String
  events : List Event := []
deriving DecidableEq, Repr

/-- The key of the parameter that names the screen an event belongs to. -/
def screenKey : String := "screen_name"

/-- An empty value and the word `null` both mean that the plan gives no value. -/
def Parameter.hasValue (p : Parameter) : Bool := p.value != "" && p.value != "null"

/-- The first parameter that names the screen. -/
def Event.screen? (e : Event) : Option Parameter := e.parameters.find? (·.key == screenKey)

/-- A simple event has no parameter besides a single screen name. -/
def Event.isSimple (e : Event) : Bool :=
  match e.parameters with
  | [] => true
  | [p] => p.key == screenKey
  | _ => false

/-- The values that the plan gives to the parameters of an event. -/
def Event.values (e : Event) : List String := (e.parameters.filter (·.hasValue)).map (·.value)

end EventCodegen
