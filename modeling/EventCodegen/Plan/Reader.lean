import EventCodegen.Plan.Basic
import EventCodegen.Json.Parser

/-! Reading a tracking plan from JSON: an array of categories, each an object with a `name` and
perhaps `events`, each of those an object with a `name` and perhaps `parameters`, each of those an
object with a `name` and perhaps a `value`. A node is checked as an object, then its name, then its
list or value, and only then its children; the first fault in that order is the one reported. -/
namespace EventCodegen

namespace Plan

/-- A node of the plan, by its places in the lists above it. -/
inductive Node
  | category (i : Nat)
  | event (i j : Nat)
  | parameter (i j k : Nat)
deriving DecidableEq, Repr

/-- The path of a category. -/
def categoryPath (i : Nat) : String := "[" ++ toString i ++ "]"

/-- The path of an event of category `i`. -/
def eventPath (i j : Nat) : String := categoryPath i ++ ".events[" ++ toString j ++ "]"

/-- The path of a node. -/
def Node.path : Node → String
  | category i => categoryPath i
  | event i j => eventPath i j
  | parameter i j k => eventPath i j ++ ".parameters[" ++ toString k ++ "]"

/-- What a message says about the surroundings of a node. -/
inductive Surroundings
  | none
  | inCategory (name : String)
  | inEvent (name : String)
deriving DecidableEq, Repr

def Surroundings.text : Surroundings → String
  | none => ""
  | inCategory name => " (category '" ++ name ++ "')"
  | inEvent name => " (event '" ++ name ++ "')"

/-- What is wrong with a node. A `got` is the type of the value found. -/
inductive Problem
  | notObject (got : String)
  | nameMissing
  | nameBroken (position : Nat)
  | notArray (member got : String)
  | valueType (key got : String)
  | valueBroken (key : String) (position : Nat)
deriving DecidableEq, Repr

/-- A text with a surrogate that pairs with nothing, which UTF-8 cannot write. -/
def brokenText (what : String) (position : Nat) : String :=
  what ++ " contains a character that can't be encoded as UTF-8 at position " ++ toString position

def Problem.message : Problem → String
  | notObject got => "expected an object, got " ++ got
  | nameMissing => "'name' must be a string"
  | nameBroken position => brokenText "'name'" position
  | notArray member got => "'" ++ member ++ "' must be an array, got " ++ got
  | valueType key got => "parameter '" ++ key ++ "' value must be a string, got " ++ got
  | valueBroken key position => brokenText ("parameter '" ++ key ++ "' value") position

end Plan

open Plan

/-- Why a text is no tracking plan. -/
inductive PlanError
  | malformed (reason : Json.Reason) (line column position : Nat)
  | rootNotArray (got : String)
  | faulty (node : Node) (surroundings : Surroundings) (problem : Problem)
deriving DecidableEq, Repr

def PlanError.message : PlanError → String
  | malformed reason line column position =>
    "Schema is not valid JSON: " ++ reason.messageAt line column position
  | rootNotArray got => "Schema root must be an array of categories, got " ++ got
  | faulty node surroundings problem =>
    node.path ++ surroundings.text ++ ": " ++ problem.message

namespace Plan

/-- The members of a node that has to be an object. -/
def asObject (node : Node) (surroundings : Surroundings) : Json → Except PlanError Json.Fields
  | .obj fields => .ok fields
  | x => .error (.faulty node surroundings (.notObject x.typeName))

/-- The name of a node. -/
def nameOf (node : Node) (surroundings : Surroundings) (fields : Json.Fields) :
    Except PlanError String :=
  match Json.lookup "name" fields with
  | some (.str (.text name)) => .ok name
  | some (.str (.broken clean _ _)) =>
    .error (.faulty node surroundings (.nameBroken clean.length))
  | _ => .error (.faulty node surroundings .nameMissing)

/-- The list that a node holds under `member`; a missing list and null are read as empty. -/
def listOf (node : Node) (surroundings : Surroundings) (member : String) (fields : Json.Fields) :
    Except PlanError (List Json) :=
  match Json.lookup member fields with
  | none => .ok []
  | some .null => .ok []
  | some (.arr items) => .ok items
  | some x => .error (.faulty node surroundings (.notArray member x.typeName))

/-- The value of a parameter as text. -/
def valueOf (node : Node) (surroundings : Surroundings) (key : String) (fields : Json.Fields) :
    Except PlanError String :=
  match Json.lookup "value" fields with
  | none => .ok ""
  | some .null => .ok ""
  | some (.bool b) => .ok (if b then "true" else "false")
  | some (.int n) => .ok (toString n)
  | some (.float x) => .ok x.text
  | some (.str (.text s)) => .ok s
  | some (.str (.broken clean _ _)) =>
    .error (.faulty node surroundings (.valueBroken key clean.length))
  | some x => .error (.faulty node surroundings (.valueType key x.typeName))

/-- Reads the items of a list in order, each with its place in the list. -/
def readAll {α : Type} (read : Nat → Json → Except PlanError α) :
    (place : Nat) → List Json → Except PlanError (List α)
  | _, [] => .ok []
  | place, x :: rest => do
    let a ← read place x
    let as ← readAll read (place + 1) rest
    return a :: as

/-- Reads the parameter at `node` of the event named `event`. -/
def readParameter (node : Node) (event : String) (x : Json) : Except PlanError Parameter := do
  let fields ← asObject node (.inEvent event) x
  let key ← nameOf node (.inEvent event) fields
  let value ← valueOf node (.inEvent event) key fields
  return { key, value }

/-- Reads event `j` of category `i`, which is named `category`. -/
def readEvent (i : Nat) (category : String) (j : Nat) (x : Json) : Except PlanError Event := do
  let fields ← asObject (.event i j) (.inCategory category) x
  let name ← nameOf (.event i j) .none fields
  let items ← listOf (.event i j) (.inEvent name) "parameters" fields
  let parameters ← readAll (fun k => readParameter (.parameter i j k) name) 0 items
  return { name, parameters }

/-- Reads category `i`. -/
def readCategory (i : Nat) (x : Json) : Except PlanError Category := do
  let fields ← asObject (.category i) .none x
  let name ← nameOf (.category i) .none fields
  let items ← listOf (.category i) .none "events" fields
  let events ← readAll (readEvent i name) 0 items
  return { name, events }

/-- Reads a plan from a decoded JSON value. -/
def ofJson : Json → Except PlanError (List Category)
  | .arr items => readAll readCategory 0 items
  | x => .error (.rootNotArray x.typeName)

/-- What stops the reading of a plan from text: it is no plan, or one of its whole numbers has more
digits than are read. -/
inductive ReadFault
  | plan (e : PlanError)
  | hugeInteger
deriving DecidableEq, Repr

/-- Reads a plan from JSON text. -/
def parse (s : String) : Except ReadFault (List Category) :=
  match Json.parse s with
  | .ok x => (ofJson x).mapError .plan
  | .error (.malformed reason line column position) =>
    .error (.plan (.malformed reason line column position))
  | .error .hugeInteger => .error .hugeInteger

end Plan
end EventCodegen
