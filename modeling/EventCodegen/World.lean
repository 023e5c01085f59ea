import EventCodegen.Journal

/-! What the program works on: the tree of files, files held back in memory, the answer that a
request to an address gets, and all that has been noted, requested and shown so far. A failure
leaves the world as it was when it happened. -/
namespace EventCodegen

/-- What comes back for a request to an address. -/
inductive Response
  | answer (status : Int) (contentType : Option String) (text : String)
  | timeout
  | noConnection (cause : String)
  | otherFailure (cause : String)
deriving DecidableEq, Repr

/-- A request to an address with the time it may take. -/
structure Request where
  url : String
  timeout : Json
deriving Repr

/-- The world of a run. -/
structure World where
  files : FileTree := {}
  held : List (String × String) := []
  response : Response := .timeout
  requests : List Request := []
  journal : List Note := []
  display : List String := []
deriving Repr

/-- A computation in the world that may fail. -/
abbrev Run := ExceptT Failure (StateM World)

namespace Run

variable {α : Type}

/-- What a computation does to a world. -/
def apply (x : Run α) (w : World) : Except Failure α × World := (ExceptT.run x).run w

/-- Stops with a failure. -/
def fail (e : Failure) : Run α := throw e

/-- An outcome that has no effect. -/
def ofExcept (x : Except Failure α) : Run α :=
  match x with
  | .ok a => pure a
  | .error e => throw e

/-- A computation that only makes notes. -/
def ofTraced (x : Traced α) : Run α := do
  modify fun w => { w with journal := w.journal ++ x.notes }
  ofExcept x.outcome

/-- Makes one note. -/
def note (level : Level) (part message : String) : Run Unit :=
  modify fun w => { w with journal := w.journal ++ [⟨level, journalName part, message⟩] }

/-- An operation on the tree of files, which may have changed it even if it failed. -/
def onFiles (f : FileTree → Except FileError α × FileTree) : Run α := do
  let w ← get
  let (outcome, files) := f w.files
  set { w with files }
  ofExcept (outcome.mapError .file)

/-- Shows a text on the display. -/
def display (text : String) : Run Unit :=
  modify fun w => { w with display := w.display ++ [text] }

end Run
end EventCodegen
