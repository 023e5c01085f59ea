import EventCodegen.Failure

/-! What the program notes down while it works, and computations that do nothing else. -/
namespace EventCodegen

/-- How important an entry of the journal is. -/
inductive Level
  | debug
  | info
  | warning
  | error
deriving DecidableEq, Repr

namespace Level

def name : Level → String
  | debug => "DEBUG"
  | info => "INFO"
  | warning => "WARNING"
  | error => "ERROR"

def rank : Level → Nat
  | debug => 0
  | info => 1
  | warning => 2
  | error => 3

end Level

/-- The name that all parts of the program share. -/
def programName : String := "eventgen"

/-- The name under which a part of the program makes its notes: below the name of the program. -/
def journalName (part : String) : String :=
  if part = programName ∨ (programName ++ ".").toList.isPrefixOf part.toList then part
  else programName ++ "." ++ part

/-- One note: its importance, who made it, and what it says. -/
structure Note where
  level : Level
  source : String
  message : String
deriving DecidableEq, Repr

/-- Whether a note is at least as important as `least`. -/
def Note.isAtLeast (least : Level) (n : Note) : Bool := least.rank ≤ n.level.rank

/-- The outcome of a computation together with the notes made on the way, which are kept even if it
fails. -/
structure Traced (α : Type) where
  notes : List Note
  outcome : Except Failure α

namespace Traced

variable {α β : Type}

instance : Monad Traced where
  pure a := ⟨[], .ok a⟩
  bind x f := match x.outcome with
    | .error e => ⟨x.notes, .error e⟩
    | .ok a => ⟨x.notes ++ (f a).notes, (f a).outcome⟩

/-- An outcome without notes. -/
def ofExcept (x : Except Failure α) : Traced α := ⟨[], x⟩

/-- Stops with a failure. -/
def fail (e : Failure) : Traced α := ⟨[], .error e⟩

/-- Makes one note. -/
def note (level : Level) (part message : String) : Traced Unit :=
  ⟨[⟨level, journalName part, message⟩], .ok ()⟩

/-- Makes several notes of the same importance. -/
def noteAll (level : Level) (part : String) (messages : List String) : Traced Unit :=
  ⟨messages.map (fun m => ⟨level, journalName part, m⟩), .ok ()⟩

@[simp] theorem outcome_pure (a : α) : (pure a : Traced α).outcome = .ok a := rfl

@[simp] theorem outcome_ofExcept (x : Except Failure α) : (ofExcept x).outcome = x := rfl

@[simp] theorem outcome_fail (e : Failure) : (fail e : Traced α).outcome = .error e := rfl

@[simp] theorem outcome_note (level : Level) (part message : String) :
    (note level part message).outcome = .ok () := rfl

@[simp] theorem outcome_noteAll (level : Level) (part : String) (messages : List String) :
    (noteAll level part messages).outcome = .ok () := rfl

/-- Notes have no influence on the outcome. -/
@[simp] theorem outcome_bind (x : Traced α) (f : α → Traced β) :
    (x >>= f).outcome = x.outcome >>= fun a => (f a).outcome := by
  show (match x.outcome with
    | .error e => (⟨x.notes, .error e⟩ : Traced β)
    | .ok a => ⟨x.notes ++ (f a).notes, (f a).outcome⟩).outcome = _
  cases x.outcome <;> rfl

/-- The notes of one step after another stand in this order. -/
theorem notes_bind_ok {x : Traced α} {a : α} (h : x.outcome = .ok a) (f : α → Traced β) :
    (x >>= f).notes = x.notes ++ (f a).notes := by
  show (match x.outcome with
    | .error e => (⟨x.notes, .error e⟩ : Traced β)
    | .ok a => ⟨x.notes ++ (f a).notes, (f a).outcome⟩).notes = _
  rw [h]

/-- Nothing is noted after a failure. -/
theorem notes_bind_error {x : Traced α} {e : Failure} (h : x.outcome = .error e)
    (f : α → Traced β) : (x >>= f).notes = x.notes := by
  show (match x.outcome with
    | .error e => (⟨x.notes, .error e⟩ : Traced β)
    | .ok a => ⟨x.notes ++ (f a).notes, (f a).outcome⟩).notes = _
  rw [h]

end Traced
end EventCodegen
