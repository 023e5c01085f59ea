import EventCodegen.World

/-! What computations do to the world. Steps one after the other hand the world on, and the first
failure ends them (`apply_bind`). A computation that only makes notes changes nothing else
(`apply_ofTraced`). Most parts of the program leave the tree of files alone whatever happens
(`Run.KeepsFiles`), and a computation does so if its steps do. -/
namespace EventCodegen

/-- The world after some notes. -/
def World.noting (w : World) (notes : List Note) : World :=
  { w with journal := w.journal ++ notes }

theorem World.noting_noting (w : World) (a b : List Note) :
    (w.noting a).noting b = w.noting (a ++ b) := by
  simp [World.noting]

namespace Run

variable {α β : Type}

/-! ## Single steps -/

theorem apply_bind (x : Run α) (f : α → Run β) (w : World) :
    (x >>= f).apply w = match x.apply w with
      | (.ok a, w') => (f a).apply w'
      | (.error e, w') => (.error e, w') := by
  rw [apply, apply, ExceptT.run_bind, StateT.run_bind]
  obtain ⟨outcome, w'⟩ := (ExceptT.run x).run w
  cases outcome with
  | ok a => rfl
  | error e => rfl

theorem apply_bind_of_ok {x : Run α} {f : α → Run β} {a : α} {w w' : World}
    (h : x.apply w = (.ok a, w')) : (x >>= f).apply w = (f a).apply w' := by
  rw [apply_bind, h]

theorem apply_bind_of_error {x : Run α} {f : α → Run β} {e : Failure} {w w' : World}
    (h : x.apply w = (.error e, w')) : (x >>= f).apply w = (.error e, w') := by
  rw [apply_bind, h]

/-- Steps that go through went through one after the other. -/
theorem ok_of_bind {x : Run α} {f : α → Run β} {b : β} {w w' : World}
    (h : (x >>= f).apply w = (.ok b, w')) :
    ∃ a w₁, x.apply w = (.ok a, w₁) ∧ (f a).apply w₁ = (.ok b, w') := by
  rcases hx : x.apply w with ⟨e | a, w₁⟩
  · rw [apply_bind_of_error hx] at h
    cases h
  · exact ⟨a, w₁, rfl, (apply_bind_of_ok hx).symm.trans h⟩

/-- A failure comes from the first step or from the second. -/
theorem error_of_bind {x : Run α} {f : α → Run β} {e : Failure} {w w' : World}
    (h : (x >>= f).apply w = (.error e, w')) :
    x.apply w = (.error e, w') ∨
      ∃ a w₁, x.apply w = (.ok a, w₁) ∧ (f a).apply w₁ = (.error e, w') := by
  rcases hx : x.apply w with ⟨e' | a, w₁⟩
  · rw [apply_bind_of_error hx] at h
    cases h
    exact Or.inl rfl
  · exact Or.inr ⟨a, w₁, rfl, (apply_bind_of_ok hx).symm.trans h⟩

theorem apply_tryCatch (x : Run α) (handle : Failure → Run α) (w : World) :
    (tryCatch x handle).apply w = match x.apply w with
      | (.ok a, w') => (.ok a, w')
      | (.error e, w') => (handle e).apply w' := by
  rw [apply, apply, ExceptT.run_tryCatch, StateT.run_bind]
  obtain ⟨outcome, w'⟩ := (ExceptT.run x).run w
  cases outcome with
  | ok a => rfl
  | error e => rfl

theorem apply_ofExcept (x : Except Failure α) (w : World) : (ofExcept x).apply w = (x, w) := by
  cases x <;> rfl

/-- What an operation on the files leaves is kept even if it failed. -/
theorem apply_onFiles (f : FileTree → Except FileError α × FileTree) (w : World) :
    (onFiles f).apply w = ((f w.files).1.mapError .file, { w with files := (f w.files).2 }) :=
  apply_ofExcept ((f w.files).1.mapError Failure.file) { w with files := (f w.files).2 }

theorem apply_note (level : Level) (part message : String) (w : World) :
    (note level part message).apply w =
      (.ok (), w.noting [⟨level, journalName part, message⟩]) := rfl

theorem apply_ofTraced (x : Traced α) (w : World) :
    (ofTraced x).apply w = (x.outcome, w.noting x.notes) := by
  rw [ofTraced, apply_bind]
  exact apply_ofExcept x.outcome _

/-! ## Computations that leave the files alone -/

/-- Whatever comes of a computation, the tree of files is as before. -/
def KeepsFiles (x : Run α) : Prop := ∀ w, (x.apply w).2.files = w.files

namespace KeepsFiles

theorem pure (a : α) : KeepsFiles (Pure.pure a) := fun _ => rfl

theorem fail (e : Failure) : KeepsFiles (Run.fail e : Run α) := fun _ => rfl

theorem get : KeepsFiles (MonadState.get : Run World) := fun _ => rfl

theorem note (level : Level) (part message : String) :
    KeepsFiles (Run.note level part message) := fun _ => rfl

theorem display (text : String) : KeepsFiles (Run.display text) := fun _ => rfl

theorem ofExcept (x : Except Failure α) : KeepsFiles (Run.ofExcept x) := fun w => by
  rw [apply_ofExcept]

theorem ofTraced (x : Traced α) : KeepsFiles (Run.ofTraced x) := fun w => by
  rw [apply_ofTraced]
  rfl

/-- The files after two steps are those after the first if the second leaves them alone. -/
theorem files_bind {x : Run α} {f : α → Run β} (hf : ∀ a, KeepsFiles (f a)) (w : World) :
    ((x >>= f).apply w).2.files = (x.apply w).2.files := by
  rw [apply_bind]
  rcases x.apply w with ⟨e | a, w'⟩
  · rfl
  · exact hf a w'

theorem bind {x : Run α} {f : α → Run β} (hx : KeepsFiles x) (hf : ∀ a, KeepsFiles (f a)) :
    KeepsFiles (x >>= f) := fun w => (files_bind hf w).trans (hx w)

/-- A step that is only taken under a condition. -/
theorem when {c : Prop} [Decidable c] {x : Run α} {rest : Run β} (hx : KeepsFiles x)
    (hrest : KeepsFiles rest) : KeepsFiles (if c then x >>= fun _ => rest else rest) := by
  split
  · exact .bind hx fun _ => hrest
  · exact hrest

theorem tryCatch {x : Run α} {handle : Failure → Run α} (hx : KeepsFiles x)
    (hhandle : ∀ e, KeepsFiles (handle e)) :
    KeepsFiles (tryCatch x handle) := by
  intro w
  rw [← hx w, apply_tryCatch]
  rcases x.apply w with ⟨e | a, w'⟩
  · exact hhandle e w'
  · rfl

end KeepsFiles

end Run
end EventCodegen
