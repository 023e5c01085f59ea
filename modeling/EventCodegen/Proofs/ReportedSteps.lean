import EventCodegen.Proofs.Effects
import EventCodegen.Proofs.SystemFaults

/-! Steps that go through or fail in a way that is reported. A step gives a result as described or
one of the failures that the program reports (`Reported`, and for computations in the world
`Run.Reports`), and so do steps one after the other. An operation on files is such a step if all its
faults are those of the system. -/
namespace EventCodegen

variable {α β : Type}

/-! ## Outcomes -/

/-- A step that gives a result as described or fails in a way that is reported. -/
inductive Reported (Q : α → Prop) : Except Failure α → Prop
  | ok {a : α} : Q a → Reported Q (.ok a)
  | error {e : Failure} : e.isReported = true → Reported Q (.error e)

namespace Reported

variable {P : α → Prop} {Q : β → Prop} {x : Except Failure α}

theorem of_ok {a : α} (h : x = .ok a) (ha : P a) : Reported P x := h ▸ .ok ha

/-- What a step has given may be used for what is done with its result. -/
theorem with_result (hx : Reported P x) : Reported (fun a => x = .ok a ∧ P a) x := by
  cases hx with
  | ok ha => exact .ok ⟨rfl, ha⟩
  | error he => exact .error he

theorem mono {R : α → Prop} (hx : Reported P x) (h : ∀ a, P a → R a) : Reported R x := by
  cases hx with
  | ok ha => exact .ok (h _ ha)
  | error he => exact .error he

theorem bind {f : α → Except Failure β} (hx : Reported P x) (hf : ∀ a, P a → Reported Q (f a)) :
    Reported Q (x >>= f) := by
  cases hx with
  | ok ha => exact hf _ ha
  | error he => exact .error he

/-- The same step for every item, one after the other. -/
theorem mapM {ι : Type} {f : ι → Traced α} {items : List ι}
    (hf : ∀ i ∈ items, Reported P (f i).outcome) :
    Reported (fun as => ∀ a ∈ as, P a) (items.mapM f).outcome := by
  have hloop : ∀ done : List α, (∀ a ∈ done, P a) →
      Reported (fun as => ∀ a ∈ as, P a) (List.mapM.loop f items done).outcome := by
    induction items with
    | nil => exact fun done h => .ok fun a ha => h a (List.mem_reverse.mp ha)
    | cons i rest ih =>
      rw [List.forall_mem_cons] at hf
      intro done h
      have hstep : List.mapM.loop f (i :: rest) done =
          f i >>= fun a => List.mapM.loop f rest (a :: done) := rfl
      rw [hstep, Traced.outcome_bind]
      exact hf.1.bind fun a ha => ih hf.2 _ (List.forall_mem_cons.mpr ⟨ha, h⟩)
  exact hloop [] nofun

/-- Failures may be worded in another way as long as that one is reported. -/
theorem of_mapError {ε : Type} {x : Except ε α} {f : ε → Failure}
    (h : ∀ e, x = .error e → (f e).isReported = true) :
    Reported (fun a => x = .ok a) (x.mapError f) := by
  cases x with
  | ok a => exact .ok rfl
  | error e => exact .error (h e rfl)

end Reported

/-! ## Computations in the world -/

namespace Run

/-- A computation that gives a result and a world as described, or fails in a way that is
reported. -/
structure Reports (Q : α → World → Prop) (x : Run α) (w : World) : Prop where
  result : ∀ a w', x.apply w = (.ok a, w') → Q a w'
  failure : ∀ e w', x.apply w = (.error e, w') → e.isReported = true

namespace Reports

variable {P : α → World → Prop} {Q : β → World → Prop} {x : Run α} {w : World}

/-- A step that goes through. -/
theorem step {a : α} {w' : World} (h : x.apply w = (.ok a, w')) (hP : P a w') : Reports P x w where
  result := by
    intro b w'' hrun
    obtain ⟨hb, rfl⟩ := Prod.mk.inj (h.symm.trans hrun)
    cases hb
    exact hP
  failure := by
    intro e w'' hrun
    cases (Prod.mk.inj (h.symm.trans hrun)).1

/-- A step that has the outcome of one without effects. -/
theorem of_outcome {y : Except Failure α} {R : α → Prop} {w' : World} (h : x.apply w = (y, w'))
    (hy : Reported R y) (hP : ∀ a, R a → P a w') : Reports P x w := by
  cases hy with
  | ok ha => exact .step h (hP _ ha)
  | error he =>
    refine ⟨fun a w'' hrun => ?_, fun e w'' hrun => ?_⟩
    · cases (Prod.mk.inj (h.symm.trans hrun)).1
    · cases (Prod.mk.inj (h.symm.trans hrun)).1
      exact he

theorem bind {f : α → Run β} (hx : Reports P x w) (hf : ∀ a w', P a w' → Reports Q (f a) w') :
    Reports Q (x >>= f) w where
  result := by
    intro b w'' hrun
    obtain ⟨a, w', ha, hb⟩ := ok_of_bind hrun
    exact (hf a w' (hx.result a w' ha)).result b w'' hb
  failure := by
    intro e w'' hrun
    rcases error_of_bind hrun with he | ⟨a, w', ha, he⟩
    · exact hx.failure e w'' he
    · exact (hf a w' (hx.result a w' ha)).failure e w'' he

/-- What a computation has come to may be used for what is done with its result. -/
theorem with_run (hx : Reports P x w) :
    Reports (fun a w' => x.apply w = (.ok a, w') ∧ P a w') x w :=
  ⟨fun a w' hrun => ⟨hrun, hx.result a w' hrun⟩, hx.failure⟩

theorem mono {R : α → World → Prop} (hx : Reports P x w) (h : ∀ a w', P a w' → R a w') :
    Reports R x w :=
  ⟨fun a w' hrun => h a w' (hx.result a w' hrun), hx.failure⟩

theorem pure {a : α} (h : P a w) : Reports P (Pure.pure a) w := .step rfl h

theorem fail {e : Failure} (h : e.isReported = true) : Reports P (Run.fail e) w :=
  .of_outcome (R := fun _ => False) rfl (.error h) fun _ => False.elim

theorem ofExcept {y : Except Failure α} {R : α → Prop} (hy : Reported R y)
    (h : ∀ a, R a → P a w) : Reports P (Run.ofExcept y) w :=
  .of_outcome (apply_ofExcept y w) hy h

theorem ofTraced {y : Traced α} {R : α → Prop} (hy : Reported R y.outcome)
    (h : ∀ a, R a → P a (w.noting y.notes)) : Reports P (Run.ofTraced y) w :=
  .of_outcome (apply_ofTraced y w) hy h

theorem ofExcept_self {y : Except Failure α} {R : α → Prop} (hy : Reported R y) :
    Reports (fun a _ => R a) (Run.ofExcept y) w := .ofExcept hy fun _ h => h

theorem ofTraced_self {y : Traced α} {R : α → Prop} (hy : Reported R y.outcome) :
    Reports (fun a _ => R a) (Run.ofTraced y) w := .ofTraced hy fun _ h => h

/-- The world itself may be looked at. -/
theorem bind_get {f : World → Run β} (h : Reports Q (f w) w) :
    Reports Q (MonadState.get >>= f) w :=
  .bind (P := fun a w' => a = w ∧ w' = w) (.step rfl ⟨rfl, rfl⟩) fun _ _ hget =>
    hget.1 ▸ hget.2 ▸ h

/-- Whatever is noted, what comes after it decides. -/
theorem bind_note {level : Level} {part message : String} {f : Unit → Run β}
    (h : Reports Q (f ()) (w.noting [⟨level, journalName part, message⟩])) :
    Reports Q (Run.note level part message >>= f) w :=
  .bind (P := fun _ w' => w' = w.noting [⟨level, journalName part, message⟩])
    (.step (apply_note level part message w) rfl) fun _ _ hnote => hnote ▸ h

/-- A note that is only made under a condition. -/
theorem when_note {c : Prop} [Decidable c] {level : Level} {part message : String} {rest : Run β}
    (h : ∀ w', Reports Q rest w') :
    Reports Q (if c then Run.note level part message >>= fun _ => rest else rest) w := by
  split
  · exact .bind_note (h _)
  · exact h w

theorem onFiles {f : FileTree → Except FileError α × FileTree}
    (hf : FileTree.SystemFaults (f w.files).1)
    (h : ∀ a, P a { w with files := (f w.files).2 }) : Reports P (Run.onFiles f) w := by
  refine .of_outcome (R := fun _ => True) (Run.apply_onFiles f w) ?_ fun a _ => h a
  cases houtcome : (f w.files).1 with
  | ok a => exact .ok trivial
  | error e => exact .error (hf e houtcome)

end Reports

end Run

end EventCodegen
