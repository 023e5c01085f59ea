import Mathlib.Data.List.Forall2

/-! Outcomes of steps that may fail: what is known of the steps when the whole goes through, and two
runs whose steps agree one by one. -/
namespace EventCodegen

variable {ε α β : Type}

theorem ok_bind (a : α) (f : α → Except ε β) : (.ok a >>= f) = f a := rfl

theorem error_bind (e : ε) (f : α → Except ε β) : (.error e >>= f) = .error e := rfl

/-- Two steps go through if the first does and the second does on its result. -/
theorem bind_eq_ok {x : Except ε α} {f : α → Except ε β} {b : β} :
    (x >>= f) = .ok b ↔ ∃ a, x = .ok a ∧ f a = .ok b := by
  cases x with
  | error e =>
    constructor
    · intro h
      cases h
    · rintro ⟨a, ha, _⟩
      cases ha
  | ok a =>
    constructor
    · exact fun h => ⟨a, rfl, h⟩
    · rintro ⟨a', ha, h⟩
      cases ha
      exact h

/-- A step that is only put in another form fails as it did. -/
theorem bind_ok_eq_error {x : Except ε α} {g : α → β} {e : ε} :
    (x >>= fun a => .ok (g a)) = .error e ↔ x = .error e := by
  cases x with
  | error e' =>
    show (.error e' : Except ε β) = .error e ↔ (.error e' : Except ε α) = .error e
    rw [Except.error.injEq, Except.error.injEq]
  | ok a =>
    constructor
    · intro h
      cases h
    · intro h
      cases h

/-- Another wording of its failures does not change what a step gives. -/
theorem mapError_eq_ok {δ : Type} {x : Except ε α} {f : ε → δ} {a : α} :
    x.mapError f = .ok a ↔ x = .ok a := by
  cases x with
  | error e =>
    constructor
    · intro h
      cases h
    · intro h
      cases h
  | ok b =>
    show (.ok b : Except δ α) = .ok a ↔ (.ok b : Except ε α) = .ok a
    rw [Except.ok.injEq, Except.ok.injEq]

/-- Two outcomes agree if both come about, with results that `R` relates, or both fail alike. -/
inductive Agree (R : α → β → Prop) : Except ε α → Except ε β → Prop
  | ok {a : α} {b : β} : R a b → Agree R (.ok a) (.ok b)
  | error (e : ε) : Agree R (.error e) (.error e)

/-- What fails on one side fails alike on the other. -/
theorem Agree.error_iff {R : α → β → Prop} {x : Except ε α} {y : Except ε β} (h : Agree R x y)
    (e : ε) : x = .error e ↔ y = .error e := by
  cases h with
  | ok _ =>
    constructor
    · intro hx
      cases hx
    · intro hy
      cases hy
  | error e' => rw [Except.error.injEq, Except.error.injEq]

/-- Steps that agree on related results agree one after the other. -/
theorem Agree.bind {γ δ : Type} {R : α → β → Prop} {S : γ → δ → Prop} {x : Except ε α}
    {y : Except ε β} {f : α → Except ε γ} {g : β → Except ε δ} (h : Agree R x y)
    (hnext : ∀ a b, R a b → Agree S (f a) (g b)) : Agree S (x >>= f) (y >>= g) := by
  cases h with
  | ok hab => exact hnext _ _ hab
  | error e => exact .error e

/-- Traversals agree if their steps do. -/
theorem Agree.mapM {ι : Type} {R : α → β → Prop} {f : ι → Except ε α} {g : ι → Except ε β}
    (h : ∀ i, Agree R (f i) (g i)) (items : List ι) :
    Agree (List.Forall₂ R) (items.mapM f) (items.mapM g) := by
  induction items with
  | nil => exact .ok .nil
  | cons i rest ih =>
    rw [List.mapM_cons, List.mapM_cons]
    refine (h i).bind fun a b hab => ?_
    refine ih.bind fun as bs hrest => ?_
    exact .ok (.cons hab hrest)

end EventCodegen
