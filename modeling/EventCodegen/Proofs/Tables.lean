import Mathlib.Data.List.Basic

/-! Tables as lists of pairs, with something taken out of them. -/
namespace EventCodegen

section
variable {κ α : Type} [BEq κ] [LawfulBEq κ]

/-- Taking a key out of a table has no influence on the other keys. -/
theorem lookup_filter_ne {key other : κ} (h : other ≠ key) (table : List (κ × α)) :
    (table.filter (·.1 != key)).lookup other = table.lookup other := by
  induction table with
  | nil => rfl
  | cons m rest ih =>
    obtain ⟨k, a⟩ := m
    by_cases hk : k = key
    · subst hk
      have hother : (other == k) = false := beq_false_of_ne h
      simp [List.lookup_cons, hother, ih]
    · simp [List.lookup_cons, hk, ih]

/-- A key that has been taken out stands for nothing. -/
theorem lookup_filter_self (key : κ) (table : List (κ × α)) :
    (table.filter (·.1 != key)).lookup key = none := by
  rw [List.lookup_eq_none_iff]
  intro m hm
  have hkept := (List.mem_filter.mp hm).2
  rw [bne_iff_ne] at hkept
  simpa using Ne.symm hkept

end

/-- Taking out all that stands for one thing has no influence on what stands for another. -/
theorem lookup_filter_value {κ : Type} [BEq κ] {key : κ} {name target : String}
    (h : target ≠ name) : ∀ {table : List (κ × String)}, table.lookup key = some target →
      (table.filter (·.2 != name)).lookup key = some target
  | (k, a) :: rest, hlookup => by
    rw [List.lookup_cons] at hlookup
    cases hk : key == k with
    | true =>
      rw [hk] at hlookup
      obtain rfl : a = target := Option.some.inj hlookup
      simp [List.lookup_cons, h, hk]
    | false =>
      rw [hk] at hlookup
      have hrest := lookup_filter_value h hlookup
      by_cases ha : a = name
      · simpa [ha] using hrest
      · simpa [List.lookup_cons, ha, hk] using hrest

end EventCodegen
