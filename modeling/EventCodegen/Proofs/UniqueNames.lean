import Mathlib.Data.List.Nodup
import Mathlib.Data.List.Perm.Subperm
import Std.Data.String.ToNat
import EventCodegen.Scope
import EventCodegen.Proofs.Identifiers

/-! What a scope hands out. The search for a free number is bounded by the number of names in use,
and the bound is never met: the candidates are pairwise distinct, so they cannot all be in use
(`free_not_mem`). Where no reserved word ends like a suffix, the identifiers of a scope are no
reserved words, with or without a number after them. -/
namespace EventCodegen.Scope

/-! ## The search for a free number -/

/-- `base` with a number after it, as a search tries it. -/
def candidate (base : String) (k : Nat) : String := base ++ toString k

theorem candidate_injective (base : String) : Function.Injective (candidate base) := by
  intro j k h
  have hlist := congrArg String.toList h
  simp only [candidate, String.toList_append, List.append_cancel_left_eq] at hlist
  have hrepr := String.toList_injective hlist
  rw [Nat.toString_eq_repr, Nat.toString_eq_repr] at hrepr
  exact Nat.repr_injective hrepr

/-- The search ends at the first candidate that is free, or where its bound ends it. -/
theorem numbered_spec (used : List String) (base : String) : ∀ fuel k : Nat, ∃ n, k ≤ n ∧
    numbered used base fuel k = candidate base n ∧
    (∀ j, k ≤ j → j < n → candidate base j ∈ used) ∧ (candidate base n ∉ used ∨ n = k + fuel)
  | 0, k => ⟨k, Nat.le_refl k, rfl, by intro j hj hjk; omega, Or.inr rfl⟩
  | fuel + 1, k => by
    by_cases hmem : candidate base k ∈ used
    · obtain ⟨n, hkn, heq, hused, hend⟩ := numbered_spec used base fuel (k + 1)
      refine ⟨n, by omega, ?_, ?_, ?_⟩
      · exact (if_pos hmem).trans heq
      · intro j hj hjn
        rcases Nat.eq_or_lt_of_le hj with rfl | hj
        · exact hmem
        · exact hused j hj hjn
      · rcases hend with hfree | hend
        · exact Or.inl hfree
        · exact Or.inr (by omega)
    · exact ⟨k, Nat.le_refl k, if_neg hmem, by intro j hj hjk; omega, Or.inl hmem⟩

/-- No more than `used.length` candidates in a row are in use. -/
theorem run_le_length {used : List String} {base : String} {k n : Nat}
    (h : ∀ j, k ≤ j → j < k + n → candidate base j ∈ used) : n ≤ used.length := by
  have hnodup : ((List.range' k n).map (candidate base)).Nodup :=
    List.Nodup.map (candidate_injective base) (List.nodup_range' 1)
  have hsub : (List.range' k n).map (candidate base) ⊆ used := by
    intro s hs
    obtain ⟨j, hj, rfl⟩ := List.mem_map.mp hs
    obtain ⟨hkj, hjn⟩ := List.mem_range'_1.mp hj
    exact h j hkj hjn
  simpa using (List.Nodup.subperm hnodup hsub).length_le

/-- A name in use gets the least number from one on that makes it free. -/
theorem free_of_mem {used : List String} {base : String} (h : base ∈ used) :
    ∃ n, 1 ≤ n ∧ free used base = candidate base n ∧ candidate base n ∉ used ∧
      ∀ j, 1 ≤ j → j < n → candidate base j ∈ used := by
  obtain ⟨n, hn, heq, hused, hend⟩ := numbered_spec used base used.length 1
  refine ⟨n, hn, by rw [free, if_pos h, heq], ?_, hused⟩
  rcases hend with hfree | hend
  · exact hfree
  · -- the bound was met, so a further candidate in use would be one too many
    intro hmem
    have hrun : used.length + 1 ≤ used.length := by
      apply run_le_length (k := 1)
      intro j hj hjn
      rcases Nat.lt_or_ge j n with hlt | hge
      · exact hused j hj hlt
      · rwa [show j = n by omega]
    omega

theorem free_of_not_mem {used : List String} {base : String} (h : base ∉ used) :
    free used base = base := if_neg h

/-- What the search gives is not in use. -/
theorem free_not_mem (used : List String) (base : String) : free used base ∉ used := by
  by_cases h : base ∈ used
  · obtain ⟨n, _, heq, hfree, _⟩ := free_of_mem h
    rwa [heq]
  · rwa [free_of_not_mem h]

/-- `name` is `base`, or `base` with a decimal number from one on after it. -/
def Numbered (base name : String) : Prop := name = base ∨ ∃ k : Nat, 1 ≤ k ∧ name = base ++ toString k

theorem numbered_free (used : List String) (base : String) : Numbered base (free used base) := by
  by_cases h : base ∈ used
  · obtain ⟨n, hn, heq, _, _⟩ := free_of_mem h
    exact Or.inr ⟨n, hn, heq⟩
  · exact Or.inl (free_of_not_mem h)

/-! ## Identifiers of a scope -/

/-- The last character of a word. -/
def lastChar (word : String) : Option Char := word.toList.getLast?

/-- Whether a character is one that a suffix ends in: an underscore or a digit. -/
def isSuffixChar (c : Char) : Bool := c == '_' || Naming.isDigit c

/-- The reserved words of a scope keep apart from the names that suffixes give: none ends in a
suffix. -/
structure Apart (scope : Scope) : Prop where
  fallback : Naming.isIdentifier scope.fallback.toList = true
  plain : ∀ word ∈ scope.reserved, (lastChar word).any isSuffixChar = false

/-- An identifier that the scope has not reserved. -/
def Allows (scope : Scope) (name : String) : Prop :=
  Naming.isIdentifier name.toList = true ∧ name ∉ scope.reserved

theorem lastChar_append {base suffix : String} (h : suffix.toList ≠ []) :
    lastChar (base ++ suffix) = lastChar suffix := by
  rw [lastChar, String.toList_append, List.getLast?_append_of_ne_nil _ h, lastChar]

theorem lastChar_number (base : String) (k : Nat) :
    ∃ c, lastChar (base ++ toString k) = some c ∧ Naming.isDigit c = true := by
  have hne := Naming.toString_ne_nil k
  refine ⟨(toString k).toList.getLast hne, ?_, ?_⟩
  · rw [lastChar_append hne, lastChar, List.getLast?_eq_some_getLast hne]
  · exact Naming.isDigit_of_mem_toString (List.getLast_mem hne)

section
variable {scope : Scope} (apart : scope.Apart)
include apart

/-- An identifier that ends in a suffix is not reserved. -/
theorem Apart.allows_of_suffix {name : String} (h : Naming.isIdentifier name.toList = true)
    (hend : (lastChar name).any isSuffixChar = true) : scope.Allows name := by
  refine ⟨h, ?_⟩
  intro hmem
  rw [apart.plain name hmem] at hend
  cases hend

/-- A name that gets an underscore for being reserved is not reserved afterwards. -/
theorem Apart.allows_suffixed {name : String} (h : Naming.isIdentifier name.toList = true) :
    scope.Allows (if name ∈ scope.reserved then name ++ "_" else name) := by
  split
  · apply apart.allows_of_suffix (Naming.isIdentifier_underscore h)
    rw [lastChar_append (by decide)]
    decide
  · next hmem => exact ⟨h, hmem⟩

theorem Apart.allows_identifier (name : String) (style : NameStyle) :
    scope.Allows (scope.identifier name style) :=
  apart.allows_suffixed (Naming.isIdentifier_clean apart.fallback _)

theorem Apart.allows_moduleName (category : String) :
    scope.Allows (scope.moduleName category) :=
  apart.allows_suffixed (Naming.isIdentifier_clean apart.fallback _)

/-- A number after an identifier gives another one, and no reserved word ends like it. -/
theorem Apart.allows_of_numbered {base name : String} (hbase : scope.Allows base)
    (h : Numbered base name) : scope.Allows name := by
  rcases h with rfl | ⟨k, _, rfl⟩
  · exact hbase
  · apply apart.allows_of_suffix (Naming.isIdentifier_number hbase.1 k)
    obtain ⟨c, hc, hd⟩ := lastChar_number base k
    rw [hc]
    simp [isSuffixChar, hd]

theorem Apart.allows_unique (name : String) (style : NameStyle) :
    scope.Allows (scope.unique name style).1 :=
  apart.allows_of_numbered (apart.allows_identifier name style) (numbered_free _ _)

/-- The names in use have no part in the rules. -/
theorem Apart.withUsed (used : List String) : Apart { scope with used } :=
  ⟨apart.fallback, apart.plain⟩

end

end EventCodegen.Scope
