import EventCodegen.Proofs.SmallForms
import EventCodegen.Proofs.TypeNames

/-! The names of constants. They are written in capitals, and no capital form has a small letter of
ASCII in it (`not_smallLetter_upperChar`), while every word that a language reserves has one. So no
constant is ever renamed for being a reserved word (`identifier_constant`). -/
namespace EventCodegen

/-- A small letter of ASCII. -/
def isSmallLetter (c : Char) : Bool := 'a' ≤ c && c ≤ 'z'

namespace Text

/-- What the table leads to lies outside the small letters of ASCII. -/
theorem upperTable_capital :
    (upperRuns.all fun r => r.targets.all fun n => n < 97 || 122 < n) = true ∧
    (upperExpansions.all fun e => e.2.all fun n => n < 97 || 122 < n) = true := by
  decide +kernel

/-- A code point outside ASCII is mapped to none that is a small letter of ASCII. -/
theorem mapped_upper {n m : Nat} (hn : 0x80 ≤ n) (hm : m ∈ mapped upperExpansions upperRuns n) :
    m < 97 ∨ 122 < m := by
  rcases mem_mapped hm with rfl | ⟨r, hr, hmem⟩ | ⟨e, he, hmem⟩
  · omega
  · have hall := List.all_eq_true.mp (List.all_eq_true.mp upperTable_capital.1 r hr) m hmem
    simpa using hall
  · have hall := List.all_eq_true.mp (List.all_eq_true.mp upperTable_capital.2 e he) m hmem
    simpa using hall

theorem toNat_of_isSmallLetter {c : Char} (h : isSmallLetter c = true) :
    97 ≤ c.toNat ∧ c.toNat ≤ 122 := by
  simpa [isSmallLetter, Char.le_def, UInt32.le_iff_toNat_le] using h

theorem upperChar_ascii : ∀ n < 0x80,
    (upperChar (Char.ofNat n)).all (fun d => !isSmallLetter d) = true := by
  decide

/-- A number that is no code point stands for the character zero. -/
theorem toNat_ofNat (n : Nat) : (Char.ofNat n).toNat = n ∨ (Char.ofNat n).toNat = 0 := by
  by_cases h : n.isValidChar
  · left
    rw [Char.ofNat, dif_pos h]
    rfl
  · right
    rw [Char.ofNat, dif_neg h]
    rfl

/-- No capital form has a small letter of ASCII in it. -/
theorem not_smallLetter_upperChar {c d : Char} (h : d ∈ upperChar c) : isSmallLetter d = false := by
  by_cases hascii : c.toNat < 0x80
  · rw [← Char.ofNat_toNat c] at h
    simpa using List.all_eq_true.mp (upperChar_ascii c.toNat hascii) d h
  · rw [upperChar, if_neg hascii] at h
    obtain ⟨n, hn, rfl⟩ := List.mem_map.mp h
    have hcapital := mapped_upper (by omega) hn
    rw [← Bool.not_eq_true]
    intro hsmall
    have hrange := toNat_of_isSmallLetter hsmall
    rcases toNat_ofNat n with heq | hzero <;> omega

end Text

namespace Naming

/-- The constant style leaves no small letter of ASCII. -/
theorem not_smallLetter_styled {name : String} {c : Char}
    (h : c ∈ (styled .constant name).toList) : isSmallLetter c = false := by
  rw [styled, String.toList_ofList] at h
  obtain ⟨d, hd, rfl⟩ := List.mem_map.mp h
  split
  · rfl
  · obtain ⟨e, _, hd⟩ := List.mem_flatMap.mp hd
    exact Text.not_smallLetter_upperChar hd

/-- Cleaning adds only underscores. -/
theorem mem_cleanChars {s : List Char} {c : Char} (h : c ∈ cleanChars s) : c = '_' ∨ c ∈ s := by
  cases s with
  | nil => cases h
  | cons d rest =>
    rw [cleanChars_cons] at h
    rcases List.mem_append.mp h with h | h
    · split at h
      · exact Or.inl (List.mem_singleton.mp h)
      · cases h
    · obtain ⟨e, he, rfl⟩ := List.mem_map.mp h
      unfold cleanedChar
      split
      · exact Or.inr he
      · exact Or.inl rfl

end Naming

/-- Every reserved word has a small letter, and the name for an empty text is none. -/
theorem Target.reserved_small (t : Target) : t.scope.fallback ∉ t.scope.reserved ∧
    ∀ word ∈ t.scope.reserved, word.toList.any isSmallLetter = true := by
  cases t <;> decide

/-- A constant is named by the cleaned capital form of its value, in every language. -/
theorem Target.identifier_constant (t : Target) (value : String) :
    t.scope.identifier value .constant =
      Naming.clean t.scope.fallback (Naming.styled .constant value) := by
  obtain ⟨hfallback, hsmall⟩ := t.reserved_small
  refine if_neg fun hreserved => ?_
  by_cases hempty : (Naming.styled .constant value).toList = []
  · rw [Naming.clean_empty hempty] at hreserved
    exact hfallback hreserved
  · obtain ⟨c, hc, hletter⟩ := List.any_eq_true.mp (hsmall _ hreserved)
    rw [Naming.toList_clean hempty] at hc
    rcases Naming.mem_cleanChars hc with rfl | hc
    · cases hletter
    · rw [Naming.not_smallLetter_styled hc] at hletter
      cases hletter

end EventCodegen
