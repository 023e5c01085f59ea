import Mathlib.Data.List.Basic
import EventCodegen.Naming

/-! What cleaning makes of a text. Cleaning always gives an identifier, and it acts on each
character alone, so an identifier at the end of a text passes through it as it is: that is how the
word after a name (`Event`, `Events`) can be read off the cleaned name. Two shapes of suffix are
appended to cleaned names, an underscore and a decimal number, and both keep them identifiers. -/
namespace EventCodegen.Naming

/-! ## Characters -/

/-- A character as cleaning leaves it. -/
def cleanedChar (c : Char) : Char := if isIdentifierChar c then c else '_'

theorem isIdentifierChar_cleanedChar (c : Char) : isIdentifierChar (cleanedChar c) = true := by
  unfold cleanedChar
  split
  · assumption
  · rfl

theorem cleanedChar_of_isIdentifierChar {c : Char} (h : isIdentifierChar c = true) :
    cleanedChar c = c := by
  simp [cleanedChar, h]

theorem isIdentifierChar_of_isDigit {c : Char} (h : isDigit c = true) :
    isIdentifierChar c = true := by
  unfold isDigit at h
  simp [isIdentifierChar, h]

/-- The digits that a number is written with are the digits of identifiers. -/
theorem isDigit_of_mem_toString {c : Char} {k : Nat} (h : c ∈ (toString k).toList) :
    isDigit c = true := by
  rw [Nat.toString_eq_repr, Nat.toList_repr] at h
  have hd := Nat.isDigit_of_mem_toDigits (by decide) (by decide) h
  simpa [Char.isDigit, isDigit, Char.le_def] using hd

theorem toString_ne_nil (k : Nat) : (toString k).toList ≠ [] := by
  rw [Nat.toString_eq_repr, Nat.toList_repr]
  exact Nat.toDigits_ne_nil

/-! ## Identifiers -/

theorem isIdentifier_cons {c : Char} {rest : List Char} :
    isIdentifier (c :: rest) = true ↔
      isIdentifierChar c = true ∧ isDigit c = false ∧ ∀ d ∈ rest, isIdentifierChar d = true := by
  simp [isIdentifier, and_assoc]

theorem isIdentifierChar_of_mem {s : List Char} (h : isIdentifier s = true) {c : Char}
    (hc : c ∈ s) : isIdentifierChar c = true := by
  cases s with
  | nil => cases hc
  | cons d rest =>
    obtain ⟨hd, _, hrest⟩ := isIdentifier_cons.mp h
    rcases List.mem_cons.mp hc with rfl | hc
    · exact hd
    · exact hrest c hc

theorem ne_nil_of_isIdentifier {s : List Char} (h : isIdentifier s = true) : s ≠ [] := by
  rintro rfl
  cases h

theorem isIdentifier_append {s t : List Char} (hs : isIdentifier s = true)
    (ht : ∀ c ∈ t, isIdentifierChar c = true) : isIdentifier (s ++ t) = true := by
  cases s with
  | nil => cases hs
  | cons c rest =>
    obtain ⟨hc, hd, hrest⟩ := isIdentifier_cons.mp hs
    rw [List.cons_append, isIdentifier_cons]
    refine ⟨hc, hd, ?_⟩
    intro d hmem
    rcases List.mem_append.mp hmem with hmem | hmem
    · exact hrest d hmem
    · exact ht d hmem

theorem isIdentifier_underscore {s : String} (h : isIdentifier s.toList = true) :
    isIdentifier (s ++ "_").toList = true := by
  rw [String.toList_append]
  exact isIdentifier_append h (List.all_eq_true.mp (by decide))

theorem isIdentifier_number {s : String} (h : isIdentifier s.toList = true) (k : Nat) :
    isIdentifier (s ++ toString k).toList = true := by
  rw [String.toList_append]
  exact isIdentifier_append h fun c hc => isIdentifierChar_of_isDigit (isDigit_of_mem_toString hc)

/-! ## Cleaning -/

theorem cleanChars_cons (c : Char) (rest : List Char) :
    cleanChars (c :: rest) = (if isDigit (cleanedChar c) then ['_'] else []) ++
      (c :: rest).map cleanedChar := by
  show (if isDigit (cleanedChar c) then _ else _) = _
  split <;> rfl

/-- Of a text with at least one character cleaning makes an identifier. -/
theorem isIdentifier_cleanChars {s : List Char} (h : s ≠ []) : isIdentifier (cleanChars s) = true := by
  have hrest : ∀ t : List Char, ∀ d ∈ t.map cleanedChar, isIdentifierChar d = true := by
    intro t d hd
    obtain ⟨c, _, rfl⟩ := List.mem_map.mp hd
    exact isIdentifierChar_cleanedChar c
  cases s with
  | nil => exact absurd rfl h
  | cons c rest =>
    rw [cleanChars_cons]
    split
    · rw [List.singleton_append, isIdentifier_cons]
      exact ⟨rfl, rfl, hrest _⟩
    · next hd =>
      rw [List.nil_append, List.map_cons, isIdentifier_cons]
      exact ⟨isIdentifierChar_cleanedChar c, by simpa using hd, hrest rest⟩

/-- An identifier at the end of a text stays as it is, whatever stands before it. -/
theorem cleanChars_append (s : List Char) {t : List Char} (ht : isIdentifier t = true) :
    cleanChars (s ++ t) = cleanChars s ++ t := by
  have hmap : t.map cleanedChar = t := by
    rw [List.map_congr_left (g := id)]
    · exact List.map_id t
    · exact fun c hc => cleanedChar_of_isIdentifierChar (isIdentifierChar_of_mem ht hc)
  cases s with
  | nil =>
    cases t with
    | nil => cases ht
    | cons c rest =>
      obtain ⟨hc, hd, _⟩ := isIdentifier_cons.mp ht
      rw [List.nil_append, cleanChars_cons, cleanedChar_of_isIdentifierChar hc, hd, hmap]
      rfl
  | cons c rest =>
    rw [List.cons_append, cleanChars_cons, cleanChars_cons, ← List.cons_append, List.map_append,
      hmap, List.append_assoc]

theorem toList_clean {fallback name : String} (h : name.toList ≠ []) :
    (clean fallback name).toList = cleanChars name.toList := by
  have hne := ne_nil_of_isIdentifier (isIdentifier_cleanChars h)
  unfold clean
  split
  · next hnil => exact absurd hnil hne
  · exact String.toList_ofList

theorem clean_empty {fallback name : String} (h : name.toList = []) :
    clean fallback name = fallback := by
  simp [clean, h, cleanChars]

/-- Whatever a name is, cleaning it gives an identifier. -/
theorem isIdentifier_clean {fallback : String} (hf : isIdentifier fallback.toList = true)
    (name : String) : isIdentifier (clean fallback name).toList = true := by
  by_cases h : name.toList = []
  · rwa [clean_empty h]
  · rw [toList_clean h]
    exact isIdentifier_cleanChars h

/-! ## Styles -/

/-- Words that an underscore joins are capitalised one by one. -/
theorem pascalChars_append (s t : List Char) :
    pascalChars (s ++ '_' :: t) = pascalChars s ++ pascalChars t := by
  unfold pascalChars
  rw [List.splitOn_append_cons_self, List.flatMap_append]

end EventCodegen.Naming
