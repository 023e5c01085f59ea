import EventCodegen.Proofs.Identifiers
import EventCodegen.Warning

/-! Warnings about packages. A package should consist of words joined by dots, where a word is a
letter or an underscore with letters, digits and underscores after it. The check lets a word with a
line feed after it pass as well (`isSegment_iff`). A package is warned about exactly if it is not
empty and one of its segments is neither, and the warning lists these segments in order; the check
is the one for words alone exactly if no segment is a word with a line feed after it
(`warnings_of_package`). -/
namespace EventCodegen

namespace Naming

/-! ## Words -/

def IsLetter (c : Char) : Prop := 'A' ≤ c ∧ c ≤ 'Z' ∨ 'a' ≤ c ∧ c ≤ 'z'

def IsNumeral (c : Char) : Prop := '0' ≤ c ∧ c ≤ '9'

/-- A letter or an underscore, and after it letters, digits and underscores, all of ASCII. -/
def IsWord : List Char → Prop
  | [] => False
  | c :: rest => (IsLetter c ∨ c = '_') ∧ ∀ d ∈ rest, IsLetter d ∨ IsNumeral d ∨ d = '_'

/-- A word with a line feed after it. -/
def IsBrokenWord (s : List Char) : Prop := ∃ word, IsWord word ∧ s = word ++ ['\n']

theorem isDigit_iff {c : Char} : isDigit c = true ↔ IsNumeral c := by
  simp [isDigit, IsNumeral]

theorem isIdentifierChar_iff {c : Char} :
    isIdentifierChar c = true ↔ IsLetter c ∨ IsNumeral c ∨ c = '_' := by
  simp [isIdentifierChar, IsLetter, IsNumeral, or_assoc]

/-- No letter is a digit, and neither is the underscore. -/
theorem not_isNumeral {c : Char} (h : IsLetter c ∨ c = '_') : ¬IsNumeral c := by
  simp only [IsLetter, IsNumeral, Char.le_def, UInt32.le_iff_toNat_le] at h ⊢
  rintro ⟨_, hhigh⟩
  rcases h with (⟨hlow, _⟩ | ⟨hlow, _⟩) | rfl
  · exact absurd (Nat.le_trans hlow hhigh) (by decide)
  · exact absurd (Nat.le_trans hlow hhigh) (by decide)
  · exact absurd hhigh (by decide)

theorem isIdentifier_iff_isWord {s : List Char} : isIdentifier s = true ↔ IsWord s := by
  cases s with
  | nil => simp [isIdentifier, IsWord]
  | cons c rest =>
    have hfirst : isIdentifierChar c = true ∧ isDigit c = false ↔ IsLetter c ∨ c = '_' := by
      rw [isIdentifierChar_iff, Bool.eq_false_iff, Ne, isDigit_iff]
      constructor
      · rintro ⟨hletter | hnumeral | hunderscore, hno⟩
        · exact Or.inl hletter
        · exact absurd hnumeral hno
        · exact Or.inr hunderscore
      · intro h
        exact ⟨h.imp_right Or.inr, not_isNumeral h⟩
    rw [isIdentifier_cons, ← and_assoc, hfirst, IsWord]
    simp only [isIdentifierChar_iff]

instance : DecidablePred IsWord := fun _ => decidable_of_iff _ isIdentifier_iff_isWord

theorem not_mem_of_isWord {s : List Char} (h : IsWord s) : '\n' ∉ s := by
  intro hmem
  exact absurd (isIdentifierChar_of_mem (isIdentifier_iff_isWord.mpr h) hmem) (by decide)

theorem IsBrokenWord.not_isWord {s : List Char} (h : IsBrokenWord s) : ¬IsWord s := by
  obtain ⟨word, _, rfl⟩ := h
  exact fun hword => not_mem_of_isWord hword (by simp)

end Naming

open Naming

namespace Settings

/-! ## The check of a segment -/

/-- A segment may be a word, and a word with a line feed after it is let pass. -/
theorem isSegment_iff {s : List Char} : isSegment s = true ↔ IsWord s ∨ IsBrokenWord s := by
  have hbroken : (s.getLast? == some '\n' && isIdentifier s.dropLast) = true ↔ IsBrokenWord s := by
    rw [Bool.and_eq_true, beq_iff_eq, isIdentifier_iff_isWord]
    constructor
    · rintro ⟨hlast, hword⟩
      exact ⟨s.dropLast, hword, (List.dropLast_append_getLast? _ hlast).symm⟩
    · rintro ⟨word, hword, rfl⟩
      rw [List.getLast?_concat, List.dropLast_concat]
      exact ⟨rfl, hword⟩
  rw [isSegment, Bool.or_eq_true, hbroken, isIdentifier_iff_isWord]

instance : DecidablePred IsBrokenWord := fun s =>
  decidable_of_iff (isSegment s = true ∧ ¬IsWord s) (by
    rw [isSegment_iff]
    constructor
    · rintro ⟨hword | hbroken, hno⟩
      · exact absurd hword hno
      · exact hbroken
    · exact fun h => ⟨Or.inr h, h.not_isWord⟩)

/-! ## The warning -/

/-- The segments of a package that are not as they should be. -/
def strays (allowed : List Char → Prop) [DecidablePred allowed] (package : String) : List String :=
  (Text.parts '.' package).filter fun s => ¬allowed s.toList

/-- What there is to say about a package whose segments should all be as `allowed` has it: nothing
if it is empty or all of them are, else the segments that are not. -/
def complaints (allowed : List Char → Prop) [DecidablePred allowed] (package : String) :
    List Warning :=
  if package = "" ∨ strays allowed package = [] then []
  else [.badPackage package (strays allowed package)]

/-- Whether a warning is about the package. -/
def aboutPackage : Warning → Bool
  | .badPackage _ _ => true
  | _ => false

theorem badSegments_eq (package : String) :
    badSegments package = strays (fun s => IsWord s ∨ IsBrokenWord s) package := by
  refine List.filter_congr fun s _ => ?_
  rw [← Bool.coe_iff_coe, decide_eq_true_iff, Bool.not_eq_true', ← Bool.not_eq_true, isSegment_iff]

theorem packageWarnings_text (package : String) : packageWarnings (.text package) =
    .ok (complaints (fun s => IsWord s ∨ IsBrokenWord s) package) := by
  have hgiven : (Json.text package).isGiven = !package.toList.isEmpty := rfl
  unfold packageWarnings complaints
  rw [hgiven, ← badSegments_eq]
  by_cases hempty : package = ""
  · subst hempty
    rfl
  · have hchars : package.toList ≠ [] := fun h => hempty (String.toList_injective h)
    rw [List.isEmpty_eq_false_iff.mpr hchars]
    simp [hempty, Json.text?, Json.text]

theorem filter_complaints (allowed : List Char → Prop) [DecidablePred allowed] (package : String) :
    (complaints allowed package).filter aboutPackage = complaints allowed package := by
  unfold complaints
  split
  · rfl
  · rfl

/-- Allowing more segments makes a difference exactly if a package has one of them. -/
theorem complaints_or_eq_iff {p q : List Char → Prop} [DecidablePred p] [DecidablePred q]
    (hpq : ∀ s, q s → ¬p s) (hempty : ¬q []) (package : String) :
    complaints (fun s => p s ∨ q s) package = complaints p package ↔
      ∀ s ∈ Text.parts '.' package, ¬q s.toList := by
  constructor
  · intro h s hs hq
    have hne : package ≠ "" := by
      rintro rfl
      obtain rfl := List.mem_singleton.mp hs
      exact hempty hq
    -- the segment is among the strays of the one check and not of the other
    have hstray : s ∈ strays p package :=
      List.mem_filter.mpr ⟨hs, decide_eq_true (hpq _ hq)⟩
    have hpass : s ∉ strays (fun s => p s ∨ q s) package := fun hmem =>
      of_decide_eq_true (List.mem_filter.mp hmem).2 (Or.inr hq)
    have hsome : strays p package ≠ [] := List.ne_nil_of_mem hstray
    unfold complaints at h
    rw [if_neg (not_or.mpr ⟨hne, hsome⟩)] at h
    split at h
    · cases h
    · rw [List.cons.injEq, Warning.badPackage.injEq] at h
      rw [h.1.2] at hpass
      exact hpass hstray
  · intro h
    have hstrays : strays (fun s => p s ∨ q s) package = strays p package :=
      List.filter_congr fun s hs => by simp [h s hs]
    unfold complaints
    rw [hstrays]

/-- Settings with a text as their package are warned about it exactly if it is not empty and one of
its segments is neither a word nor a word with a line feed after it; the warning lists all of these
segments in order. This is what holds with words alone exactly if no segment is a word with a line
feed after it. -/
theorem warnings_of_package (s : Settings) (package language : String) (indent : Int) :
    ∃ all, warnings { s with package := .text package, language := .text language,
                             indentSize := .int indent } = .ok all ∧
      all.filter aboutPackage = complaints (fun s => IsWord s ∨ IsBrokenWord s) package ∧
      (all.filter aboutPackage = complaints IsWord package ↔
        ∀ segment ∈ Text.parts '.' package, ¬IsBrokenWord segment.toList) := by
  have hother : ∀ (fine : Bool) (w : Warning), aboutPackage w = false →
      (if fine then [] else [w]).filter aboutPackage = [] := by
    intro fine w hw
    cases fine with
    | true => rfl
    | false => exact List.filter_cons_of_neg (Bool.eq_false_iff.mp hw)
  obtain ⟨others, hlanguage, hothers⟩ : ∃ ws, languageWarnings (.text language) = .ok ws ∧
      ws.filter aboutPackage = [] := ⟨_, rfl, hother _ _ rfl⟩
  obtain ⟨more, hindent, hmore⟩ : ∃ ws, indentWarnings (.int indent) = .ok ws ∧
      ws.filter aboutPackage = [] := by
    refine ⟨_, rfl, ?_⟩
    split
    · rfl
    · rfl
  refine ⟨others ++ complaints (fun s => IsWord s ∨ IsBrokenWord s) package ++ more, ?_, ?_⟩
  · unfold warnings
    rw [hlanguage, hindent, packageWarnings_text]
    rfl
  · rw [List.filter_append, List.filter_append, hothers, hmore, filter_complaints,
      List.nil_append, List.append_nil]
    refine ⟨rfl, complaints_or_eq_iff (fun _ => IsBrokenWord.not_isWord) ?_ package⟩
    rintro ⟨word, _, h⟩
    simp at h

/-- A line feed after the only word of a package goes unnoticed. -/
theorem line_feed_after_package :
    warnings { package := .text "app\n" } = .ok [] ∧ ¬IsWord "app\n".toList ∧
      complaints IsWord "app\n" = [.badPackage "app\n" ["app\n"]] := by
  decide

end Settings
end EventCodegen
