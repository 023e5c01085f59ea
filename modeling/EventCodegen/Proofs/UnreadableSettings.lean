import EventCodegen.Proofs.LineEnds
import EventCodegen.Proofs.SettingsFiles

/-! How reading a settings file ends that is there and whose name ends as it should. Its bytes alone
decide (`ReadEnds`). What is wrong with the form of a text is an error of the settings. Two faults
are passed on as they are: bytes may be those of no text, and a text may meet a whole number with
more digits than are read (`settings_error_iff`). -/
namespace EventCodegen.Settings

open Json (Fields MeetsOversized)

variable {files : FileTree} {path : Path} {bytes : List UInt8} {outcome : Except Failure Fields}

/-- How reading settings from some bytes ends. -/
inductive ReadEnds (path : Path) : List UInt8 → Except Failure Fields → Prop
  | object {s : List Char} {fields : Fields} : Json.parse (String.ofList s) = .ok (.obj fields) →
    ReadEnds path (Text.encode s) (.ok fields)
  | notObject {s : List Char} {x : Json} : Json.parse (String.ofList s) = .ok x →
    (∀ fields, x ≠ .obj fields) →
    ReadEnds path (Text.encode s) (.error (.settings (.notObject path)))
  /-- The place that is told is one among the lines as they are read. -/
  | malformed {s : List Char} {reason : Json.Reason} {line column position : Nat} :
    Json.parse (String.ofList (Text.unifyNewlines s)) =
      .error (.malformed reason line column position) → ¬MeetsOversized s →
    ReadEnds path (Text.encode s)
      (.error (.settings (.malformed path reason line column position)))
  | oversized {s : List Char} : MeetsOversized s →
    ReadEnds path (Text.encode s) (.error (.misuse .wrongValue))
  | undecodable {bytes : List UInt8} {fault : Text.DecodeFault} : Text.decode bytes = .error fault →
    ReadEnds path bytes (.error (.misuse (.undecodable fault)))

/-- Only a text that is refused meets a number with too many digits. -/
theorem not_meetsOversized_of_parse {s : List Char} {x : Json}
    (h : Json.parse (String.ofList s) = .ok x) : ¬MeetsOversized s := by
  intro hmeets
  have hhuge := (Json.parse_eq_hugeInteger_iff (String.ofList s)).mpr
    (by rw [String.toList_ofList]; exact hmeets)
  rw [h] at hhuge
  cases hhuge

theorem readEnds_ofText (path : Path) (s : List Char) :
    ReadEnds path (Text.encode s) (ofText path s) := by
  have hmeets := Json.parse_eq_hugeInteger_iff (String.ofList (Text.unifyNewlines s))
  rw [String.toList_ofList, Json.meetsOversized_unifyNewlines_iff] at hmeets
  unfold ofText
  split
  · next reason line column position hparse =>
    rw [hparse] at hmeets
    exact .malformed hparse fun h => nomatch hmeets.mpr h
  · next hparse => exact .oversized (hmeets.mp hparse)
  · next hparse => exact .object (Json.parse_unifyNewlines_eq_ok_iff.mp hparse)
  · next x hne hparse => exact .notObject (Json.parse_unifyNewlines_eq_ok_iff.mp hparse) hne

theorem readEnds_read (hjson : isJsonPath path = true)
    (hfile : files.stat path = .ok (.file bytes)) : ReadEnds path bytes (read files path) := by
  rw [read_eq_of_stat hjson hfile]
  cases hdecode : Text.decode bytes with
  | error fault => exact .undecodable hdecode
  | ok s =>
    rw [Text.decode_eq_ok_iff.mp hdecode]
    exact readEnds_ofText path s

/-! ## Which end it is -/

/-- Bytes of a text without a number that has too many digits. -/
def Legible (bytes : List UInt8) : Prop := ∃ s, bytes = Text.encode s ∧ ¬MeetsOversized s

/-- Bytes of a text with such a number. -/
def Oversized (bytes : List UInt8) : Prop := ∃ s, bytes = Text.encode s ∧ MeetsOversized s

theorem Legible.not_oversized (h : Legible bytes) : ¬Oversized bytes := by
  rintro ⟨t, ht, hmeets⟩
  obtain ⟨s, rfl, hnot⟩ := h
  rw [Text.encode_injective ht] at hnot
  exact hnot hmeets

theorem Legible.not_undecodable (h : Legible bytes) : ¬∀ s, bytes ≠ Text.encode s :=
  fun hnone => h.elim fun s hs => hnone s hs.1

/-- The three kinds of ends, and which bytes lead to each of them. -/
theorem ReadEnds.cases (h : ReadEnds path bytes outcome) :
    (Legible bytes ∧ ((∃ fields, outcome = .ok fields) ∨ ∃ e, outcome = .error (.settings e))) ∨
    (Oversized bytes ∧ outcome = .error (.misuse .wrongValue)) ∨
    ((∀ s, bytes ≠ Text.encode s) ∧ ∃ fault, outcome = .error (.misuse (.undecodable fault))) := by
  cases h with
  | object hparse =>
    exact Or.inl ⟨⟨_, rfl, not_meetsOversized_of_parse hparse⟩, Or.inl ⟨_, rfl⟩⟩
  | notObject hparse _ =>
    exact Or.inl ⟨⟨_, rfl, not_meetsOversized_of_parse hparse⟩, Or.inr ⟨_, rfl⟩⟩
  | malformed _ hnot => exact Or.inl ⟨⟨_, rfl, hnot⟩, Or.inr ⟨_, rfl⟩⟩
  | oversized hmeets => exact Or.inr (Or.inl ⟨⟨_, rfl, hmeets⟩, rfl⟩)
  | undecodable hdecode =>
    refine Or.inr (Or.inr ⟨fun s hs => ?_, _, rfl⟩)
    rw [Text.decode_eq_ok_iff.mpr hs] at hdecode
    cases hdecode

theorem ReadEnds.eq_ok_iff (h : ReadEnds path bytes outcome) {fields : Fields} :
    outcome = .ok fields ↔
      ∃ s, bytes = Text.encode s ∧ Json.parse (String.ofList s) = .ok (.obj fields) := by
  constructor
  · rintro rfl
    cases h with
    | object hparse => exact ⟨_, rfl, hparse⟩
  · rintro ⟨s, rfl, hparse⟩
    generalize hbytes : Text.encode s = bytes at h
    cases h with
    | object h =>
      rw [Text.encode_injective hbytes, h] at hparse
      cases hparse
      rfl
    | notObject h hne =>
      rw [Text.encode_injective hbytes, h] at hparse
      cases hparse
      exact absurd rfl (hne _)
    | malformed h _ =>
      rw [Text.encode_injective hbytes, ← Json.parse_unifyNewlines_eq_ok_iff, h] at hparse
      cases hparse
    | oversized h =>
      rw [Text.encode_injective hbytes] at hparse
      exact absurd h (not_meetsOversized_of_parse hparse)
    | undecodable h =>
      rw [← hbytes, Text.decode_encode] at h
      cases h

/-- A home directory with nothing in it but a settings file of some bytes. -/
def homeOf (bytes : List UInt8) : FileTree :=
  { entries := [(["eventgen.json", "home"], .file bytes), (["home"], .directory)] }

theorem stat_homeOf (bytes : List UInt8) :
    (homeOf bytes).stat (Path.ofString "eventgen.json") = .ok (.file bytes) := rfl

end EventCodegen.Settings
