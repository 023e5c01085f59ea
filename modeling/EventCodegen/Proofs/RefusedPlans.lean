import EventCodegen.Generation.Session
import EventCodegen.Proofs.OversizedNumbers

/-! The outcomes of reading a plan from text. A text that is JSON of the right shape gives
categories, and every other one fails with the error of the plan, but for one gap: a whole number
with more digits than are read stops the decoder with a fault that is none of form, which nobody
turns into an error of the plan. It does so wherever it is met, in a plan or not
(`outcome_readPlan`). -/
namespace EventCodegen

namespace Plan

/-- What the reader of the text makes of the outcomes of the decoder. -/
theorem parse_eq_hugeInteger_iff (text : String) :
    parse text = .error .hugeInteger ↔ Json.MeetsOversized text.toList := by
  rw [← Json.parse_eq_hugeInteger_iff]
  unfold parse
  cases Json.parse text with
  | ok x =>
    dsimp only
    cases ofJson x <;> simp [Except.mapError]
  | error e => cases e <;> simp

theorem parse_eq_ok_iff {text : String} {categories : List Category} :
    parse text = .ok categories ↔ ∃ x, Json.parse text = .ok x ∧ PlanReading x categories := by
  unfold parse
  cases hx : Json.parse text with
  | ok x => simp [mapError_eq_ok, ofJson_eq_ok]
  | error e => cases e <;> simp

end Plan

namespace Session

theorem outcome_readPlan_eq (text : String) :
    (readPlan text).outcome = (Plan.parse text).mapError .ofReadFault := by
  unfold readPlan
  cases Plan.parse text <;> rfl

theorem outcome_readPlan_oversized {text : String} (h : Json.MeetsOversized text.toList) :
    (readPlan text).outcome = .error (.misuse .wrongValue) := by
  rw [outcome_readPlan_eq, (Plan.parse_eq_hugeInteger_iff text).mpr h]
  rfl

/-- Whatever the text, reading a plan gives the categories that its value mirrors, or it fails with
the error of the plan, unless the text meets a whole number with more digits than are read; then,
and only then, the failure is of another kind. -/
theorem outcome_readPlan (text : String) :
    ((∃ categories x, (readPlan text).outcome = .ok categories ∧ Json.parse text = .ok x ∧
        Plan.PlanReading x categories) ∨
      (∃ e, (readPlan text).outcome = .error e ∧ e.kind = "SchemaParseError") ↔
        ¬Json.MeetsOversized text.toList) ∧
    ((∃ e, (readPlan text).outcome = .error e ∧ e.kind = "ValueError") ↔
      Json.MeetsOversized text.toList) := by
  have hkinds : "SchemaParseError" ≠ "ValueError" := by decide
  rw [outcome_readPlan_eq, ← Plan.parse_eq_hugeInteger_iff]
  cases hread : Plan.parse text with
  | ok categories =>
    obtain ⟨x, hx, hreading⟩ := Plan.parse_eq_ok_iff.mp hread
    constructor
    · exact iff_of_true (Or.inl ⟨categories, x, rfl, hx, hreading⟩) nofun
    · exact iff_of_false (fun ⟨_, h, _⟩ => nomatch h) nofun
  | error fault =>
    cases fault with
    | plan e =>
      constructor
      · exact iff_of_true (Or.inr ⟨_, rfl, rfl⟩) nofun
      · refine iff_of_false ?_ nofun
        rintro ⟨_, h, hkind⟩
        cases h
        exact hkinds hkind
    | hugeInteger =>
      constructor
      · refine iff_of_false ?_ (fun h => h rfl)
        rintro (⟨_, _, h, _⟩ | ⟨_, h, hkind⟩)
        · cases h
        · cases h
          exact hkinds hkind.symm
      · exact iff_of_true ⟨_, rfl, rfl⟩ rfl

/-- Nothing but a number of 4301 digits. -/
theorem outcome_readPlan_4301_digits :
    ∃ e, (readPlan (String.ofList (List.replicate 4301 '1'))).outcome = .error e ∧
      e.kind ≠ "SchemaParseError" := by
  refine ⟨_, outcome_readPlan_oversized ?_, by decide⟩
  rw [String.toList_ofList]
  refine ⟨[], _, rfl, ⟨false, List.replicate 4301 '1', [], (List.append_nil _).symm,
    ?_, ?_, ?_, ?_, ?_⟩, rfl⟩
  · refine ⟨fun c hc => ?_, '1', List.replicate 4300 '1', rfl, by decide⟩
    rw [List.eq_of_mem_replicate hc]
    rfl
  · rw [List.length_replicate]
    decide
  · nofun
  · rintro ⟨_, _, h, _⟩
    cases h
  · rintro ⟨_, _, _, _, h, _⟩
    cases h

end Session
end EventCodegen
