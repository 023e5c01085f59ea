import EventCodegen.Shape
import EventCodegen.Proofs.UniqueNames

/-! The words that the languages reserve, and the names of event types. Every reserved word keeps
apart from suffixed names, and only `BaseEvent` ends like the name of an event type; so the name of
a type is the cleaned name of its event with `Event` after it, perhaps with a number, and its last
character tells it from every other name that is visible beside it. -/
namespace EventCodegen

/-! ## Reserved words -/

theorem Target.reserved_scope (t : Target) : t.scope.reserved = t.keywords ++ t.baseProperties := rfl

theorem Target.apart_scope (t : Target) : t.scope.Apart where
  fallback := by cases t <;> decide
  plain := by cases t <;> decide

/-- An identifier that the language takes: no keyword, and no property of the base type. -/
def Target.Accepts (t : Target) (name : String) : Prop :=
  Naming.isIdentifier name.toList = true ∧ name ∉ t.keywords ∧ name ∉ t.baseProperties

theorem Target.accepts_of_allows {t : Target} {name : String} (h : t.scope.Allows name) :
    t.Accepts name := by
  obtain ⟨hid, hreserved⟩ := h
  rw [reserved_scope, List.mem_append, not_or] at hreserved
  exact ⟨hid, hreserved⟩

namespace Shape

theorem reserved_typeScope (t : Target) :
    (typeScope t.scope).reserved = t.scope.reserved ++ [baseTypeName, valuesName] := rfl

theorem apart_typeScope (t : Target) : (typeScope t.scope).Apart where
  fallback := t.apart_scope.fallback
  plain := by
    rw [reserved_typeScope]
    intro word h
    rcases List.mem_append.mp h with h | h
    · exact t.apart_scope.plain word h
    · exact (by decide : ∀ w ∈ [baseTypeName, valuesName],
        (Scope.lastChar w).any Scope.isSuffixChar = false) word h

/-- No reserved word has a capital E in it, so none ends in `Event` or `Events`. -/
theorem not_reserved_of_suffix {t : Target} (suffix : String) {word : String} (hE : 'E' ∈ suffix.toList)
    (hend : suffix.toList <:+ word.toList) : word ∉ t.scope.reserved := by
  have hall : ∀ w ∈ t.scope.reserved, 'E' ∉ w.toList := by cases t <;> decide
  exact fun h => hall word h (hend.subset hE)

/-- In the scope of event types only the base type has a name that ends in `Event`. -/
theorem eq_baseTypeName_of_reserved {t : Target} {word : String}
    (h : word ∈ (typeScope t.scope).reserved) (hend : "Event".toList <:+ word.toList) :
    word = baseTypeName := by
  rw [reserved_typeScope, List.mem_append] at h
  rcases h with h | h
  · exact absurd h (not_reserved_of_suffix _ (by decide) hend)
  · have hboth : ∀ w ∈ [baseTypeName, valuesName],
        "Event".toList.isSuffixOf w.toList = true → w = baseTypeName := by decide
    exact hboth word h (List.isSuffixOf_iff_suffix.mpr hend)

end Shape

/-! ## A word after a name -/

namespace Naming

/-- A word after an underscore is capitalised on its own. -/
theorem styled_pascal_append (name word : String) :
    styled .pascal (name ++ ("_" ++ word)) = styled .pascal name ++ styled .pascal word := by
  apply String.toList_injective
  simp only [styled, styledChars, String.toList_ofList, String.toList_append]
  exact pascalChars_append name.toList word.toList

/-- An identifier after a text stays after its cleaned form. -/
theorem toList_clean_append (fallback text : String) {word : String}
    (h : isIdentifier word.toList = true) :
    (clean fallback (text ++ word)).toList = cleanChars text.toList ++ word.toList := by
  have hne : (text ++ word).toList ≠ [] := by
    rw [String.toList_append]
    exact List.append_ne_nil_of_right_ne_nil _ (ne_nil_of_isIdentifier h)
  rw [toList_clean hne, String.toList_append, cleanChars_append _ h]

end Naming

namespace Shape

/-- The name of the type of an event before clashes with other types are resolved. -/
def typeBase (rules : Scope) (event : String) : String :=
  let base := Naming.clean rules.fallback (Naming.styled .pascal event ++ "Event")
  if base = baseTypeName then base ++ "_" else base

theorem identifier_event (t : Target) (event : String) :
    (typeScope t.scope).identifier (event ++ "_event") .pascal = typeBase t.scope event := by
  have hstyled : Naming.styled .pascal (event ++ "_event") = Naming.styled .pascal event ++ "Event" :=
    Naming.styled_pascal_append event "event"
  let base := Naming.clean t.scope.fallback (Naming.styled .pascal event ++ "Event")
  have hend : "Event".toList <:+ base.toList := by
    rw [Naming.toList_clean_append _ _ (by decide)]
    exact List.suffix_append _ _
  have hiff : base ∈ (typeScope t.scope).reserved ↔ base = baseTypeName := by
    constructor
    · exact fun h => eq_baseTypeName_of_reserved h hend
    · intro h
      rw [h]
      exact List.mem_append_right _ (by decide)
  unfold Scope.identifier typeBase
  rw [hstyled]
  exact if_congr hiff rfl rfl

/-- The last characters of the names of event types. -/
def isTypeEnding (c : Char) : Bool := c == 't' || Scope.isSuffixChar c

theorem ending_typeBase (rules : Scope) (event : String) :
    (Scope.lastChar (typeBase rules event)).any isTypeEnding = true := by
  unfold typeBase
  extract_lets base
  split
  · rw [Scope.lastChar_append (by decide)]
    decide
  · rw [Scope.lastChar, Naming.toList_clean_append _ _ (by decide), List.getLast?_append_of_ne_nil _ (by decide)]
    decide

theorem ending_of_numbered {rules : Scope} {event name : String}
    (h : Scope.Numbered (typeBase rules event) name) :
    (Scope.lastChar name).any isTypeEnding = true := by
  have hbase := ending_typeBase rules event
  generalize typeBase rules event = base at h hbase
  rcases h with rfl | ⟨k, _, rfl⟩
  · exact hbase
  · obtain ⟨c, hc, hd⟩ := Scope.lastChar_number base k
    rw [hc]
    simp [isTypeEnding, Scope.isSuffixChar, hd]

/-- A name that ends otherwise is no name of an event type. -/
theorem ne_of_ending {rules : Scope} {event name other : String}
    (h : Scope.Numbered (typeBase rules event) name)
    (hother : (Scope.lastChar other).any isTypeEnding = false) : name ≠ other := by
  rintro rfl
  rw [ending_of_numbered h] at hother
  cases hother

end Shape
end EventCodegen
