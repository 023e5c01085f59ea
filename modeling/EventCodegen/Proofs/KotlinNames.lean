import EventCodegen.Proofs.CategoryLines
import EventCodegen.Proofs.FieldNames

/-! Names that Kotlin takes. Every name of a module is an identifier and no hard keyword, but
Kotlin also reserves the names of underscores alone, and these come out where cleaning finds
neither a letter nor a digit of ASCII (`underscores_clean_iff`). A segment or a constant is legal
exactly if its text is not bare in this sense; and as a number would make a name legal, the fields
of an event are legal exactly if no key of it is bare (`legal_iff_not_bare`). -/
namespace EventCodegen

/-- The words that no identifier of Kotlin may be. -/
def hardKeywords : List String :=
  ["as", "break", "class", "continue", "do", "else", "false", "for", "fun", "if", "in",
   "interface", "is", "null", "object", "package", "return", "super", "this", "throw", "true",
   "try", "typealias", "typeof", "val", "var", "when", "while"]

/-- A name of underscores alone. -/
def IsUnderscores (name : String) : Prop := ∀ c ∈ name.toList, c = '_'

/-- A name that Kotlin takes as it stands: an identifier that is no hard keyword and has another
character than underscores. -/
def IsKotlinName (name : String) : Prop :=
  Naming.isIdentifier name.toList = true ∧ name ∉ hardKeywords ∧ ¬IsUnderscores name

-- decided along the text; to try every character there is would take too long
instance : DecidablePred IsUnderscores := fun name => List.decidableBAll (· = '_') name.toList
instance : DecidablePred IsKotlinName := fun _ => inferInstanceAs (Decidable (_ ∧ _ ∧ _))

/-- A text in which something stands, but neither a letter nor a digit of ASCII. -/
def IsBare (text : String) : Prop :=
  text.toList ≠ [] ∧ ∀ c ∈ text.toList, Naming.isWordChar c = false

instance : DecidablePred IsBare := fun text =>
  @instDecidableAnd _ _ inferInstance
    (List.decidableBAll (Naming.isWordChar · = false) text.toList)

/-! ## Names of underscores -/

theorem Naming.cleanedChar_eq_underscore {c : Char} :
    cleanedChar c = '_' ↔ isWordChar c = false := by
  rw [← Bool.not_eq_true, isWordChar_iff, cleanedChar]
  split
  · next h => simp [h]
  · next h => simp [h]

/-- The suffix of reserved words is itself an underscore. -/
theorem isUnderscores_reserved_iff {scope : Scope} {name : String} :
    IsUnderscores (if name ∈ scope.reserved then name ++ "_" else name) ↔ IsUnderscores name := by
  split
  · unfold IsUnderscores
    rw [String.toList_append, List.forall_mem_append]
    exact and_iff_left (by simp)
  · rfl

/-- Cleaning leaves underscores alone exactly of what is bare. -/
theorem underscores_clean_iff {fallback : String} (hfallback : ¬IsUnderscores fallback)
    {text : String} : IsUnderscores (Naming.clean fallback text) ↔ IsBare text := by
  by_cases hempty : text.toList = []
  · rw [Naming.clean_empty hempty]
    exact iff_of_false hfallback fun hbare => hbare.1 hempty
  · rw [IsUnderscores, IsBare, Naming.toList_clean hempty, and_iff_right hempty]
    obtain ⟨c, rest, htext⟩ := List.exists_cons_of_ne_nil hempty
    -- in front of a digit cleaning puts one more underscore, which changes nothing
    have hprefix :
        ∀ d ∈ (if Naming.isDigit (Naming.cleanedChar c) then ['_'] else []), d = '_' := by
      split <;> simp
    rw [htext, Naming.cleanChars_cons, List.forall_mem_append, and_iff_right hprefix,
      List.forall_mem_map]
    simp only [Naming.cleanedChar_eq_underscore]

section
variable {t : Target}

theorem fallback_not_underscores : ¬IsUnderscores t.scope.fallback := by cases t <;> decide

theorem underscores_fieldBase_iff {key : String} :
    IsUnderscores (Shape.fieldBase t.scope key) ↔ IsBare (Naming.styled .camel key) :=
  underscores_clean_iff fallback_not_underscores

theorem underscores_identifier_iff {text : String} {style : NameStyle} :
    IsUnderscores (t.scope.identifier text style) ↔ IsBare (Naming.styled style text) :=
  isUnderscores_reserved_iff.trans (underscores_clean_iff fallback_not_underscores)

theorem underscores_moduleName_iff {category : String} :
    IsUnderscores (t.scope.moduleName category) ↔ IsBare (Naming.segment category) :=
  isUnderscores_reserved_iff.trans (underscores_clean_iff fallback_not_underscores)

/-- A name of underscores has come by it without a suffix. -/
theorem unsuffixed_of_underscores {name : String} (hid : Naming.isIdentifier name.toList = true)
    (h : IsUnderscores name) : t.scope.Unsuffixed name := by
  have hne := Naming.ne_nil_of_isIdentifier hid
  apply t.unsuffixed_of_underscore
  · rw [List.head?_eq_some_head hne, h _ (List.head_mem hne)]
  · rw [Scope.lastChar, List.getLast?_eq_some_getLast hne, h _ (List.getLast_mem hne)]
    decide

end

/-! ## Legal names -/

/-- All that keeps an identifier from being legal is that it has only underscores. -/
theorem kotlinName_iff {name : String} (h : Target.kotlin.scope.Allows name) :
    IsKotlinName name ↔ ¬IsUnderscores name := by
  have hreserved : ∀ word ∈ hardKeywords, word ∈ Target.kotlin.scope.reserved := by decide
  unfold IsKotlinName
  rw [and_iff_right h.1]
  exact and_iff_right fun hmem => h.2 (hreserved name hmem)

namespace Shape

theorem kotlinName_field_iff (types : Scope) {e : Event} {f : Field}
    (hf : f ∈ (resolved Target.kotlin.scope types e).1.fields) :
    IsKotlinName f.name ↔ ¬IsUnderscores f.name :=
  kotlinName_iff (allows_fields Target.kotlin.apart_scope types hf)

/-- A field with an illegal name has a bare key. -/
theorem bare_of_field (types : Scope) {e : Event} {f : Field}
    (hf : f ∈ (resolved Target.kotlin.scope types e).1.fields)
    (h : IsUnderscores f.name) : IsBare (Naming.styled .camel f.key) := by
  have hid := (allows_fields Target.kotlin.apart_scope types hf).1
  rw [← underscores_fieldBase_iff, fieldBase_of_mem_resolved hf (unsuffixed_of_underscores hid h)]
  exact h

/-- The fields of an event are legal exactly if none of its keys is bare: the first of several bare
keys of one length gets the name without a number. -/
theorem kotlinNames_fields_iff (types : Scope) (e : Event) :
    (∀ f ∈ (resolved Target.kotlin.scope types e).1.fields, IsKotlinName f.name) ↔
      ∀ p ∈ e.parameters, p.key ≠ screenKey → ¬IsBare (Naming.styled .camel p.key) := by
  constructor
  · intro hlegal p hp hne hbare
    -- the name that the bare key asks for goes to some field, if not to its own
    have hbase : IsUnderscores (fieldBase Target.kotlin.scope p.key) :=
      underscores_fieldBase_iff.mpr hbare
    have hid : Naming.isIdentifier (fieldBase Target.kotlin.scope p.key).toList = true :=
      Naming.isIdentifier_clean Target.kotlin.apart_scope.fallback _
    have hfield := (exists_field_iff (unsuffixed_of_underscores hid hbase) types e).mpr
      ⟨p, hp, hne, rfl⟩
    obtain ⟨f, hf, hname⟩ := hfield
    exact (kotlinName_field_iff types hf).mp (hlegal f hf) (hname ▸ hbase)
  · intro hbare f hf
    rw [kotlinName_field_iff types hf]
    intro hunderscores
    have hid := (allows_fields Target.kotlin.apart_scope types hf).1
    have hkey := (exists_field_iff (unsuffixed_of_underscores hid hunderscores) types e).mp
      ⟨f, hf, rfl⟩
    obtain ⟨p, hp, hne, hname⟩ := hkey
    exact hbare p hp hne (underscores_fieldBase_iff.mp (hname ▸ hunderscores))

end Shape

namespace CategoryModule

/-- The segment of a category, its constants and its fields have names that Kotlin takes exactly as
far as what they are made from is not bare. -/
theorem legal_iff_not_bare (strict : Bool) (package : String) (c : Category) (m : CategoryModule)
    (h : ofCategory Target.kotlin.scope strict package c = .ok m) :
    (m.path = Naming.below package (Target.kotlin.scope.moduleName c.name) ∧
      (IsKotlinName (Target.kotlin.scope.moduleName c.name) ↔ ¬IsBare (Naming.segment c.name))) ∧
    (∀ k ∈ m.constants, IsKotlinName k.name ↔ ¬IsBare (Naming.styled .constant k.value)) ∧
    List.Forall₂ (fun e type => (∀ f ∈ type.fields, IsKotlinName f.name) ↔
      ∀ p ∈ e.parameters, p.key ≠ screenKey → ¬IsBare (Naming.styled .camel p.key))
      c.events m.eventTypes ∧
    ∀ type ∈ m.eventTypes, ∀ f ∈ type.fields,
      ¬IsKotlinName f.name → IsBare (Naming.styled .camel f.key) := by
  have htypes := forall₂_eventTypes h
  refine ⟨⟨path_eq h, ?_⟩, ?_, ?_, ?_⟩
  · rw [kotlinName_iff (Target.kotlin.apart_scope.allows_moduleName c.name),
      underscores_moduleName_iff]
  · intro k hk
    rw [kotlinName_iff (allows_constantName h hk)]
    obtain ⟨events, _, rfl⟩ := ofCategory_ok h
    rw [(mem_constantsFor hk).2, underscores_identifier_iff]
  · refine htypes.imp ?_
    rintro e type ⟨used, rfl⟩
    exact Shape.kotlinNames_fields_iff { Shape.typeScope Target.kotlin.scope with used } e
  · intro type htype f hf hname
    obtain ⟨e, _, used, rfl⟩ := exists_left_of_mem htypes htype
    let types := { Shape.typeScope Target.kotlin.scope with used }
    rw [Shape.kotlinName_field_iff types hf, not_not] at hname
    exact Shape.bare_of_field types hf hname

/-- A category whose name, one key and one value are punctuation or a letter with an accent. -/
def bareCategory : Category := ⟨"!", [⟨"buy", [⟨"?", "é"⟩, ⟨"price", "free"⟩]⟩]⟩

/-- What is bare comes out as an underscore, what has a letter as a legal name. -/
theorem legal_iff_not_bare_mixed : ∃ m type,
    ofCategory Target.kotlin.scope false "app" bareCategory = .ok m ∧ m.eventTypes = [type] ∧
    ¬IsKotlinName (Target.kotlin.scope.moduleName bareCategory.name) ∧
    (∀ k ∈ m.constants, IsKotlinName k.name ↔ k.value = "free") ∧
    (∃ f ∈ type.fields, ¬IsKotlinName f.name) ∧
    ∀ f ∈ type.fields, ¬IsKotlinName f.name → f.key ≠ "price" := by
  obtain ⟨m, type, hm, htypes, hvalues⟩ : ∃ m type,
      ofCategory Target.kotlin.scope false "app" bareCategory = .ok m ∧ m.eventTypes = [type] ∧
        m.constants.map (·.value) = ["é", "free"] :=
    ⟨_, _, rfl, rfl, by decide +kernel⟩
  obtain ⟨⟨_, hsegment⟩, hconstants, hfields, hbare⟩ :=
    legal_iff_not_bare false "app" bareCategory m hm
  rw [htypes] at hfields hbare
  have hlegal := (List.forall₂_cons.mp hfields).1
  have htype := List.mem_singleton_self type
  refine ⟨m, type, hm, htypes, fun hname => hsegment.mp hname (by decide), ?_, ?_, ?_⟩
  · intro k hk
    have hvalue : k.value ∈ ["é", "free"] := hvalues ▸ List.mem_map_of_mem hk
    rw [hconstants k hk]
    generalize k.value = value at hvalue
    revert value
    decide
  · by_contra hnone
    simp only [not_exists, not_and, not_not] at hnone
    exact hlegal.mp hnone ⟨"?", "é"⟩ List.mem_cons_self (by decide) (by decide)
  · intro f hf hname hkey
    have hprice := hbare type htype f hf hname
    rw [hkey] at hprice
    revert hprice
    decide

end CategoryModule

namespace Session

/-- The text of a plan in which a name and a key are punctuation and a value is a letter with an
accent. -/
def barePlan : String :=
  "[\x7b\"name\": \"!\", \"events\": [\x7b\"name\": \"buy\", \"parameters\": " ++
    "[\x7b\"name\": \"?\", \"value\": \"é\"\x7d]\x7d]\x7d]"

/-- The segment, the field and the constant of the plan are named by an underscore, which is no name
of Kotlin. -/
theorem names_of_underscores : ∃ m,
    Plan.parse barePlan = .ok [⟨"!", [⟨"buy", [⟨"?", "é"⟩]⟩]⟩] ∧
    (standard .kotlin).moduleOf ⟨"!", [⟨"buy", [⟨"?", "é"⟩]⟩]⟩ = .ok m ∧
    m.path = "com.example.analytics.events._" ∧
    m.eventTypes.flatMap (fun type => type.fields.map (·.name)) = ["_"] ∧
    m.constants.map (·.name) = ["_"] ∧ ¬IsKotlinName "_" :=
  ⟨_, by decide +kernel, rfl, by decide, by decide, by decide, by decide⟩

end Session
end EventCodegen
