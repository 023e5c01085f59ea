import EventCodegen.Source.BaseFile
import EventCodegen.Proofs.CategoryLines
import EventCodegen.Proofs.FieldNames
import EventCodegen.Proofs.FilePaths

/-! Fields and the members of the base class they extend, in Python. The names of the members are
read off the generated file (`baseMembers`). The four properties are reserved words, so no field
has their names; the names of methods and of what instances store are not. They begin with an
underscore, which the style of fields takes out of every key, but which cleaning puts in the place
of any other character that no identifier has. So a field hides a member exactly if a key is
cleaned to its name (`hides_member_iff`), and no key of letters, digits and underscores is. -/
namespace EventCodegen

/-! ## Members of the base class -/

namespace Source

/-- The name that follows a word at the beginning of a line. -/
def nameAfter? (word : String) (line : List Char) : Option String :=
  (line.dropPrefix? word.toList).map fun rest =>
    String.ofList (rest.takeWhile Naming.isIdentifierChar)

/-- The names that follow a word in the lines of a level that begin with it. -/
def namesAfter (word : String) (level : Nat) (ls : List Line) : List String :=
  ls.filterMap fun l => if l.level = level then nameAfter? word (l.body .python) else none

theorem namesAfter_append (word : String) (level : Nat) (ks ls : List Line) :
    namesAfter word level (ks ++ ls) = namesAfter word level ks ++ namesAfter word level ls :=
  List.filterMap_append

/-- The methods and properties that the body of the base class defines. -/
def definedMembers (ls : List Line) : List String := namesAfter "def " 1 ls

/-- The names under which the constructor of the base class stores values in an instance. -/
def storedMembers (ls : List Line) : List String := namesAfter "object.__setattr__(self, \"" 2 ls

/-- The members that the base class has by its file. -/
def baseMembers (comments : Bool) : List String :=
  definedMembers (pythonBase comments) ++ storedMembers (pythonBase comments)

/-- What the class says about itself names no member. -/
theorem members_about (comments : Bool) : definedMembers (pythonBaseAbout comments) = [] ∧
    storedMembers (pythonBaseAbout comments) = [] := by
  cases comments <;> exact ⟨by decide, by decide⟩

theorem baseMembers_eq (comments : Bool) : baseMembers comments =
    ["__init__", "category_name", "screen_name", "event_name", "params", "__setattr__",
     "__delattr__", "_key", "__eq__", "__hash__", "__repr__", "_category_name", "_screen_name",
     "_event_name", "_params"] := by
  obtain ⟨hdefined, hstored⟩ := members_about comments
  unfold definedMembers at hdefined
  unfold storedMembers at hstored
  simp only [baseMembers, definedMembers, storedMembers, pythonBase, namesAfter_append, hdefined,
    hstored]
  decide +kernel

/-- A member is a property, and reserved, or it begins with an underscore that no digit follows. -/
theorem baseMembers_cases {comments : Bool} {member : String} (h : member ∈ baseMembers comments) :
    member ∈ Target.python.baseProperties ∨ member ∉ Target.python.baseProperties ∧
      member.toList.head? = some '_' ∧ member.toList.tail.head?.any Naming.isDigit = false ∧
      (Scope.lastChar member).any Naming.isDigit = false := by
  rw [baseMembers_eq] at h
  revert member
  decide +kernel

end Source

/-! ## Keys of letters, digits and underscores -/

namespace Naming

theorem toNat_lt_of_isIdentifierChar {c : Char} (h : isIdentifierChar c = true) :
    c.toNat < 0x80 := by
  simp only [isIdentifierChar, Char.le_def, UInt32.le_iff_toNat_le, Bool.or_eq_true,
    Bool.and_eq_true, decide_eq_true_eq, beq_iff_eq] at h
  rcases h with ((h | h) | h) | rfl
  · exact Nat.lt_of_le_of_lt h.2 (by decide)
  · exact Nat.lt_of_le_of_lt h.2 (by decide)
  · exact Nat.lt_of_le_of_lt h.2 (by decide)
  · decide

theorem upperChar_wordChar : ∀ n < 0x80, isWordChar (Char.ofNat n) = true →
    (Text.upperChar (Char.ofNat n)).all isWordChar = true := by
  decide

/-- The capital form of a letter or a digit is one again. -/
theorem isWordChar_of_mem_upperChar {c d : Char} (hc : isWordChar c = true)
    (hd : d ∈ Text.upperChar c) : isWordChar d = true := by
  rw [← Char.ofNat_toNat c] at hc hd
  have hascii := toNat_lt_of_isIdentifierChar (isWordChar_iff.mp hc).1
  rw [Char.ofNat_toNat] at hascii
  exact List.all_eq_true.mp (upperChar_wordChar c.toNat hascii hc) d hd

/-- The style of fields takes the underscores out and leaves letters and digits. -/
theorem isWordChar_of_mem_camelChars {s : List Char} (h : ∀ c ∈ s, isIdentifierChar c = true) :
    ∀ c ∈ camelChars s, isWordChar c = true := by
  have hword : ∀ w ∈ s.splitOn '_', ∀ c ∈ w, isWordChar c = true := by
    intro w hw c hc
    refine isWordChar_iff.mpr ⟨h c (Text.subset_of_mem_splitOn hw hc), ?_⟩
    rintro rfl
    exact Text.not_mem_of_mem_splitOn hw hc
  intro c hc
  unfold camelChars at hc
  -- capitals are only put at the beginning of the words after the first
  generalize s.splitOn '_' = words at hword hc
  cases words with
  | nil => cases hc
  | cons first rest =>
    rcases List.mem_append.mp hc with hc | hc
    · exact hword first List.mem_cons_self c hc
    · obtain ⟨w, hw, hc⟩ := List.mem_flatMap.mp hc
      have hw := hword w (List.mem_cons_of_mem first hw)
      cases w with
      | nil => cases hc
      | cons d tail =>
        rcases List.mem_append.mp hc with hc | hc
        · exact isWordChar_of_mem_upperChar (hw d List.mem_cons_self) hc
        · exact hw c (List.mem_cons_of_mem d hc)

/-- What is cleaned of letters and digits begins with an underscore only in front of a digit. -/
theorem digit_of_cleanChars {s rest : List Char} (h : ∀ c ∈ s, isWordChar c = true)
    (hclean : cleanChars s = '_' :: rest) : rest.head?.any isDigit = true := by
  cases s with
  | nil => cases hclean
  | cons c tail =>
    obtain ⟨hc, hne⟩ := isWordChar_iff.mp (h c List.mem_cons_self)
    rw [cleanChars_cons, List.map_cons, cleanedChar_of_isIdentifierChar hc] at hclean
    split at hclean
    · next hdigit =>
      obtain ⟨_, rfl⟩ := List.cons.inj hclean
      exact hdigit
    · exact absurd (List.cons.inj hclean).1 hne

end Naming

namespace Shape

/-- A key of letters, digits and underscores is cleaned to no name that begins with an underscore
and goes on without a digit. -/
theorem head?_fieldBase_ne {rules : Scope} (hfallback : rules.fallback.toList.head? ≠ some '_')
    {key : String} (hkey : ∀ c ∈ key.toList, Naming.isIdentifierChar c = true)
    (hdigit : (fieldBase rules key).toList.tail.head?.any Naming.isDigit = false) :
    (fieldBase rules key).toList.head? ≠ some '_' := by
  have hstyled : (Naming.styled .camel key).toList = Naming.camelChars key.toList :=
    String.toList_ofList
  by_cases hempty : (Naming.styled .camel key).toList = []
  · rwa [fieldBase, Naming.clean_empty hempty]
  · rw [fieldBase, Naming.toList_clean hempty, hstyled] at hdigit ⊢
    intro hhead
    obtain ⟨rest, hrest⟩ := List.head?_eq_some_iff.mp hhead
    rw [hrest, List.tail_cons, Naming.digit_of_cleanChars
      (Naming.isWordChar_of_mem_camelChars hkey) hrest] at hdigit
    cases hdigit

end Shape

/-! ## Fields that hide a member -/

namespace Shape

/-- No field has the name of a property: those are reserved. -/
theorem name_not_mem_baseProperties {t : Target} {types : Scope} {e : Event} {f : Field}
    (hf : f ∈ (resolved t.scope types e).1.fields) : f.name ∉ t.baseProperties :=
  (Target.accepts_of_allows (allows_fields t.apart_scope types hf)).2.2

/-- The name of a member that is no property comes from a key that is cleaned to it. -/
theorem unsuffixed_of_baseMembers {comments : Bool} {member : String}
    (h : member ∈ Source.baseMembers comments) (hproperty : member ∉ Target.python.baseProperties) :
    Target.python.scope.Unsuffixed member := by
  rcases Source.baseMembers_cases h with hmem | ⟨_, hstart, _, hend⟩
  · exact absurd hmem hproperty
  · exact Target.python.unsuffixed_of_underscore hstart hend

theorem exists_member_field_iff {comments : Bool} {member : String}
    (h : member ∈ Source.baseMembers comments) (types : Scope) (e : Event) :
    (∃ f ∈ (resolved Target.python.scope types e).1.fields, f.name = member) ↔
      member ∉ Target.python.baseProperties ∧
        ∃ p ∈ e.parameters, p.key ≠ screenKey ∧ fieldBase Target.python.scope p.key = member := by
  by_cases hproperty : member ∈ Target.python.baseProperties
  · refine iff_of_false ?_ fun hboth => hboth.1 hproperty
    rintro ⟨f, hf, rfl⟩
    exact name_not_mem_baseProperties hf hproperty
  · rw [exists_field_iff (unsuffixed_of_baseMembers h hproperty), and_iff_right hproperty]

/-- A key that gives its field the name of a member has a character that no identifier has. -/
theorem exists_not_isIdentifierChar {comments : Bool} (types : Scope) {e : Event} {f : Field}
    (hf : f ∈ (resolved Target.python.scope types e).1.fields)
    (h : f.name ∈ Source.baseMembers comments) :
    fieldBase Target.python.scope f.key = f.name ∧
      ∃ ch ∈ f.key.toList, Naming.isIdentifierChar ch = false := by
  rcases Source.baseMembers_cases h with hmem | ⟨hproperty, hstart, hdigit, _⟩
  · exact absurd hmem (name_not_mem_baseProperties hf)
  · have hbase := fieldBase_of_mem_resolved hf (unsuffixed_of_baseMembers h hproperty)
    refine ⟨hbase, ?_⟩
    by_contra hnone
    simp only [not_exists, not_and, Bool.not_eq_false] at hnone
    -- the member would begin with an underscore that no digit follows
    rw [← hbase] at hstart hdigit
    exact head?_fieldBase_ne (by decide) hnone hdigit hstart

end Shape

namespace CategoryModule

/-- A field hides a member of the base class exactly if the member is no property and a key is
cleaned to its name; and such a key has a character that is neither letter, digit nor underscore. -/
theorem hides_member_iff (strict : Bool) (package : String) (c : Category) (m : CategoryModule)
    (h : ofCategory Target.python.scope strict package c = .ok m) (comments : Bool) :
    List.Forall₂ (fun e type => ∀ member ∈ Source.baseMembers comments,
      ((∃ f ∈ type.fields, f.name = member) ↔ member ∉ Target.python.baseProperties ∧
        ∃ p ∈ e.parameters, p.key ≠ screenKey ∧
          Shape.fieldBase Target.python.scope p.key = member)) c.events m.eventTypes ∧
    ∀ type ∈ m.eventTypes, ∀ f ∈ type.fields, f.name ∈ Source.baseMembers comments →
      Shape.fieldBase Target.python.scope f.key = f.name ∧
        ∃ ch ∈ f.key.toList, Naming.isIdentifierChar ch = false := by
  have htypes := forall₂_eventTypes h
  constructor
  · refine htypes.imp ?_
    rintro e type ⟨used, rfl⟩ member hmember
    exact Shape.exists_member_field_iff hmember { Shape.typeScope Target.python.scope with used } e
  · intro type htype f hf hname
    obtain ⟨e, _, used, rfl⟩ := exists_left_of_mem htypes htype
    exact Shape.exists_not_isIdentifierChar { Shape.typeScope Target.python.scope with used }
      hf hname

/-- A category with two keys that have a dash and underscores. -/
def dashes : Category := ⟨"shop", [⟨"buy", [⟨"-key", "1"⟩, ⟨"-category_name", "2"⟩]⟩]⟩

/-- The dash of either key becomes an underscore, but only the first comes out as the name of a
member: the style of fields takes the underscore out of the second. -/
theorem hides_member_dashes : ∃ m, ofCategory Target.python.scope false "app" dashes = .ok m ∧
    (∃ type ∈ m.eventTypes, ∃ f ∈ type.fields, f.name = "_key") ∧
    ∀ type ∈ m.eventTypes, ¬∃ f ∈ type.fields, f.name = "_category_name" := by
  obtain ⟨m, type, hm, htypes⟩ : ∃ m type,
      ofCategory Target.python.scope false "app" dashes = .ok m ∧ m.eventTypes = [type] :=
    ⟨_, _, rfl, rfl⟩
  have hiff := (hides_member_iff false "app" dashes m hm true).1
  rw [htypes] at hiff
  have hmember := (List.forall₂_cons.mp hiff).1
  rw [Source.baseMembers_eq] at hmember
  refine ⟨m, hm, ?_, ?_⟩
  · rw [htypes]
    refine ⟨type, List.mem_singleton_self type, (hmember "_key" (by decide)).mpr ⟨by decide, ?_⟩⟩
    exact ⟨⟨"-key", "1"⟩, List.mem_cons_self, by decide, by decide⟩
  · rw [htypes, List.forall_mem_singleton, hmember "_category_name" (by decide)]
    decide

end CategoryModule

namespace Session

/-- The text of a plan with a key that is a word after a dash. -/
def dashPlan : String :=
  "[\x7b\"name\": \"shop\", \"events\": [\x7b\"name\": \"buy\", \"parameters\": " ++
    "[\x7b\"name\": \"-key\"\x7d]\x7d]\x7d]"

/-- The method by which events are compared is hidden by a field for the key `-key`. -/
theorem field_hides_method : ∃ m,
    Plan.parse dashPlan = .ok [⟨"shop", [⟨"buy", [⟨"-key", ""⟩]⟩]⟩] ∧
    (standard .python).moduleOf ⟨"shop", [⟨"buy", [⟨"-key", ""⟩]⟩]⟩ = .ok m ∧
    m.eventTypes.flatMap (fun type => type.fields.map (·.name)) = ["_key"] ∧
    "_key" ∈ Source.baseMembers true := by
  refine ⟨_, by decide +kernel, rfl, by decide, ?_⟩
  rw [Source.baseMembers_eq]
  decide

end Session
end EventCodegen
