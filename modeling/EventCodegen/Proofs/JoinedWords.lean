import EventCodegen.Proofs.BuiltModules
import EventCodegen.Proofs.CapitalForms
import EventCodegen.Proofs.LaidOutLines

/-! Names that an underscore joins. The styles split a name at its underscores and look at each word
alone, so the two sides of an underscore are styled one by one, whatever empty words there are
(`pascalChars_append`, `camelChars_append`); and as no capital form has an underscore in it
(`underscore_not_mem_upperChar`), none is left. So the word that is put after the name of a category
or of an event before it is styled stands after the styled name just as if it had been put there
(`styled_word_by_word`). -/
namespace EventCodegen

namespace Text

/-! ## Capital forms and underscores -/

/-- The table does not lead to the underscore. -/
theorem upperTable_no_underscore :
    (upperRuns.all fun r => r.targets.all (· != 0x5F)) = true ∧
    (upperExpansions.all fun e => e.2.all (· != 0x5F)) = true := by
  decide +kernel

theorem underscore_not_mem_upperChar_ascii : ∀ n < 0x80, n ≠ 0x5F →
    '_' ∉ upperChar (Char.ofNat n) := by
  decide

/-- Only the capital form of an underscore has an underscore in it. -/
theorem underscore_not_mem_upperChar {c : Char} (hc : c ≠ '_') : '_' ∉ upperChar c := by
  intro h
  by_cases hascii : c.toNat < 0x80
  · have hne : c.toNat ≠ 0x5F := by
      intro heq
      apply hc
      rw [← Char.ofNat_toNat c, heq]
    rw [← Char.ofNat_toNat c] at h
    exact underscore_not_mem_upperChar_ascii c.toNat hascii hne h
  · rw [upperChar, if_neg hascii] at h
    obtain ⟨n, hn, heq⟩ := List.mem_map.mp h
    have hpoint : n = 0x5F := by
      have hcode : (Char.ofNat n).toNat = 0x5F := by
        rw [heq]
        rfl
      rcases toNat_ofNat n with hsame | hzero <;> omega
    rcases mem_mapped hn with rfl | ⟨r, hr, hmem⟩ | ⟨e, he, hmem⟩
    · omega
    · have hall := List.all_eq_true.mp (List.all_eq_true.mp upperTable_no_underscore.1 r hr) n hmem
      exact bne_iff_ne.mp hall hpoint
    · have hall := List.all_eq_true.mp (List.all_eq_true.mp upperTable_no_underscore.2 e he) n hmem
      exact bne_iff_ne.mp hall hpoint

end Text

namespace Naming

/-! ## Words -/

/-- The first of the joined words may end in an underscore and the second begin with one: the words
between underscores may be empty. -/
theorem camelChars_append (s t : List Char) :
    camelChars (s ++ '_' :: t) = camelChars s ++ pascalChars t := by
  unfold camelChars pascalChars
  rw [List.splitOn_append_cons_self]
  cases hwords : s.splitOn '_' with
  | nil => exact absurd hwords (List.splitOn_ne_nil _ _)
  | cons first rest =>
    rw [List.cons_append]
    dsimp only
    rw [List.flatMap_append, List.append_assoc]

theorem styled_camel_append (name word : String) :
    styled .camel (name ++ ("_" ++ word)) = styled .camel name ++ styled .pascal word := by
  apply String.toList_injective
  simp only [styled, styledChars, String.toList_ofList, String.toList_append]
  exact camelChars_append name.toList word.toList

theorem underscore_not_mem_capitalize {word : List Char} (h : '_' ∉ word) :
    '_' ∉ capitalize word := by
  cases word with
  | nil => exact h
  | cons c rest =>
    rw [List.mem_cons, not_or] at h
    rw [capitalize, List.mem_append, not_or]
    exact ⟨Text.underscore_not_mem_upperChar (Ne.symm h.1), h.2⟩

/-- Words without underscores keep being such when they are capitalised. -/
theorem underscore_not_mem_flatMap {words : List (List Char)} (h : ∀ word ∈ words, '_' ∉ word) :
    '_' ∉ words.flatMap capitalize := by
  intro hmem
  obtain ⟨word, hword, hc⟩ := List.mem_flatMap.mp hmem
  exact underscore_not_mem_capitalize (h word hword) hc

theorem underscore_not_mem_pascalChars (s : List Char) : '_' ∉ pascalChars s :=
  underscore_not_mem_flatMap fun _ => Text.not_mem_of_mem_splitOn

theorem underscore_not_mem_camelChars (s : List Char) : '_' ∉ camelChars s := by
  have hwords : ∀ word ∈ s.splitOn '_', '_' ∉ word := fun _ => Text.not_mem_of_mem_splitOn
  unfold camelChars
  cases hsplit : s.splitOn '_' with
  | nil => exact List.not_mem_nil
  | cons first rest =>
    rw [hsplit, List.forall_mem_cons] at hwords
    dsimp only
    rw [List.mem_append, not_or]
    exact ⟨hwords.1, underscore_not_mem_flatMap hwords.2⟩

end Naming

/-! ## Names of containers and of event types -/

/-- What becomes of a cleaned name once all clashes are resolved: with a reserved word it clashes
first, and then with the names in use. -/
def Scope.settle (scope : Scope) (cleaned : String) (suffix : String := "_") : String :=
  free scope.used (if cleaned ∈ scope.reserved then cleaned ++ suffix else cleaned)

/-- A unique name is the cleaned name with its clashes resolved. -/
theorem Scope.unique_eq_settle (scope : Scope) (name : String) (style : NameStyle)
    (suffix : String) : (scope.unique name style suffix).1 =
      scope.settle (Naming.clean scope.fallback (Naming.styled style name)) suffix := rfl

theorem Shape.typeName_eq_settle (rules types : Scope) (e : Event) :
    (resolved rules types e).1.typeName = types.settle
      (Naming.clean types.fallback (Naming.styled .pascal e.name ++ "Event")) := by
  have hstyled : Naming.styled .pascal (e.name ++ "_event") =
      Naming.styled .pascal e.name ++ "Event" := Naming.styled_pascal_append e.name "event"
  rw [← hstyled]
  exact types.unique_eq_settle _ _ _

/-- No container is named like a reserved word, because of its ending. -/
theorem Target.container_not_reserved (t : Target) (category : String) :
    Naming.clean t.scope.fallback (Naming.styled .pascal category ++ "Events") ∉
      t.scope.reserved := by
  apply Shape.not_reserved_of_suffix "Events" (by decide)
  rw [Naming.toList_clean_append _ _ (by decide)]
  exact List.suffix_append _ _

/-- Joined names are styled one by one, and no underscore is left in them. So in every language the
container of a category is the cleaned name of the category with `Events` after it, which is no
reserved word; and the name of an event with `Event` after it, cleaned, is what clashes are resolved
for when the event gets its type. -/
theorem styled_word_by_word :
    (∀ a b : String,
      Naming.styled .pascal (a ++ "_" ++ b) = Naming.styled .pascal a ++ Naming.styled .pascal b ∧
      Naming.styled .camel (a ++ "_" ++ b) = Naming.styled .camel a ++ Naming.styled .pascal b) ∧
    (∀ a : String, '_' ∉ (Naming.styled .pascal a).toList ∧
      '_' ∉ (Naming.styled .camel a).toList) ∧
    (∀ (t : Target) (package category : String) (events : List ResolvedEvent)
      (values : List String), (CategoryModule.build t.scope package category events
          values).containerName =
        Naming.clean t.scope.fallback (Naming.styled .pascal category ++ "Events") ∧
      Naming.clean t.scope.fallback (Naming.styled .pascal category ++ "Events") ∉
        t.scope.reserved) ∧
    ∀ (rules types : Scope) (e : Event), (Shape.resolved rules types e).1.typeName =
      types.settle (Naming.clean types.fallback (Naming.styled .pascal e.name ++ "Event")) := by
  refine ⟨fun a b => ?_, fun a => ?_, fun t package category events values => ?_,
    Shape.typeName_eq_settle⟩
  · rw [String.append_assoc]
    exact ⟨Naming.styled_pascal_append a b, Naming.styled_camel_append a b⟩
  · simp only [Naming.styled, Naming.styledChars, String.toList_ofList]
    exact ⟨Naming.underscore_not_mem_pascalChars _, Naming.underscore_not_mem_camelChars _⟩
  · exact ⟨CategoryModule.identifier_events t category, t.container_not_reserved category⟩

/-- A letter with a capital form of two, between empty words. -/
example : Naming.styled .camel ("_ß" ++ "_" ++ "_id_") = "SSId" := by decide +kernel

end EventCodegen
