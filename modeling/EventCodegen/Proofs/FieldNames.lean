import Mathlib.Data.List.Nodup
import EventCodegen.Proofs.BuiltModules

/-! The fields of an event. Each stands for the first parameter with its key and has a name that no
field before it has. A name that neither a number nor the underscore of a reserved word could have
given is the name of a field exactly if some key is cleaned to it (`exists_field_iff`): of several
such keys the first one gets it. -/
namespace EventCodegen

namespace Naming

/-- A letter or a digit. -/
def isWordChar (c : Char) : Bool := isIdentifierChar c && c != '_'

theorem isWordChar_iff {c : Char} : isWordChar c = true ↔ isIdentifierChar c = true ∧ c ≠ '_' := by
  simp [isWordChar]

end Naming

/-- What is made of a key before clashes with reserved words and with other fields are resolved. -/
def Shape.fieldBase (rules : Scope) (key : String) : String :=
  Naming.clean rules.fallback (Naming.styled .camel key)

/-- The first of the parameters of an event that have its key. -/
def Event.IsFirst (e : Event) (p : Parameter) : Prop :=
  ∃ before after, e.parameters = before ++ p :: after ∧ ∀ q ∈ before, q.key ≠ p.key

theorem Event.isFirst_iff {e : Event} {p : Parameter} :
    e.IsFirst p ↔ e.parameters.find? (·.key == p.key) = some p := by
  rw [List.find?_eq_some_iff_append]
  simp [IsFirst]

/-! ## Suffixes that names get -/

namespace Scope

/-- A name that is no identifier with a number after it, and no word with an underscore after it
that the scope has reserved. -/
structure Unsuffixed (scope : Scope) (name : String) : Prop where
  number : ∀ base k, name ≠ base ++ toString (k : Nat)
  reserved : name ∉ scope.reserved
  underscore : ∀ word ∈ scope.reserved, name ≠ word ++ "_"

section
variable {scope : Scope} {name : String} (h : scope.Unsuffixed name)
include h

/-- Such a name is only given to what is cleaned to it. -/
theorem Unsuffixed.identifier_eq_iff {raw : String} {style : NameStyle} :
    scope.identifier raw style = name ↔
      Naming.clean scope.fallback (Naming.styled style raw) = name := by
  unfold identifier
  extract_lets cleaned
  split
  · next hmem =>
    constructor
    · exact fun heq => absurd heq.symm (h.underscore cleaned hmem)
    · exact fun heq => absurd (heq ▸ hmem) h.reserved
  · rfl

theorem Unsuffixed.eq_of_numbered {base : String} (hname : Numbered base name) : base = name := by
  rcases hname with hbase | ⟨k, _, hnumber⟩
  · exact hbase.symm
  · exact absurd hnumber (h.number base k)

/-- Such a name is only given if it is asked for while it is free. -/
theorem Unsuffixed.free_eq_iff {used : List String} {base : String} :
    free used base = name ↔ base = name ∧ name ∉ used := by
  constructor
  · rintro rfl
    exact ⟨h.eq_of_numbered (numbered_free used base), free_not_mem used base⟩
  · rintro ⟨rfl, hfree⟩
    exact free_of_not_mem hfree

end
end Scope

namespace Shape

/-! ## Fields and their parameters -/

/-- A field belongs to the first parameter with its key. -/
theorem find?_of_mem_fieldsFrom {f : Field} : ∀ {parameters : List Parameter} {scope : Scope}
    {seen : List String}, f ∈ fieldsFrom scope seen parameters →
      f.key ≠ screenKey ∧ f.key ∉ seen ∧
        parameters.find? (·.key == f.key) = some ⟨f.key, f.value⟩
  | [], _, _, hf => by cases hf
  | p :: rest, scope, seen, hf => by
    rw [fieldsFrom] at hf
    split at hf
    · next hskip =>
      obtain ⟨hscreen, hseen, hfind⟩ := find?_of_mem_fieldsFrom hf
      have hne : p.key ≠ f.key := by
        rintro heq
        rw [heq] at hskip
        exact hskip.elim hscreen hseen
      exact ⟨hscreen, hseen, by rw [List.find?_cons_of_neg (by simpa using hne), hfind]⟩
    · next hkeep =>
      obtain ⟨hscreen, hseen⟩ := not_or.mp hkeep
      rcases List.mem_cons.mp hf with rfl | hf
      · exact ⟨hscreen, hseen, List.find?_cons_of_pos (by simp)⟩
      · obtain ⟨hscreen', hseen', hfind⟩ := find?_of_mem_fieldsFrom hf
        obtain ⟨hne, hseen'⟩ := not_or.mp (mt List.mem_cons.mpr hseen')
        refine ⟨hscreen', hseen', ?_⟩
        rw [List.find?_cons_of_neg (by simpa using Ne.symm hne), hfind]

/-- A field is called what its key is made into, perhaps with a number. -/
theorem numbered_of_mem_fieldsFrom {rules : Scope} {f : Field} :
    ∀ (parameters : List Parameter) (used seen : List String),
      f ∈ fieldsFrom { rules with used } seen parameters →
        Scope.Numbered (rules.identifier f.key .camel) f.name
  | [], _, _, hf => by cases hf
  | p :: rest, used, seen, hf => by
    rw [fieldsFrom] at hf
    split at hf
    · exact numbered_of_mem_fieldsFrom rest used seen hf
    · rcases List.mem_cons.mp hf with rfl | hf
      · exact Scope.numbered_free used _
      · exact numbered_of_mem_fieldsFrom rest _ _ hf

/-- Field names are fresh in their scope and differ from each other. -/
theorem nodup_fieldsFrom : ∀ (parameters : List Parameter) (scope : Scope) (seen : List String),
    ((fieldsFrom scope seen parameters).map (·.name)).Nodup ∧
      ∀ f ∈ fieldsFrom scope seen parameters, f.name ∉ scope.used
  | [], _, _ => ⟨List.nodup_nil, List.forall_mem_nil _⟩
  | p :: rest, scope, seen => by
    rw [fieldsFrom]
    split
    · exact nodup_fieldsFrom rest scope seen
    · obtain ⟨hnodup, hfresh⟩ :=
        nodup_fieldsFrom rest (scope.unique p.key .camel).2 (p.key :: seen)
      refine ⟨?_, ?_⟩
      · rw [List.map_cons, List.nodup_cons]
        refine ⟨?_, hnodup⟩
        -- the name is in use for the fields that follow
        intro hmem
        obtain ⟨g, hg, hname⟩ := List.mem_map.mp hmem
        exact hfresh g hg (by rw [hname]; exact List.mem_cons_self)
      · rw [List.forall_mem_cons]
        exact ⟨Scope.free_not_mem _ _, fun g hg => mt (List.mem_cons_of_mem _) (hfresh g hg)⟩

/-! ## Which names fields have -/

/-- A name that no suffix could have given is the name of a field exactly if it is free and a key
that has no field yet is cleaned to it. The induction keeps apart the names in use and the keys
seen. -/
theorem exists_mem_fieldsFrom_iff {scope : Scope} {name : String} (h : scope.Unsuffixed name) :
    ∀ (parameters : List Parameter) (used seen : List String),
      (∃ f ∈ fieldsFrom { scope with used } seen parameters, f.name = name) ↔
        name ∉ used ∧ ∃ p ∈ parameters, (p.key ≠ screenKey ∧ p.key ∉ seen) ∧
          scope.identifier p.key .camel = name
  | [], _, _ => by simp [fieldsFrom]
  | p :: rest, used, seen => by
    rw [fieldsFrom]
    split
    · next hskip =>
      have hpast : ¬((p.key ≠ screenKey ∧ p.key ∉ seen) ∧ scope.identifier p.key .camel = name) :=
        fun hp => hskip.elim hp.1.1 hp.1.2
      rw [exists_mem_fieldsFrom_iff h rest, List.exists_mem_cons_iff, or_iff_right hpast]
    · next hkeep =>
      have hkeep : p.key ≠ screenKey ∧ p.key ∉ seen := not_or.mp hkeep
      have hchosen : (Scope.unique { scope with used } p.key .camel).1 = name ↔
          scope.identifier p.key .camel = name ∧ name ∉ used := h.free_eq_iff
      show (∃ f ∈ ⟨p.key, (Scope.unique { scope with used } p.key .camel).1, p.value⟩ :: fieldsFrom
        { scope with used := (Scope.unique { scope with used } p.key .camel).1 :: used }
          (p.key :: seen) rest, f.name = name) ↔ _
      rw [List.exists_mem_cons_iff, exists_mem_fieldsFrom_iff h rest,
        List.exists_mem_cons_iff, hchosen, List.mem_cons, not_or]
      constructor
      · rintro (⟨hname, hfree⟩ | ⟨⟨_, hfree⟩, q, hq, ⟨hscreen, hseen⟩, hname⟩)
        · exact ⟨hfree, Or.inl ⟨hkeep, hname⟩⟩
        · exact ⟨hfree, Or.inr ⟨q, hq, ⟨hscreen, mt (List.mem_cons_of_mem _) hseen⟩, hname⟩⟩
      · rintro ⟨hfree, ⟨_, hname⟩ | ⟨q, hq, ⟨hscreen, hseen⟩, hname⟩⟩
        · exact Or.inl ⟨hname, hfree⟩
        · by_cases hfirst : scope.identifier p.key .camel = name
          · exact Or.inl ⟨hfirst, hfree⟩
          · refine Or.inr ⟨⟨fun heq => hfirst (hchosen.mp heq.symm).1, hfree⟩, q, hq,
              ⟨hscreen, ?_⟩, hname⟩
            rw [List.mem_cons, not_or]
            -- a key like that of `p` would have been cleaned to another name
            exact ⟨fun heq => hfirst (heq ▸ hname), hseen⟩

end Shape

theorem Event.simple_iff (e : Event) : e.isSimple = true ↔
    e.parameters = [] ∨ ∃ p, e.parameters = [p] ∧ p.key = screenKey := by
  unfold isSimple
  split <;> simp_all

namespace Shape

/-- The fields of an event are those of its parameters: a simple one has none to give. -/
theorem fields_resolved (rules types : Scope) (e : Event) :
    (resolved rules types e).1.fields = fields rules e.parameters := by
  show (if e.isSimple then [] else fields rules e.parameters) = _
  split
  · next hsimple =>
    obtain hnone | ⟨p, hone, hscreen⟩ := e.simple_iff.mp hsimple
    · rw [hnone]
      rfl
    · rw [hone, fields, fieldsFrom, if_pos (Or.inl hscreen)]
      rfl
  · rfl

theorem fields_eq (rules : Scope) (parameters : List Parameter) :
    fields rules parameters = fieldsFrom { rules with used := [] } [] parameters := by
  rw [fields, Scope.fork, List.append_nil]

/-- A name that no suffix could have given is the name of a field exactly if a key besides the
screen name is cleaned to it. -/
theorem exists_field_iff {rules : Scope} {name : String} (h : rules.Unsuffixed name)
    (types : Scope) (e : Event) :
    (∃ f ∈ (resolved rules types e).1.fields, f.name = name) ↔
      ∃ p ∈ e.parameters, p.key ≠ screenKey ∧ fieldBase rules p.key = name := by
  rw [fields_resolved, fields_eq, exists_mem_fieldsFrom_iff h]
  simp only [h.identifier_eq_iff, fieldBase, List.not_mem_nil, not_false_eq_true, true_and,
    and_true]

/-- The field that has such a name is the one whose key is cleaned to it. -/
theorem fieldBase_of_mem_resolved {rules types : Scope} {e : Event} {f : Field}
    (hf : f ∈ (resolved rules types e).1.fields) (h : rules.Unsuffixed f.name) :
    fieldBase rules f.key = f.name := by
  rw [fields_resolved, fields_eq] at hf
  exact h.identifier_eq_iff.mp (h.eq_of_numbered (numbered_of_mem_fieldsFrom _ _ _ hf))

end Shape

/-! ## Names that begin with an underscore -/

/-- No reserved word begins with an underscore. So what does so, and ends in no number, has come by
its name without a suffix. -/
theorem Target.unsuffixed_of_underscore (t : Target) {name : String}
    (hstart : name.toList.head? = some '_')
    (hend : (Scope.lastChar name).any Naming.isDigit = false) : t.scope.Unsuffixed name where
  number base k := by
    rintro rfl
    obtain ⟨c, hc, hdigit⟩ := Scope.lastChar_number base k
    rw [hc, Option.any_some, hdigit] at hend
    cases hend
  reserved hmem := by
    have hall : ∀ word ∈ t.scope.reserved, word.toList.head? ≠ some '_' := by cases t <;> decide
    exact hall name hmem hstart
  underscore word hmem := by
    have hall : ∀ w ∈ t.scope.reserved, (w ++ "_").toList.head? ≠ some '_' := by
      cases t <;> decide
    rintro rfl
    exact hall word hmem hstart
end EventCodegen
