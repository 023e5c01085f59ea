import Mathlib.Data.List.Induction
import EventCodegen.Proofs.BuiltModules
import EventCodegen.Proofs.FirstOccurrences

/-! The container of predefined values. The values of a category are those of all its parameters,
each where it first appears (`predefinedValues_of_events`). A value is put under its constant
name, so of the values with one name the last one stays, in the place of the first
(`mem_constantsFor_iff`); and as the name depends on the value alone, looking up a value inverts
the table of constants (`constantFor?_eq_some_iff`). -/
namespace EventCodegen

/-! ## Values of a category -/

/-- What counts as a value that the plan gives: neither nothing nor the word `null`. -/
def IsGivenValue (value : String) : Prop := value ≠ "" ∧ value ≠ "null"

instance : DecidablePred IsGivenValue := fun _ => inferInstanceAs (Decidable (_ ∧ _))

/-- The values of all parameters of a category, in the order of the plan. -/
def Category.allValues (c : Category) : List String :=
  c.events.flatMap fun e => e.parameters.map (·.value)

theorem Event.values_eq (e : Event) :
    e.values = (e.parameters.map (·.value)).filter (IsGivenValue ·) := by
  rw [List.filter_map, Event.values]
  congr 1
  refine List.filter_congr fun p _ => ?_
  rw [Bool.eq_iff_iff, Function.comp_apply, decide_eq_true_iff]
  simp [Parameter.hasValue, IsGivenValue]

theorem Category.values_eq (c : Category) :
    c.events.flatMap Event.values = c.allValues.filter (IsGivenValue ·) := by
  rw [Category.allValues, List.filter_flatMap]
  congr 1
  funext e
  exact e.values_eq

namespace Shape

/-- The resolver hands on the values of each event as the plan has them. -/
theorem values_of_resolved {rules : Scope} {strict : Bool} {c : Category}
    {events : List ResolvedEvent} (h : resolveCategory rules strict c = .ok events) :
    events.flatMap (·.values) = c.events.flatMap Event.values := by
  have hresolved := forall₂_resolveAll c.events _ events h
  clear h
  generalize c.events = es at hresolved ⊢
  induction hresolved with
  | nil => rfl
  | cons hr _ ih =>
    obtain ⟨used, rfl⟩ := hr
    rw [List.flatMap_cons, List.flatMap_cons, ih]
    rfl

/-- The predefined values of a category are the given ones among the values of all its parameters,
each where it first appears. -/
theorem predefinedValues_of_events {rules : Scope} {strict : Bool} {c : Category}
    {events : List ResolvedEvent} (h : resolveCategory rules strict c = .ok events) :
    predefinedValues events = (c.allValues.filter (IsGivenValue ·)).eraseDups := by
  calc predefinedValues events
      = (events.flatMap (·.values)).eraseDups := predefinedValues_eq_eraseDups events
    _ = (c.events.flatMap Event.values).eraseDups := by rw [values_of_resolved h]
    _ = (c.allValues.filter (IsGivenValue ·)).eraseDups := by rw [c.values_eq]

end Shape

/-! ## The last of the values with one name -/

/-- A value of a list that none with the same name follows. -/
def IsLast (nameOf : String → String) (values : List String) (value : String) : Prop :=
  ∃ before after, values = before ++ value :: after ∧ ∀ w ∈ after, nameOf w ≠ nameOf value

theorem not_isLast_nil {nameOf : String → String} {v : String} : ¬IsLast nameOf [] v := by
  rintro ⟨before, after, h, _⟩
  simp at h

/-- One more value is the last with its name, and takes the place of an earlier one. -/
theorem isLast_concat {nameOf : String → String} {values : List String} {w v : String} :
    IsLast nameOf (values ++ [w]) v ↔ v = w ∨ IsLast nameOf values v ∧ nameOf w ≠ nameOf v := by
  constructor
  · rintro ⟨before, after, heq, hafter⟩
    -- the new value is `v` itself, or the last of those after it
    rcases List.eq_nil_or_concat after with rfl | ⟨rest, x, rfl⟩
    · have hw := List.append_inj_right' heq rfl
      exact Or.inl (List.singleton_inj.mp hw).symm
    · rw [List.concat_eq_append] at heq hafter
      rw [← List.cons_append, ← List.append_assoc] at heq
      obtain ⟨rfl, hx⟩ := List.append_inj' heq rfl
      obtain rfl := List.singleton_inj.mp hx
      obtain ⟨hrest, hlast⟩ := List.forall_mem_append.mp hafter
      exact Or.inr ⟨⟨before, rest, rfl, hrest⟩, hlast w (List.mem_singleton_self w)⟩
  · rintro (rfl | ⟨⟨before, after, rfl, hafter⟩, hne⟩)
    · exact ⟨values, [], rfl, List.forall_mem_nil _⟩
    · refine ⟨before, after ++ [w], by rw [List.append_assoc, List.cons_append], ?_⟩
      exact List.forall_mem_append.mpr ⟨hafter, List.forall_mem_singleton.mpr hne⟩

/-! ## Constants for values -/

namespace CategoryModule

/-- Where no two constants share a name, putting one in leaves exactly those with other names. -/
theorem mem_putConstant_iff {name value : String} {k : Constant} : ∀ {constants : List Constant},
    (constants.map (·.name)).Nodup →
    (k ∈ putConstant name value constants ↔ k = ⟨name, value⟩ ∨ k ∈ constants ∧ k.name ≠ name)
  | [], _ => by simp [putConstant]
  | c :: rest, hnodup => by
    rw [List.map_cons, List.nodup_cons] at hnodup
    have ih : k ∈ putConstant name value rest ↔ k = ⟨name, value⟩ ∨ k ∈ rest ∧ k.name ≠ name :=
      mem_putConstant_iff hnodup.2
    rw [putConstant]
    by_cases h : c.name = name
    -- the place of the name is here, so none of those behind has it
    · have hrest : ∀ d ∈ rest, d.name ≠ name := by
        intro d hd hname
        exact hnodup.1 (h ▸ hname ▸ List.mem_map_of_mem hd)
      rw [if_pos h]
      grind
    · rw [if_neg h]
      grind

section
variable (rules : Scope)

/-- The name of the constant for a value. -/
def constantName (value : String) : String := rules.identifier value .constant

theorem nodup_constantsFor (values : List String) :
    ((constantsFor rules values).map (·.name)).Nodup := by
  rw [names_constantsFor]
  exact nodup_eraseDups _

theorem constantsFor_concat (values : List String) (w : String) :
    constantsFor rules (values ++ [w]) =
      putConstant (constantName rules w) w (constantsFor rules values) := by
  unfold constantsFor
  rw [List.foldl_append]
  rfl

/-- Under a name stands the last of the values that have it. The induction is on the values that
have been put in: one more takes the place of what its name held. -/
theorem mem_constantsFor_iff {values : List String} {name value : String} :
    ⟨name, value⟩ ∈ constantsFor rules values ↔
      name = constantName rules value ∧ IsLast (constantName rules) values value := by
  induction values using List.reverseRecOn with
  | nil => simp [constantsFor, not_isLast_nil]
  | append_singleton values w ih =>
    rw [constantsFor_concat, mem_putConstant_iff (nodup_constantsFor rules values), ih,
      isLast_concat, Constant.mk.injEq]
    constructor
    · rintro (⟨rfl, rfl⟩ | ⟨⟨rfl, hlast⟩, hne⟩)
      · exact ⟨rfl, Or.inl rfl⟩
      · exact ⟨rfl, Or.inr ⟨hlast, Ne.symm hne⟩⟩
    · rintro ⟨rfl, rfl | ⟨hlast, hne⟩⟩
      · exact Or.inl ⟨rfl, rfl⟩
      · exact Or.inr ⟨⟨rfl, hlast⟩, Ne.symm hne⟩

end

/-- Looking up a value finds the constant that holds it: there is at most one, since its name is the
name for the value. -/
theorem constantFor?_eq_some_iff {rules : Scope} {values : List String} {m : CategoryModule}
    (hm : m.constants = constantsFor rules values) {name value : String} :
    m.constantFor? value = some name ↔ ⟨name, value⟩ ∈ m.constants := by
  have hnamed : ∀ {n v : String}, ⟨n, v⟩ ∈ m.constants → n = constantName rules v := by
    intro n v h
    rw [hm] at h
    exact ((mem_constantsFor_iff rules).mp h).1
  rw [constantFor?, Option.map_eq_some_iff]
  constructor
  · rintro ⟨k, hk, rfl⟩
    obtain rfl : k.value = value := by simpa using List.find?_some hk
    exact List.mem_of_find?_eq_some hk
  · intro hmem
    obtain ⟨k, hk⟩ : ∃ k, m.constants.find? (·.value == value) = some k := by
      rw [← Option.isSome_iff_exists, List.find?_isSome]
      exact ⟨_, hmem, beq_self_eq_true value⟩
    obtain rfl : k.value = value := by simpa using List.find?_some hk
    exact ⟨k, hk, (hnamed (List.mem_of_find?_eq_some hk)).trans (hnamed hmem).symm⟩

/-! ## The container of values -/

/-- Constants that hold, for each name that values have, the last value with it, in the order in
which the names first appear. -/
structure HoldLast (nameOf : String → String) (values : List String)
    (constants : List Constant) : Prop where
  order : constants.map (·.name) = (values.map nameOf).eraseDups
  distinct : (constants.map (·.name)).Nodup
  covered : ∀ v ∈ values, nameOf v ∈ constants.map (·.name)
  last : ∀ k ∈ constants, k.name = nameOf k.value ∧ IsLast nameOf values k.value

theorem holdLast_constantsFor (rules : Scope) (values : List String) :
    HoldLast (constantName rules) values (constantsFor rules values) where
  order := names_constantsFor rules values
  distinct := nodup_constantsFor rules values
  covered v hv := by
    rw [names_constantsFor, List.mem_eraseDups]
    exact List.mem_map_of_mem hv
  last _ hk := (mem_constantsFor_iff rules).mp hk

/-- The predefined values of a category are the given values of all parameters of all its events,
each where it first appears; the constants hold the last value with each name; and the name found
for a value is that of the constant that holds it, which is there exactly if the value is a
predefined one that no later one with its name replaced. -/
theorem values_container (rules : Scope) (strict : Bool) (package : String) (c : Category) :
    match Shape.resolveCategory rules strict c with
    | .error _ => strict = true ∧ ∃ e ∈ c.events, e.screen? = none
    | .ok events => ∃ m, ofCategory rules strict package c = .ok m ∧
      Shape.predefinedValues events = (c.allValues.filter (IsGivenValue ·)).eraseDups ∧
      (Shape.predefinedValues events).Nodup ∧
      HoldLast (constantName rules) (Shape.predefinedValues events) m.constants ∧
      ∀ value name, (m.constantFor? value = some name ↔ ⟨name, value⟩ ∈ m.constants) ∧
        (⟨name, value⟩ ∈ m.constants ↔ name = constantName rules value ∧
          IsLast (constantName rules) (Shape.predefinedValues events) value) := by
  cases h : Shape.resolveCategory rules strict c with
  | error err => exact Shape.resolveAll_error c.events _ h
  | ok events =>
    have hvalues := Shape.predefinedValues_of_events h
    refine ⟨build rules package c.name events (Shape.predefinedValues events), ?_, hvalues, ?_,
      holdLast_constantsFor rules _, ?_⟩
    · rw [ofCategory, h]
      rfl
    · rw [hvalues]
      exact nodup_eraseDups _
    · exact fun value name => ⟨constantFor?_eq_some_iff rfl, mem_constantsFor_iff rules⟩

/-- The last value with a name stands in the place of the first. -/
example : constantsFor Target.kotlin.scope ["home", "start", "Home"] =
    [⟨"HOME", "Home"⟩, ⟨"START", "start"⟩] := by decide +kernel

end CategoryModule
end EventCodegen
