import Mathlib.Data.List.Nodup
import EventCodegen.ModuleTree

/-! What is kept of keys, values and names that repeat. Three accumulations go through a list and
skip what they have met: fields by their keys, the predefined values of a category, and constants
by their names. Each keeps the first occurrences of what is new to it, in their order (`newTo`),
so each is an instance of `List.eraseDups` when it starts from nothing. -/
namespace EventCodegen

/-! ## First occurrences -/

/-- What some known texts lack of others, each once, in the order of its first appearance. -/
def newTo (known texts : List String) : List String := (texts.filter (· ∉ known)).eraseDups

@[simp] theorem newTo_nil (known : List String) : newTo known [] = [] := rfl

theorem newTo_of_nothing (texts : List String) : newTo [] texts = texts.eraseDups := by
  simp [newTo]

theorem newTo_cons (known : List String) (s : String) (rest : List String) :
    newTo known (s :: rest) =
      if s ∈ known then newTo known rest else s :: newTo (s :: known) rest := by
  unfold newTo
  by_cases h : s ∈ known
  · rw [if_pos h, List.filter_cons_of_neg (by simpa using h)]
  · rw [if_neg h, List.filter_cons_of_pos (by simpa using h), List.eraseDups_cons,
      List.filter_filter]
    congr 2
    refine List.filter_congr fun x _ => ?_
    rw [Bool.eq_iff_iff]
    simp

/-- Only which texts are known matters, not their order. -/
theorem newTo_congr {known known' : List String} (h : ∀ s, s ∈ known ↔ s ∈ known')
    (texts : List String) : newTo known texts = newTo known' texts := by
  unfold newTo
  congr 1
  exact List.filter_congr fun s _ => by simp [h s]

/-- Erasing duplicates leaves each element once. The recursion is on the length, since the rest is
filtered before it is gone through. -/
theorem nodup_eraseDups : ∀ texts : List String, texts.eraseDups.Nodup
  | [] => List.nodup_nil
  | s :: rest => by
    rw [List.eraseDups_cons, List.nodup_cons]
    refine ⟨?_, nodup_eraseDups (rest.filter fun x => !x == s)⟩
    rw [List.mem_eraseDups, List.mem_filter]
    simp
termination_by texts => texts.length
decreasing_by exact Nat.lt_succ_of_le (List.length_filter_le _ _)

/-! ## Fields by their keys -/

namespace Shape

theorem keys_fieldsFrom : ∀ (parameters : List Parameter) (scope : Scope) (seen : List String),
    (fieldsFrom scope seen parameters).map (·.key) =
      newTo seen ((parameters.map (·.key)).filter (· ≠ screenKey))
  | [], _, _ => rfl
  | p :: rest, scope, seen => by
    rw [fieldsFrom, List.map_cons]
    by_cases hscreen : p.key = screenKey
    · rw [if_pos (Or.inl hscreen), keys_fieldsFrom rest,
        List.filter_cons_of_neg (by simpa using hscreen)]
    · rw [List.filter_cons_of_pos (by simpa using hscreen), newTo_cons]
      by_cases hseen : p.key ∈ seen
      · rw [if_pos (Or.inr hseen), if_pos hseen, keys_fieldsFrom rest]
      · rw [if_neg (not_or.mpr ⟨hscreen, hseen⟩), if_neg hseen, List.map_cons, keys_fieldsFrom rest]

/-! ## Predefined values -/

theorem addNew_eq : ∀ values known : List String, addNew known values = known ++ newTo known values
  | [], known => by simp [addNew]
  | v :: rest, known => by
    rw [addNew, newTo_cons, addNew_eq rest]
    by_cases h : v ∈ known
    · rw [if_pos h, if_pos h]
    · have hsame : newTo (known ++ [v]) rest = newTo (v :: known) rest :=
        newTo_congr (fun s => by simp [or_comm]) rest
      rw [if_neg h, if_neg h, hsame, List.append_assoc, List.singleton_append]

theorem addNew_append : ∀ (values more known : List String),
    addNew known (values ++ more) = addNew (addNew known values) more
  | [], _, _ => rfl
  | v :: rest, more, known => by rw [List.cons_append, addNew, addNew, addNew_append rest]

/-- The predefined values are the values of the events, each where it first appears. -/
theorem predefinedValues_eq_eraseDups (events : List ResolvedEvent) :
    predefinedValues events = (events.flatMap (·.values)).eraseDups := by
  have hfold : ∀ known : List String, events.foldl (fun known r => addNew known r.values) known =
      addNew known (events.flatMap (·.values)) := by
    induction events with
    | nil => exact fun _ => rfl
    | cons r rest ih =>
      intro known
      rw [List.foldl_cons, ih, List.flatMap_cons, addNew_append]
  rw [predefinedValues, hfold, addNew_eq, newTo_of_nothing, List.nil_append]

end Shape

/-! ## Constants by their names -/

namespace CategoryModule

theorem names_putConstant (name value : String) : ∀ constants : List Constant,
    (putConstant name value constants).map (·.name) =
      Shape.addNew (constants.map (·.name)) [name]
  | [] => rfl
  | c :: rest => by
    have ih := names_putConstant name value rest
    rw [Shape.addNew, Shape.addNew] at ih ⊢
    rw [putConstant]
    by_cases h : c.name = name
    · simp [h]
    · rw [if_neg h, List.map_cons, ih, List.map_cons]
      -- the name differs from that of `c`, so it is new exactly if the rest lacks it
      by_cases hmem : name ∈ rest.map (·.name)
      · rw [if_pos hmem, if_pos (List.mem_cons_of_mem _ hmem)]
      · rw [if_neg hmem, if_neg (by simpa [Ne.symm h] using hmem), List.cons_append]

/-- The names of the constants are the names for the values, each where it first appears. -/
theorem names_constantsFor (rules : Scope) (values : List String) :
    (constantsFor rules values).map (·.name) =
      (values.map fun v => rules.identifier v .constant).eraseDups := by
  have hfold : ∀ constants : List Constant,
      (values.foldl (fun cs v => putConstant (rules.identifier v .constant) v cs)
        constants).map (·.name) =
        Shape.addNew (constants.map (·.name))
          (values.map fun v => rules.identifier v .constant) := by
    induction values with
    | nil => exact fun _ => rfl
    | cons v rest ih =>
      intro constants
      rw [List.foldl_cons, ih, names_putConstant, ← Shape.addNew_append, List.singleton_append,
        List.map_cons]
  rw [constantsFor, hfold, List.map_nil, Shape.addNew_eq, newTo_of_nothing, List.nil_append]

end CategoryModule
end EventCodegen
