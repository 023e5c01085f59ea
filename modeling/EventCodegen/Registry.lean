import EventCodegen.Journal

/-! The table of languages: which generator each language has, and which other names lead to it.
All names are kept in small letters. -/
namespace EventCodegen

/-- What is offered as the generator of a language: a generator, or something else, which is shown
in the refusal. -/
inductive Candidate
  | generator (t : Target)
  | other (shown : String)
deriving DecidableEq, Repr

/-- Languages with their generators, and aliases with the languages they lead to, both in the order
in which they were first entered. -/
structure Registry where
  languages : List (String × Target) := []
  aliases : List (String × String) := []
deriving DecidableEq, Repr

namespace Registry

/-- A table with `name` bound to `a`: in its old place if it was bound, else at the end. -/
def assign {α : Type} (name : String) (a : α) : List (String × α) → List (String × α)
  | [] => [(name, a)]
  | (n, b) :: rest => if n = name then (name, a) :: rest else (n, b) :: assign name a rest

@[simp] theorem lookup_assign {α : Type} (name : String) (a : α) (table : List (String × α)) :
    (assign name a table).lookup name = some a := by
  induction table with
  | nil => simp [assign]
  | cons m rest ih =>
    obtain ⟨n, b⟩ := m
    by_cases h : n = name
    · simp [assign, h]
    · have : (name == n) = false := by simp [Ne.symm h]
      simp [assign, h, List.lookup_cons, this, ih]

theorem lookup_assign_ne {α : Type} {name other : String} (a : α) (table : List (String × α))
    (h : other ≠ name) : (assign name a table).lookup other = table.lookup other := by
  have hb : (other == name) = false := by simp [h]
  induction table with
  | nil => simp [assign, List.lookup_cons, hb]
  | cons m rest ih =>
    obtain ⟨n, b⟩ := m
    by_cases hm : n = name
    · subst hm
      simp [assign, List.lookup_cons, hb]
    · simp only [assign, hm, if_false, List.lookup_cons, ih]

/-- A name in small letters, if it is a text. -/
def lowered (name : Json) : Except Failure String :=
  match name.text? with
  | some s => .ok (Text.lower s)
  | none => .error (.misuse .notText)

/-- Whether a name in small letters is a language. -/
def isLanguage (r : Registry) (name : String) : Bool := (r.languages.lookup name).isSome

/-- The language that a name in small letters leads to. A language comes before an alias. -/
def primary? (r : Registry) (name : String) : Option String :=
  if r.isLanguage name then some name else r.aliases.lookup name

/-- The languages in the order of their names. -/
def languageNames (r : Registry) : List String :=
  (r.languages.map (·.1)).mergeSort (fun a b => decide (a ≤ b))

/-- The first conflict of some aliases for `language` with what is in the table. -/
def conflict? (r : Registry) (language : String) : List String → Option RegistryError
  | [] => none
  | name :: rest =>
    if r.isLanguage name then some (.aliasIsLanguage name)
    else match r.aliases.lookup name with
      | some owner => if owner = language then conflict? r language rest
        else some (.aliasTaken name owner)
      | none => conflict? r language rest

/-- The table with a language and its aliases entered, whatever they led to before. -/
def enter (r : Registry) (language : String) (t : Target) (names : List String) : Registry :=
  { languages := assign language t r.languages
    aliases := names.foldl (fun table name => assign name language table) r.aliases }

/-- The aliases worth entering: in small letters, and not the language itself. -/
def ownAliases (language : String) (names : List Json) : Except Failure (List String) := do
  let names ← names.mapM lowered
  return names.filter (· != language)

/-- The items that a value stands for where a list of names is asked for. -/
def itemsOf (x : Json) : Except Failure (List Json) :=
  if !x.isGiven then .ok []
  else match x with
    | .arr items => .ok items
    | .str (.text s) => .ok (s.toList.map fun c => .text (String.singleton c))
    | .obj fields => .ok (fields.map fun m => .str m.1)
    | _ => .error (.misuse .wrongType)

/-- The part of the program whose notes these are. -/
def part : String := "registry"

/-- Enters a language with its generator and its aliases. A language that is there already stays as
it is unless it is to be replaced, and without that no alias may be in use for anything else. -/
def register (r : Registry) (language : Json) (candidate : Candidate) (aliases : Json)
    (replace : Bool) : Traced Registry := do
  match candidate with
  | .other shown => Traced.fail (.registry (.notGenerator shown))
  | .generator t =>
    let language ← Traced.ofExcept (lowered language)
    if r.isLanguage language ∧ !replace then
      Traced.note .debug part ("Language " ++ language ++ " is already registered")
      return r
    let items ← Traced.ofExcept (itemsOf aliases)
    let names ← Traced.ofExcept (ownAliases language items)
    match if replace then none else r.conflict? language names with
    | some e => Traced.fail (.registry e)
    | none =>
      Traced.note .debug part ("Registered " ++ language ++ " -> " ++ t.generatorName ++
        " (aliases: " ++ (if names.isEmpty then "none" else Text.joined ", " names) ++ ")")
      return r.enter language t names

/-- The table without a language and the aliases that lead to it. -/
def unregister (r : Registry) (language : Json) : Except Failure Registry := do
  let language ← lowered language
  return { languages := r.languages.filter (·.1 != language)
           aliases := r.aliases.filter (·.2 != language) }

/-- The language that a name leads to. -/
def resolve (r : Registry) (language : Json) : Except Failure String := do
  match r.primary? (← lowered language) with
  | some name => return name
  | none => .error (.registry (.unknownLanguage language.display r.languageNames))

/-- Whether a name leads to a language. -/
def isSupported (r : Registry) (language : Json) : Except Failure Bool := do
  return (r.primary? (← lowered language)).isSome

/-- The generator of a language by its own name. -/
def generatorNamed (r : Registry) (name : String) : Except Failure Target :=
  match r.languages.lookup name with
  | some t => .ok t
  | none => .error (.registry (.unknownLanguage name r.languageNames))

/-- The generator of the language that a name leads to. -/
def generatorOf (r : Registry) (language : Json) : Except Failure Target := do
  r.generatorNamed (← r.resolve language)

/-- The aliases that lead to a language, in the order of their names. -/
def aliasesOf (r : Registry) (language : String) : List String :=
  ((r.aliases.filter (·.2 == language)).map (·.1)).mergeSort (fun a b => decide (a ≤ b))

/-- The aliases of a language. -/
def aliasesFor (r : Registry) (language : Json) : Except Failure (List String) := do
  return r.aliasesOf (← lowered language)

/-- The table with the languages that are always there, and the notes of setting it up. -/
def setUp : Traced Registry :=
  Target.all.foldlM (fun r t =>
    r.register (.text t.name) (.generator t) (.arr (t.aliases.map .text)) false) {}

/-- The table with the languages that are always there. -/
def builtIn : Registry :=
  { languages := Target.all.map fun t => (t.name, t)
    aliases := Target.all.flatMap fun t => t.aliases.map fun a => (a, t.name) }

/-- No language that is always there stands in the way of another. -/
theorem outcome_setUp : setUp.outcome = .ok builtIn := rfl

end Registry
end EventCodegen
