import EventCodegen.Proofs.LanguageNames

/-! Registrations as steps on a table that is changed entry by entry (`registering`). Every alias is
checked before the first entry is made, so a registration that is refused has changed nothing, and
the steps come to the same as the rule that looks at the table as a whole (`run_registering`). What
is refused is known exactly, down to the first alias that is in the way (`Refused`); a registration
that goes through leaves every entry alone that is not one of its own (`refused_or_entered`). -/
namespace EventCodegen.Registry

/-! ## Steps -/

/-- Steps on a table of languages. What one of them has changed stays changed if a later one
fails. -/
abbrev Steps := ExceptT Failure (StateM Registry)

/-- An outcome that changes nothing. -/
def Steps.ofExcept {α : Type} (x : Except Failure α) : Steps α :=
  match x with
  | .ok a => pure a
  | .error e => throw e

/-- Refuses an alias that is a language or leads to another one. -/
def checkAlias (language name : String) : Steps Unit := do
  let r ← get
  if r.isLanguage name then throw (.registry (.aliasIsLanguage name))
  match r.aliases.lookup name with
  | some owner => if owner ≠ language then throw (.registry (.aliasTaken name owner))
  | none => pure ()

/-- Refuses the first alias that is in the way. -/
def checkAliases (language : String) : List String → Steps Unit
  | [] => pure ()
  | name :: rest => do
    checkAlias language name
    checkAliases language rest

/-- Enters aliases one after the other. -/
def enterAliases (language : String) : List String → Steps Unit
  | [] => pure ()
  | name :: rest => do
    modify fun r => { r with aliases := assign name language r.aliases }
    enterAliases language rest

/-- A registration, step by step. -/
def registering (language : Json) (candidate : Candidate) (aliases : Json) (replace : Bool) :
    Steps Unit := do
  match candidate with
  | .other shown => throw (.registry (.notGenerator shown))
  | .generator t =>
    let language ← Steps.ofExcept (lowered language)
    if (← get).isLanguage language ∧ !replace then
      return
    let items ← Steps.ofExcept (itemsOf aliases)
    let names ← Steps.ofExcept (ownAliases language items)
    if !replace then
      checkAliases language names
    modify fun r => { r with languages := assign language t r.languages }
    enterAliases language names

variable {r r' : Registry} {language aliases : Json} {candidate : Candidate} {replace : Bool}
  {name : String} {names : List String} {e : Failure}

/-- What is in the way of an alias. -/
def obstacle? (r : Registry) (language name : String) : Option RegistryError :=
  if r.isLanguage name then some (.aliasIsLanguage name)
  else match r.aliases.lookup name with
    | some owner => if owner = language then none else some (.aliasTaken name owner)
    | none => none

/-- The first alias that something is in the way of decides. -/
theorem conflict?_eq (r : Registry) (language : String) (names : List String) :
    r.conflict? language names = names.findSome? (r.obstacle? language) := by
  induction names with
  | nil => rfl
  | cons name rest ih =>
    rw [conflict?, List.findSome?_cons, obstacle?]
    split
    · rfl
    · cases r.aliases.lookup name with
      | none => exact ih
      | some owner =>
        dsimp only
        split
        · exact ih
        · rfl

theorem run_bind {α β : Type} (x : Steps α) (f : α → Steps β) (r : Registry) :
    (x >>= f).run.run r = match x.run.run r with
      | (.ok a, r') => (f a).run.run r'
      | (.error e, r') => (.error e, r') := by
  rw [ExceptT.run_bind, StateT.run_bind]
  rcases x.run.run r with ⟨e | a, r'⟩ <;> rfl

theorem run_ofExcept {α : Type} (x : Except Failure α) (r : Registry) :
    (Steps.ofExcept x).run.run r = (x, r) := by
  cases x <;> rfl

theorem run_checkAlias (r : Registry) (language name : String) :
    (checkAlias language name).run.run r =
      ((match r.obstacle? language name with
        | some e => .error (.registry e)
        | none => .ok ()), r) := by
  have hget : (get : Steps Registry).run.run r = (.ok r, r) := rfl
  unfold checkAlias obstacle?
  rw [run_bind, hget]
  dsimp only
  split
  · rfl
  · split
    · next owner _ =>
      by_cases h : owner = language
      · rw [if_pos h, if_neg (not_not.mpr h)]
        rfl
      · rw [if_neg h, if_pos h]
        rfl
    · rfl

theorem run_checkAliases (r : Registry) (language : String) : ∀ names : List String,
    (checkAliases language names).run.run r =
      ((match r.conflict? language names with
        | some e => .error (.registry e)
        | none => .ok ()), r)
  | [] => rfl
  | name :: rest => by
    have hrest := run_checkAliases r language rest
    rw [conflict?_eq] at hrest ⊢
    rw [checkAliases, run_bind, run_checkAlias, List.findSome?_cons]
    cases r.obstacle? language name with
    | some e => rfl
    | none => exact hrest

theorem run_enterAliases (r : Registry) (language : String) (names : List String) :
    (enterAliases language names).run.run r = (.ok (), { r with
      aliases := names.foldl (fun table name => assign name language table) r.aliases }) := by
  induction names generalizing r with
  | nil => rfl
  | cons name rest ih =>
    exact ih { r with aliases := assign name language r.aliases }

theorem outcome_register (r : Registry) (language : Json) (t : Target) (aliases : Json)
    (replace : Bool) : (r.register language (.generator t) aliases replace).outcome = (do
      let name ← lowered language
      if r.isLanguage name ∧ !replace then return r
      let items ← itemsOf aliases
      let names ← ownAliases name items
      match if replace then none else r.conflict? name names with
      | some e => .error (.registry e)
      | none => return r.enter name t names) := by
  rw [register, Traced.outcome_bind, Traced.outcome_ofExcept]
  refine bind_congr fun name => ?_
  split
  · rfl
  · rw [Traced.outcome_bind, Traced.outcome_ofExcept]
    refine bind_congr fun items => ?_
    rw [Traced.outcome_bind, Traced.outcome_ofExcept]
    refine bind_congr fun names => ?_
    cases (if replace then none else r.conflict? name names) <;> rfl

/-- Checking and entering come to entering, unless an alias is refused. -/
theorem run_checked (r : Registry) (language : String) (t : Target) (names : List String)
    (replace : Bool) :
    (do
      if !replace then
        checkAliases language names
      modify fun r => { r with languages := assign language t r.languages }
      enterAliases language names : Steps Unit).run.run r =
      match if replace then none else r.conflict? language names with
      | some e => (.error (.registry e), r)
      | none => (.ok (), r.enter language t names) := by
  have henter := run_enterAliases { r with languages := assign language t r.languages } language
    names
  cases replace with
  | true => exact henter
  | false =>
    simp only [Bool.not_false, if_true, Bool.false_eq_true, if_false]
    rw [run_bind, run_checkAliases]
    cases r.conflict? language names with
    | some e => rfl
    | none => exact henter

/-- The steps end as the rule says; the table is left alone by those that fail. -/
theorem run_registering (r : Registry) (language : Json) (candidate : Candidate) (aliases : Json)
    (replace : Bool) :
    (registering language candidate aliases replace).run.run r =
      match (r.register language candidate aliases replace).outcome with
      | .ok r' => (.ok (), r')
      | .error e => (.error e, r) := by
  have hget : (get : Steps Registry).run.run r = (.ok r, r) := rfl
  cases candidate with
  | other shown => rfl
  | generator t =>
    rw [outcome_register, registering]
    dsimp only
    rw [run_bind, run_ofExcept]
    cases lowered language with
    | error e => rfl
    | ok name =>
      dsimp only
      rw [run_bind, hget, ok_bind]
      dsimp only
      split
      · rfl
      · rw [run_bind, run_ofExcept]
        cases itemsOf aliases with
        | error e => rfl
        | ok items =>
          dsimp only
          rw [run_bind, run_ofExcept, ok_bind]
          cases ownAliases name items with
          | error e => rfl
          | ok names =>
            dsimp only
            rw [ok_bind]
            refine (run_checked r name t names replace).trans ?_
            cases (if replace then none else r.conflict? name names) <;> rfl

/-! ## Names -/

variable {items : List Json}

theorem lowered_eq_error {x : Json} :
    lowered x = .error e ↔ x.text? = none ∧ e = .misuse .notText := by
  unfold lowered
  cases x.text? with
  | none => simp [eq_comm]
  | some s => simp

/-- The names read from some values are those of the values one by one. -/
theorem mem_mapM_lowered (h : items.mapM lowered = .ok names) :
    name ∈ names ↔ ∃ x ∈ items, lowered x = .ok name := by
  induction items generalizing names with
  | nil =>
    cases h
    simp
  | cons x rest ih =>
    rw [List.mapM_cons] at h
    obtain ⟨n, hx, h⟩ := bind_eq_ok.mp h
    obtain ⟨ns, hrest, h⟩ := bind_eq_ok.mp h
    cases h
    rw [List.mem_cons, ih hrest, List.exists_mem_cons_iff, hx, Except.ok.injEq, eq_comm]

/-- No names are read only if some value is no text. -/
theorem mapM_lowered_eq_error : items.mapM lowered = .error e ↔
    (∃ x ∈ items, x.text? = none) ∧ e = .misuse .notText := by
  induction items with
  | nil => simp [pure, Except.pure]
  | cons x rest ih =>
    rw [List.mapM_cons, List.exists_mem_cons_iff]
    cases hx : lowered x with
    | error e' =>
      obtain ⟨hnone, rfl⟩ := lowered_eq_error.mp hx
      simp [hnone, bind, Except.bind, eq_comm]
    | ok n =>
      have htext : x.text? ≠ none := by
        intro hnone
        rw [lowered_eq_error.mpr ⟨hnone, rfl⟩] at hx
        cases hx
      rw [or_iff_right htext, ← ih]
      exact bind_ok_eq_error

theorem mem_ownAliases {language : String} (h : ownAliases language items = .ok names) :
    name ∈ names ↔ name ≠ language ∧ ∃ x ∈ items, lowered x = .ok name := by
  obtain ⟨all, hall, h⟩ := bind_eq_ok.mp h
  cases h
  rw [List.mem_filter, mem_mapM_lowered hall, bne_iff_ne, and_comm]

theorem ownAliases_eq_error {language : String} : ownAliases language items = .error e ↔
    (∃ x ∈ items, x.text? = none) ∧ e = .misuse .notText :=
  bind_ok_eq_error.trans mapM_lowered_eq_error

/-! ## Refusals -/

/-- Nothing is in the way of an alias for a language: it is no language itself, and leads to no
other one. -/
def FreeFor (r : Registry) (language name : String) : Prop :=
  r.isLanguage name = false ∧ ∀ owner, r.aliases.lookup name = some owner → owner = language

/-- Why an alias is refused. -/
inductive InTheWay (r : Registry) (language name : String) : RegistryError → Prop
  | language : r.isLanguage name = true → InTheWay r language name (.aliasIsLanguage name)
  | taken {owner : String} : r.isLanguage name = false → r.aliases.lookup name = some owner →
    owner ≠ language → InTheWay r language name (.aliasTaken name owner)

/-- A registration that is not over before its aliases are looked at: that of a generator, with a
text as its language, which is new or is to be replaced. -/
structure Proceeds (r : Registry) (language : Json) (candidate : Candidate) (replace : Bool)
    (t : Target) (name : String) : Prop where
  generator : candidate = .generator t
  named : lowered language = .ok name
  new : r.isLanguage name = true → replace = true

/-- What refuses a registration. -/
inductive Refused (r : Registry) (language : Json) (candidate : Candidate) (aliases : Json)
    (replace : Bool) : Failure → Prop
  | notGenerator {shown : String} : candidate = .other shown →
    Refused r language candidate aliases replace (.registry (.notGenerator shown))
  | languageNotText {t : Target} : candidate = .generator t → language.text? = none →
    Refused r language candidate aliases replace (.misuse .notText)
  | aliasesNoList {t : Target} {name : String} {e : Failure} :
    Proceeds r language candidate replace t name → itemsOf aliases = .error e →
    Refused r language candidate aliases replace e
  | aliasNotText {t : Target} {name : String} {items : List Json} {x : Json} :
    Proceeds r language candidate replace t name → itemsOf aliases = .ok items → x ∈ items →
    x.text? = none → Refused r language candidate aliases replace (.misuse .notText)
  /-- An alias is in the way that all aliases before it are free of. -/
  | inTheWay {t : Target} {name wanted : String} {items : List Json} {before after : List String}
    {e : RegistryError} : Proceeds r language candidate replace t name → replace = false →
    itemsOf aliases = .ok items → ownAliases name items = .ok (before ++ wanted :: after) →
    (∀ a ∈ before, r.FreeFor name a) → r.InTheWay name wanted e →
    Refused r language candidate aliases replace (.registry e)

theorem obstacle?_eq_none {language : String} :
    r.obstacle? language name = none ↔ r.FreeFor language name := by
  unfold obstacle? FreeFor
  cases r.isLanguage name with
  | true => simp
  | false => cases r.aliases.lookup name <;> simp

theorem obstacle?_eq_some {language : String} {e : RegistryError} :
    r.obstacle? language name = some e ↔ r.InTheWay language name e := by
  constructor
  · intro h
    unfold obstacle? at h
    split at h
    · next hlanguage =>
      cases h
      exact .language hlanguage
    · next hfree =>
      split at h
      · next owner howner =>
        split at h
        · cases h
        · next hother =>
          cases h
          exact .taken (Bool.eq_false_of_not_eq_true hfree) howner hother
      · cases h
  · intro h
    unfold obstacle?
    cases h with
    | language h => rw [if_pos h]
    | taken hfree howner hother => simp [hfree, howner, hother]

theorem conflict?_eq_some {language : String} {e : RegistryError} :
    r.conflict? language names = some e ↔ ∃ before wanted after, names = before ++ wanted :: after ∧
      (∀ a ∈ before, r.FreeFor language a) ∧ r.InTheWay language wanted e := by
  rw [conflict?_eq, List.findSome?_eq_some_iff]
  constructor
  · rintro ⟨before, wanted, after, rfl, hsome, hnone⟩
    exact ⟨before, wanted, after, rfl, fun a ha => obstacle?_eq_none.mp (hnone a ha),
      obstacle?_eq_some.mp hsome⟩
  · rintro ⟨before, wanted, after, rfl, hfree, hway⟩
    exact ⟨before, wanted, after, rfl, obstacle?_eq_some.mpr hway,
      fun a ha => obstacle?_eq_none.mpr (hfree a ha)⟩

/-- What comes of the aliases of a registration that is not over before. -/
theorem Proceeds.outcome {t : Target} (h : r.Proceeds language candidate replace t name) :
    (r.register language candidate aliases replace).outcome = (do
      let items ← itemsOf aliases
      let names ← ownAliases name items
      match if replace then none else r.conflict? name names with
      | some e => .error (.registry e)
      | none => return r.enter name t names) := by
  obtain ⟨rfl, hname, hnew⟩ := h
  have hopen : ¬(r.isLanguage name = true ∧ (!replace) = true) := by
    rintro ⟨hthere, hkeep⟩
    rw [hnew hthere] at hkeep
    cases hkeep
  rw [outcome_register, hname]
  exact if_neg hopen

theorem Refused.outcome (h : r.Refused language candidate aliases replace e) :
    (r.register language candidate aliases replace).outcome = .error e := by
  cases h with
  | notGenerator hother =>
    rw [hother]
    rfl
  | languageNotText hgenerator hnone =>
    rw [hgenerator, outcome_register, lowered_eq_error.mpr ⟨hnone, rfl⟩, error_bind]
  | aliasesNoList hproceeds hitems => rw [hproceeds.outcome, hitems, error_bind]
  | aliasNotText hproceeds hitems hx hnone =>
    rw [hproceeds.outcome, hitems, ok_bind, ownAliases_eq_error.mpr ⟨⟨_, hx, hnone⟩, rfl⟩,
      error_bind]
  | @inTheWay t name wanted items before after e hproceeds hkeep hitems hnames hfree hway =>
    have hconflict := conflict?_eq_some.mpr ⟨before, wanted, after, rfl, hfree, hway⟩
    rw [hproceeds.outcome, hitems, ok_bind, hnames, ok_bind, hkeep, if_neg Bool.false_ne_true,
      hconflict]

/-- How a registration ends: it is refused, it is over since its language is there, or it enters the
language with its aliases. -/
theorem register_cases (r : Registry) (language : Json) (candidate : Candidate) (aliases : Json)
    (replace : Bool) :
    (∃ e, (r.register language candidate aliases replace).outcome = .error e ∧
      r.Refused language candidate aliases replace e) ∨
    ((r.register language candidate aliases replace).outcome = .ok r ∧ replace = false ∧
      ∃ t name, candidate = .generator t ∧ lowered language = .ok name ∧
        r.isLanguage name = true) ∨
    (∃ t name items names, r.Proceeds language candidate replace t name ∧
      itemsOf aliases = .ok items ∧ ownAliases name items = .ok names ∧
      (r.register language candidate aliases replace).outcome = .ok (r.enter name t names)) := by
  have hrefused : ∀ {e}, r.Refused language candidate aliases replace e →
      ∃ e, (r.register language candidate aliases replace).outcome = .error e ∧
        r.Refused language candidate aliases replace e := fun h => ⟨_, h.outcome, h⟩
  cases candidate with
  | other shown => exact Or.inl (hrefused (.notGenerator rfl))
  | generator t =>
    cases hname : lowered language with
    | error e => exact Or.inl (hrefused (.languageNotText rfl (lowered_eq_error.mp hname).1))
    | ok name =>
      -- a language that is there and stays ends the registration before its aliases are looked at
      by_cases hthere : r.isLanguage name = true ∧ replace = false
      · refine Or.inr (Or.inl ⟨?_, hthere.2, t, name, rfl, rfl, hthere.1⟩)
        rw [outcome_register, hname, ok_bind, if_pos (by simp [hthere])]
        rfl
      have hproceeds : r.Proceeds language (.generator t) replace t name :=
        ⟨rfl, hname, fun h => by simpa [h] using hthere⟩
      cases hitems : itemsOf aliases with
      | error e => exact Or.inl (hrefused (.aliasesNoList hproceeds hitems))
      | ok items =>
        cases hnames : ownAliases name items with
        | error e =>
          obtain ⟨⟨x, hx, hnone⟩, _⟩ := ownAliases_eq_error.mp hnames
          exact Or.inl (hrefused (.aliasNotText hproceeds hitems hx hnone))
        | ok names =>
          cases hconflict : (if replace then none else r.conflict? name names) with
          | some e =>
            have hkeep : replace = false := by
              cases replace with
              | true => cases hconflict
              | false => rfl
            rw [hkeep, if_neg Bool.false_ne_true] at hconflict
            obtain ⟨before, wanted, after, rfl, hfree, hway⟩ := conflict?_eq_some.mp hconflict
            exact Or.inl (hrefused (.inTheWay hproceeds hkeep hitems hnames hfree hway))
          | none =>
            refine Or.inr (Or.inr ⟨t, name, items, names, hproceeds, rfl, hnames, ?_⟩)
            rw [hproceeds.outcome, hitems, ok_bind, hnames, ok_bind, hconflict]
            rfl

/-! ## What has been entered -/

/-- A name that is given as an alias of a language and is not the language's own. -/
def Gives (items : List Json) (language name : String) : Prop :=
  name ≠ language ∧ ∃ x ∈ items, lowered x = .ok name

/-- The table after a language has been entered: it has its generator, each alias that is given
leads to it, and nothing else has changed. -/
structure Entered (r : Registry) (language : String) (t : Target) (items : List Json)
    (r' : Registry) : Prop where
  generator : r'.languages.lookup language = some t
  languages : ∀ other, other ≠ language → r'.languages.lookup other = r.languages.lookup other
  aliases : ∀ name, Gives items language name → r'.aliases.lookup name = some language
  others : ∀ name, ¬Gives items language name → r'.aliases.lookup name = r.aliases.lookup name

theorem entered {language : String} {t : Target} (h : ownAliases language items = .ok names) :
    r.Entered language t items (r.enter language t names) := by
  refine ⟨lookup_assign language t r.languages, fun other hne => lookup_assign_ne t _ hne,
    fun name hgiven => ?_, fun name hother => ?_⟩
  · exact (lookup_assignAll language name names r.aliases).trans
      (if_pos ((mem_ownAliases h).mpr hgiven))
  · exact (lookup_assignAll language name names r.aliases).trans
      (if_neg (mt (mem_ownAliases h).mp hother))

/-- The second alias is in the way, and the first has not been entered. -/
example : (registering (.text "swift") (.generator .kotlin) (.arr [.text "sw", .text "PY"])
    false).run.run builtIn = (.error (.registry (.aliasTaken "py" "python")), builtIn) := rfl

end EventCodegen.Registry
