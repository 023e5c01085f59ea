import EventCodegen.Generation.Options
import EventCodegen.Proofs.SavedSettings

/-! Generators of languages by name. The table at hand resolves the name; but the settings look the
resolved name up again, in the shared table, and take an empty one for none. So the generator is
that of the resolved language, and its settings name the language that the shared table makes of the
resolved one (`outcome_create`). That is the same language unless it is an alias there, or has no
name (`configures_resolved_iff`). -/
namespace EventCodegen

namespace Settings

open Json (Fields lookup Distinct)

variable {O : Fields} {language : Json.Str}

/-! ## Settings of a language -/

/-- Overrides that name no language: none at all, or an object. -/
inductive Overrides : Json → Fields → Prop
  | absent : Overrides .null []
  | object {O : Fields} : Distinct O → lookup "language" O = none → Overrides (.obj O) O

/-- Whether members that name no setting have a place to go: the custom settings are such that they
can hold them. -/
def Gatherable (O : Fields) : Prop :=
  unknown O ≠ [] → ∃ own, ((lookup customName O).getD (.obj [])).membersOf = .ok own

theorem Overrides.distinct {x : Json} (h : Overrides x O) : Distinct O := by
  cases h with
  | absent => exact List.nodup_nil
  | object hnames _ => exact hnames

theorem Overrides.lookup_language {x : Json} (h : Overrides x O) : lookup "language" O = none := by
  cases h with
  | absent => rfl
  | object _ hlanguage => exact hlanguage

theorem Overrides.overridesOf {x : Json} (h : Overrides x O) : overridesOf x = .ok O := by
  cases h with
  | absent => rfl
  | object hnames _ =>
    by_cases hempty : O = []
    · rw [hempty]
      rfl
    · exact overridesOf_obj hnames hempty

/-- Overrides for a language give settings for it exactly if they can be gathered. -/
theorem layeredFor_overrides (hO : Distinct O) (language : Json.Str) :
    match layeredFor language [] O with
    | .ok c => Gatherable O ∧ c.language = .str language
    | .error e => ¬Gatherable O ∧ ∃ m, e = .misuse m := by
  have hnil : Distinct [] := List.nodup_nil
  have hlookup := lookup_layerMembers language hnil hO
  have hcustom : lookup customName (layerMembers language [] O) = lookup customName O := by
    rw [lookup_custom_layerMembers hnil hO]
    exact Option.or_none
  have hunknown : unknown (layerMembers language [] O) = unknown O :=
    (unknown_layerMembers hnil O language).trans (Json.merge_empty (hO.filter _))
  rw [layeredFor_eq]
  cases hgather : gatherCustom (layerMembers language [] O) with
  | ok g =>
    refine ⟨fun hne => ?_, ?_⟩
    · rcases gatherCustom_cases hgather with ⟨hempty, _⟩ | ⟨own, hown, _⟩
      · exact absurd (hunknown.symm.trans hempty) hne
      · exact ⟨own, hcustom ▸ hown⟩
    · show (lookup "language" g).getD _ = _
      rw [lookup_gatherCustom hgather (by decide) (by decide), hlookup, if_pos rfl,
        Option.getD_some]
  | error e =>
    obtain ⟨hne, m, he, hm⟩ := gatherCustom_error hgather
    rw [hunknown] at hne
    rw [hcustom] at hm
    refine ⟨fun h => ?_, m, he⟩
    obtain ⟨own, hown⟩ := h hne
    cases hown.symm.trans hm

end Settings

namespace Registry

open Settings (Overrides Gatherable)

variable {allowed allowed' : Registry → Call → Prop} {r shared : Registry}

/-! ## Resolved languages -/

/-- What the settings make of a language in small letters: without a name it is the default one, and
a name leads where the table says. -/
def configured (shared : Registry) (language : String) : String :=
  let chosen := if language = "" then Settings.defaultLanguage else language
  (shared.primary? chosen).getD chosen

theorem configured_default (shared : Registry) : shared.configured "" =
    (shared.primary? Settings.defaultLanguage).getD Settings.defaultLanguage := rfl

theorem configured_named {language : String} (h : language ≠ "") :
    shared.configured language = (shared.primary? language).getD language := by
  rw [configured, if_neg h]

/-- A language is configured as itself unless it is an alias only; one without a name has to be what
the default language leads to. -/
theorem configured_eq_iff (hshared : shared.Sound) (language : String) :
    shared.configured language = language ↔
      if language = "" then shared.primary? Settings.defaultLanguage = some ""
      else shared.isLanguage language = true ∨ shared.aliases.lookup language = none := by
  split
  · next hunnamed =>
    subst hunnamed
    rw [configured_default]
    cases shared.primary? Settings.defaultLanguage with
    | none => decide
    | some owner => exact (Option.some_inj (a := owner) (b := "")).symm
  · next hnamed =>
    rw [configured_named hnamed, primary?]
    by_cases hlanguage : shared.isLanguage language = true
    · simp [hlanguage]
    · rw [if_neg hlanguage, or_iff_right hlanguage]
      cases halias : shared.aliases.lookup language with
      | none => exact ⟨fun _ => rfl, fun _ => rfl⟩
      | some owner =>
        -- an alias never leads to itself
        have hne : language ≠ owner := hshared.proper _ (mem_of_lookup halias)
        exact ⟨fun h => absurd h.symm hne, fun h => absurd h (Option.some_ne_none owner)⟩

/-- What a supported name leads to, with its generator. -/
theorem Reached.resolve_supported (hr : Reached allowed r) {name : Json}
    (hname : r.isSupported name = .ok true) : ∃ language t, r.resolve name = .ok language ∧
      r.languages.lookup language = some t ∧ Text.lower language = language := by
  obtain ⟨n, hn, h⟩ := bind_eq_ok.mp hname
  obtain ⟨language, hprimary⟩ := Option.isSome_iff_exists.mp (Except.ok.inj h)
  obtain ⟨t, ht⟩ := Option.isSome_iff_exists.mp (hr.grounded.isLanguage_primary hprimary)
  exact ⟨language, t, resolve_eq_ok.mpr ⟨n, hn, hprimary⟩, ht, (hr.primary?_idem hprimary).1⟩

/-! ## Generators -/

/-- The settings of a language with overrides that name none. -/
theorem outcome_settingsFrom {language : String} (hsmall : Text.lower language = language)
    {x : Json} {O : Json.Fields} (hO : Overrides x O) (files : FileTree) :
    (settingsFrom shared files language (.value x)).outcome =
      Settings.layeredFor (.text (shared.configured language)) [] O := by
  have hload : (settingsFrom shared files language (.value x)).outcome =
      (Settings.load shared files (.text language) x .null).outcome := by
    cases hO <;> rfl
  have hchosen : Settings.chosenLanguage (.text language) [] O =
      .ok (.text (if language = "" then Settings.defaultLanguage else language)) := by
    have hoverrides : Settings.MayName (Json.lookup "language" O) := by
      rw [hO.lookup_language]
      exact .absent
    have hfile : Settings.MayName (Json.lookup "language" []) := .absent
    have hdefault : Text.lower Settings.defaultLanguage = Settings.defaultLanguage := by decide
    refine (Settings.chosenLanguage_eq hoverrides (.string (.text language)) hfile).trans ?_
    rw [hO.lookup_language, Settings.firstNamed_cons, Settings.firstNamed_cons]
    by_cases hunnamed : language = ""
    · subst hunnamed
      exact congrArg (fun s => Except.ok (Json.Str.text s)) hdefault
    · have hnamed : Settings.named? (some (.str (.text language))) = some (.text language) :=
        if_neg fun h => hunnamed (Json.Str.text.inj h)
      rw [hnamed, if_neg hunnamed]
      exact congrArg (fun s => Except.ok (Json.Str.text s)) hsmall
  rw [hload, Settings.outcome_load, hO.overridesOf]
  show Settings.layered shared (.text language) [] O = _
  rw [Settings.layered, hchosen]
  rfl

/-- A supported name gives the generator of the language that it leads to, with the settings for
what the shared table makes of that language. -/
theorem outcome_create {name : Json} {language : String} {t : Target}
    (hresolve : r.resolve name = .ok language) (ht : r.languages.lookup language = some t)
    (hsmall : Text.lower language = language) {x : Json} {O : Json.Fields} (hO : Overrides x O)
    (files : FileTree) : (r.create shared files name (.value x)).outcome =
      (Settings.layeredFor (.text (shared.configured language)) [] O).map (Generator.mk t) := by
  have hgenerator : r.generatorNamed language = .ok t := by
    rw [generatorNamed, ht]
  simp only [create, Traced.outcome_bind, Traced.outcome_ofExcept, Traced.outcome_pure, hresolve]
  show (r.generatorNamed language >>= fun t => (settingsFrom shared files language
    (.value x)).outcome >>= fun s => Except.ok (Generator.mk t s)) = _
  rw [hgenerator, outcome_settingsFrom hsmall hO]
  cases Settings.layeredFor (.text (shared.configured language)) [] O <;> rfl

/-- In tables that calls lead to, with overrides that name no language, each supported name gives
the generator of the language that it leads to, unless the overrides have custom settings where none
can be put. Its settings name the language that was resolved exactly if the shared table has that
language or no such alias, or, for a language without a name, if the default language leads to it
there. With the table at hand as the shared one the former holds of all languages. -/
theorem configures_resolved_iff (hr : Reached allowed r) (hshared : Reached allowed' shared)
    {name : Json} (hname : r.isSupported name = .ok true) {x : Json} {O : Json.Fields}
    (hO : Overrides x O) (files : FileTree) :
    ∃ language t, r.resolve name = .ok language ∧ r.languages.lookup language = some t ∧
      (match (r.create shared files name (.value x)).outcome with
        | .ok g => Gatherable O ∧ g.target = t ∧
            g.settings.language = .text (shared.configured language)
        | .error e => ¬Gatherable O ∧ ∃ m, e = .misuse m) ∧
      (shared.configured language = language ↔
        if language = "" then shared.primary? Settings.defaultLanguage = some ""
        else shared.isLanguage language = true ∨ shared.aliases.lookup language = none) ∧
      (shared = r → language ≠ "" → shared.configured language = language) := by
  obtain ⟨language, t, hresolve, ht, hsmall⟩ := hr.resolve_supported hname
  have hiff := configured_eq_iff hshared.sound language
  refine ⟨language, t, hresolve, ht, ?_, hiff, ?_⟩
  · have hsettings := Settings.layeredFor_overrides hO.distinct
      (.text (shared.configured language))
    rw [outcome_create hresolve ht hsmall hO]
    cases hlayered : Settings.layeredFor (.text (shared.configured language)) [] O with
    | ok c =>
      rw [hlayered] at hsettings
      exact ⟨hsettings.1, rfl, hsettings.2⟩
    | error e =>
      rw [hlayered] at hsettings
      exact hsettings
  · rintro rfl hnamed
    rw [hiff, if_neg hnamed]
    left
    rw [isLanguage, ht]
    rfl

/-- A table that leads an alias of another table to a language of its own. -/
def scriptsOnly : Registry :=
  after {} (.register (.text "KTS") (.generator .kotlin) (.arr [.text "Kt"]) false)

/-- Overrides with a custom setting among them. -/
def shopOverrides : Json.Fields := [("package_name", .text "shop.events"), ("team", .text "growth")]

/-- The name is an alias in both tables, and the language is that of the table at hand. -/
theorem configures_resolved_scripts : Reached (fun _ _ => True) scriptsOnly ∧
    Reached (fun _ _ => True) .builtIn ∧ scriptsOnly.isSupported (.text "KT") = .ok true ∧
    Overrides (.obj shopOverrides) shopOverrides ∧
    ∃ g,
      (scriptsOnly.create .builtIn {} (.text "KT") (.value (.obj shopOverrides))).outcome = .ok g ∧
      g.target = .kotlin ∧ g.settings.language = .text "kts" := by
  have hreached : Reached (fun _ _ => True) scriptsOnly := .call .empty trivial
  have hname : scriptsOnly.isSupported (.text "KT") = .ok true := by decide
  have hoverrides : Overrides (.obj shopOverrides) shopOverrides := by
    refine .object ?_ (by decide)
    show List.Nodup [(.text "package_name" : Json.Str), .text "team"]
    decide
  obtain ⟨language, t, hresolve, ht, hcreate, hiff, _⟩ :=
    configures_resolved_iff hreached reached_builtIn hname hoverrides {}
  obtain rfl : "kts" = language := by
    have hkts : scriptsOnly.resolve (.text "KT") = .ok "kts" := by decide
    exact Except.ok.inj (hkts.symm.trans hresolve)
  obtain rfl : Target.kotlin = t := Option.some.inj ht
  rw [hiff.mpr (by decide)] at hcreate
  refine ⟨hreached, reached_builtIn, hname, hoverrides, ?_⟩
  cases houtcome : (scriptsOnly.create .builtIn {} (.text "KT")
      (.value (.obj shopOverrides))).outcome with
  | ok g =>
    rw [houtcome] at hcreate
    exact ⟨g, rfl, hcreate.2.1, hcreate.2.2⟩
  | error e =>
    rw [houtcome] at hcreate
    exact absurd (fun _ => ⟨[], rfl⟩) hcreate.1

/-- A table with a language that is named like an alias of the languages that are always there. -/
def ownPy : Registry := after {} (.register (.text "py") (.generator .kotlin) .null false)

/-- The languages that are always there, and one without a name. -/
def withUnnamed : Registry :=
  builtIn.after (.register (.text "") (.generator .kotlin) .null false)

/-- A language named like an alias of the shared table is configured as the one that this leads to,
and one without a name as the default one. -/
theorem configured_as_another :
    (ownPy.resolve (.text "py") = .ok "py" ∧
      ∃ g, (ownPy.create .builtIn {} (.text "py") (.value .null)).outcome = .ok g ∧
        g.target = .kotlin ∧ g.settings.language = .text "python") ∧
    withUnnamed.resolve (.text "") = .ok "" ∧
      ∃ g, (withUnnamed.create withUnnamed {} (.text "") (.value .null)).outcome = .ok g ∧
        g.target = .kotlin ∧ g.settings.language = .text "python" := by
  refine ⟨⟨?_, _, rfl, rfl, rfl⟩, ?_, _, rfl, rfl, rfl⟩ <;> decide

end Registry
end EventCodegen
