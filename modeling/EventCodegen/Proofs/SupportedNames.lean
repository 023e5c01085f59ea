import EventCodegen.Proofs.LanguageNames
import EventCodegen.Proofs.Tables

/-! No name dangles. Whatever has been entered, replaced and taken out, every alias leads to a
language that is there: an alias is only ever entered together with its language, and a language
takes its aliases along when it goes (`Reached.grounded`). So the names that are supported are those
that lead to a language with a generator, and without a language the other names lead where they led
(`no_name_dangles`). -/
namespace EventCodegen.Registry

/-! ## Aliases and their languages -/

/-- The listed languages are those that are known as such. -/
theorem mem_languageNames {r : Registry} {name : String} :
    name ∈ r.languageNames ↔ r.isLanguage name = true := by
  unfold languageNames isLanguage
  rw [List.mem_mergeSort, Option.isSome_iff_exists]
  constructor
  · intro h
    obtain ⟨m, hm, rfl⟩ := List.mem_map.mp h
    cases hlookup : r.languages.lookup m.1 with
    | none => exact absurd (List.lookup_eq_none_iff.mp hlookup m hm) (by simp)
    | some t => exact ⟨t, rfl⟩
  · intro h
    obtain ⟨t, ht⟩ := h
    exact List.mem_map.mpr ⟨(name, t), mem_of_lookup ht, rfl⟩

/-- Every alias leads to a language that is there. -/
def Grounded (r : Registry) : Prop := ∀ m ∈ r.aliases, r.isLanguage m.2 = true

/-- The table without a language in small letters and the aliases that lead to it. -/
def without (r : Registry) (name : String) : Registry :=
  { languages := r.languages.filter (·.1 != name)
    aliases := r.aliases.filter (·.2 != name) }

theorem unregister_text (r : Registry) (language : String) :
    r.unregister (.text language) = .ok (r.without (Text.lower language)) := rfl

theorem isLanguage_without {r : Registry} {name other : String} (h : other ≠ name) :
    (r.without name).isLanguage other = r.isLanguage other := by
  unfold isLanguage without
  rw [lookup_filter_ne h]

theorem Grounded.enter {r : Registry} (h : r.Grounded) (name : String) (t : Target)
    (names : List String) : (r.enter name t names).Grounded := by
  intro m hm
  rw [isLanguage_enter, Bool.or_eq_true, decide_eq_true_eq]
  rcases mem_assignAll _ hm with ⟨_, heq⟩ | hold
  · exact Or.inl heq
  · exact Or.inr (h m hold)

theorem Grounded.without {r : Registry} (h : r.Grounded) (name : String) :
    (r.without name).Grounded := by
  intro m hm
  obtain ⟨hmem, hkept⟩ := List.mem_filter.mp hm
  rw [isLanguage_without (bne_iff_ne.mp hkept)]
  exact h m hmem

theorem Grounded.step {r : Registry} (h : r.Grounded) (c : Call) : (r.after c).Grounded := by
  rcases after_cases r c with heq | ⟨name, t, names, heq, _, _, _⟩ | ⟨name, heq⟩
  · rwa [heq]
  · rw [heq]
    exact h.enter name t names
  · rw [heq]
    exact h.without name

theorem Reached.grounded {allowed : Registry → Call → Prop} {r : Registry} (h : Reached allowed r) :
    r.Grounded := by
  induction h with
  | empty => exact List.forall_mem_nil _
  | call _ _ ih => exact ih.step _

/-- What a name leads to is a language. -/
theorem Grounded.isLanguage_primary {r : Registry} (h : r.Grounded) {name language : String}
    (hprimary : r.primary? name = some language) : r.isLanguage language = true := by
  unfold primary? at hprimary
  split at hprimary
  · next hlanguage =>
    obtain rfl : name = language := Option.some.inj hprimary
    exact hlanguage
  · exact h _ (mem_of_lookup hprimary)

/-- Languages are in small letters, as all names are. -/
theorem Reached.small_languages {allowed : Registry → Call → Prop} {r : Registry}
    (h : Reached allowed r) : ∀ m ∈ r.languages, Text.lower m.1 = m.1 := by
  induction h with
  | empty => exact List.forall_mem_nil _
  | @call r c _ _ ih =>
    cases c with
    | register language candidate aliases replace =>
      cases hregister : (r.register language candidate aliases replace).outcome with
      | error e => rwa [after, hregister]
      | ok r' =>
        rw [after, hregister]
        obtain ⟨name, hname, ⟨rfl, _⟩ | ⟨t, names, rfl, _⟩⟩ := register_ok hregister
        · exact ih
        · intro m hm
          rcases mem_assign hm with rfl | hold
          · exact lowered_small hname
          · exact ih m hold
    | unregister language =>
      cases hunregister : r.unregister language with
      | error e => rwa [after, hunregister]
      | ok r' =>
        rw [after, hunregister]
        obtain ⟨name, _, h⟩ := bind_eq_ok.mp hunregister
        cases h
        exact fun m hm => ih m (List.mem_of_mem_filter hm)

/-- What a name leads to is in small letters and leads to itself. -/
theorem Reached.primary?_idem {allowed : Registry → Call → Prop} {r : Registry}
    (h : Reached allowed r) {name language : String} (hprimary : r.primary? name = some language) :
    Text.lower language = language ∧ r.primary? language = some language := by
  have hlanguage := h.grounded.isLanguage_primary hprimary
  refine ⟨?_, by rw [primary?, if_pos hlanguage]⟩
  obtain ⟨t, ht⟩ := Option.isSome_iff_exists.mp hlanguage
  exact h.small_languages _ (mem_of_lookup ht)

/-- The table with the languages that are always there is one that calls lead to. -/
theorem reached_builtIn : Reached (fun _ _ => True) .builtIn :=
  have hpython : Reached (fun _ _ => True) (after {} (.register (.text "python")
      (.generator .python) (.arr [.text "py"]) false)) := .call .empty trivial
  show Reached _ (after _ (.register (.text "kotlin") (.generator .kotlin) (.arr [.text "kt"])
      false)) from .call hpython trivial

/-! ## Names of a language that is gone -/

/-- Nothing leads to a language that has been taken out. -/
theorem primary?_without_ne (r : Registry) (name other : String) :
    (r.without name).primary? other ≠ some name := by
  intro h
  unfold primary? at h
  split at h
  · next hlanguage =>
    obtain rfl : other = name := Option.some.inj h
    obtain ⟨t, ht⟩ := Option.isSome_iff_exists.mp hlanguage
    exact absurd (List.mem_filter.mp (mem_of_lookup ht)).2 (by simp)
  · exact absurd (List.mem_filter.mp (mem_of_lookup h)).2 (by simp)

/-- The names of the other languages lead where they led. -/
theorem primary?_without {r : Registry} {name other target : String} (hne : target ≠ name)
    (h : r.primary? other = some target) : (r.without name).primary? other = some target := by
  unfold primary? at h ⊢
  by_cases hlanguage : r.isLanguage other = true
  · rw [if_pos hlanguage] at h
    obtain rfl : other = target := Option.some.inj h
    rw [isLanguage_without hne, if_pos hlanguage]
  · rw [if_neg hlanguage] at h
    -- a name that was no language is none afterwards either, so its alias still counts
    have hgone : (r.without name).isLanguage other = false :=
      isLanguage_filter (Bool.eq_false_of_not_eq_true hlanguage)
    rw [hgone]
    exact lookup_filter_value hne h

/-! ## Supported names -/

/-- In every table that calls lead to, each alias leads to a listed language; the supported names
are those that lead anywhere, and each of them to a listed language with a generator; and a language
that is taken out is what no name leads to any more, while all other names lead where they led. -/
theorem no_name_dangles {allowed : Registry → Call → Prop} {r : Registry} (h : Reached allowed r) :
    (∀ m ∈ r.aliases, m.2 ∈ r.languageNames) ∧
    (∀ name : String, match r.resolve (.text name) with
      | .ok language => r.isSupported (.text name) = .ok true ∧ language ∈ r.languageNames ∧
          ∃ t, r.generatorOf (.text name) = .ok t
      | .error e => r.isSupported (.text name) = .ok false ∧
          r.generatorOf (.text name) = .error e) ∧
    ∀ language : String, ∃ r', r.unregister (.text language) = .ok r' ∧
      (∀ name : String, r'.resolve (.text name) ≠ .ok (Text.lower language)) ∧
      ∀ name target : String, target ≠ Text.lower language →
        r.resolve (.text name) = .ok target → r'.resolve (.text name) = .ok target := by
  have hgrounded := h.grounded
  refine ⟨fun m hm => mem_languageNames.mpr (hgrounded m hm), ?_, ?_⟩
  · intro name
    have hsupported : r.isSupported (.text name) = .ok (r.primary? (Text.lower name)).isSome := rfl
    cases hresolve : r.resolve (.text name) with
    | ok language =>
      obtain ⟨n, hn, hprimary⟩ := resolve_eq_ok.mp hresolve
      cases hn
      have hlanguage := hgrounded.isLanguage_primary hprimary
      obtain ⟨t, ht⟩ := Option.isSome_iff_exists.mp hlanguage
      refine ⟨by rw [hsupported, hprimary]; rfl, mem_languageNames.mpr hlanguage, t, ?_⟩
      rw [generatorOf, hresolve]
      show r.generatorNamed language = .ok t
      rw [generatorNamed, ht]
    | error e =>
      have hnone : r.primary? (Text.lower name) = none := by
        rw [Option.eq_none_iff_forall_ne_some]
        intro language hprimary
        have hok : r.resolve (.text name) = .ok language :=
          resolve_eq_ok.mpr ⟨Text.lower name, rfl, hprimary⟩
        rw [hresolve] at hok
        cases hok
      refine ⟨by rw [hsupported, hnone]; rfl, ?_⟩
      rw [generatorOf, hresolve]
      rfl
  · intro language
    refine ⟨_, r.unregister_text language, ?_, ?_⟩
    · intro name hname
      obtain ⟨n, _, hprimary⟩ := resolve_eq_ok.mp hname
      exact primary?_without_ne r (Text.lower language) n hprimary
    · intro name target hne hname
      obtain ⟨n, hn, hprimary⟩ := resolve_eq_ok.mp hname
      exact resolve_eq_ok.mpr ⟨n, hn, primary?_without hne hprimary⟩

/-- A table after an alias has been taken over, a registration has failed and a language has been
taken out. -/
def takenOver : Registry :=
  (((({} : Registry).after
    (.register (.text "python") (.generator .python) (.arr [.text "py", .text "snake"])
      false)).after
    (.register (.text "Kotlin") (.generator .kotlin) (.arr [.text "PY", .text "kt"]) true)).after
    (.register (.text "jvm") (.generator .kotlin) (.arr [.text "kotlin"]) false)).after
    (.unregister (.text "PYTHON"))

/-- The alias that was taken over still leads somewhere, the other one of the lost language
nowhere. -/
theorem no_name_dangles_taken_over : Reached (fun _ _ => True) takenOver ∧
    takenOver.resolve (.text "Py") = .ok "kotlin" ∧
    takenOver.isSupported (.text "Py") = .ok true ∧
    (∃ t, takenOver.generatorOf (.text "Py") = .ok t) ∧
    takenOver.isSupported (.text "snake") = .ok false ∧
    ∃ r', takenOver.unregister (.text "KOTLIN") = .ok r' ∧
      r'.resolve (.text "Py") ≠ .ok "kotlin" := by
  have hreached : Reached (fun _ _ => True) takenOver :=
    .call (.call (.call (.call .empty trivial) trivial) trivial) trivial
  obtain ⟨_, hnames, hwithout⟩ := no_name_dangles hreached
  have hpy : takenOver.resolve (.text "Py") = .ok "kotlin" := by decide
  have hkept := hnames "Py"
  rw [hpy] at hkept
  have hlost := hnames "snake"
  obtain ⟨r', hr', hgone, _⟩ := hwithout "KOTLIN"
  exact ⟨hreached, hpy, hkept.1, hkept.2.2, hlost.1, r', hr', hgone "Py"⟩

end EventCodegen.Registry
