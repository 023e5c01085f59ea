import Mathlib.Data.List.Nodup
import EventCodegen.Registry
import EventCodegen.Proofs.Outcomes
import EventCodegen.Proofs.SmallForms

/-! Which names lead where while the table of languages changes. A call either leaves the table
alone, enters a language with its aliases, or takes a language out (`after_cases`); in every table
that calls can lead to, each alias stands once, in small letters, and is not the language that it
leads to (`Reached.sound`). Aliases are checked against languages and against each other, but a new
language is not checked against the aliases. So a registration that replaces nothing keeps every
name where it leads exactly if its language is no alias of another one
(`names_kept_iff_no_alias_taken`); else the language takes the alias over
(`language_takes_alias`). -/
namespace EventCodegen.Registry

/-! ## Calls -/

/-- A call that changes a table. -/
inductive Call
  | register (language : Json) (candidate : Candidate) (aliases : Json) (replace : Bool)
  | unregister (language : Json)

/-- Whether a call may replace what is in the table. -/
def Call.replaces : Call → Bool
  | register _ _ _ replace => replace
  | unregister _ => false

/-- The table after a call. One that fails leaves it as it was. -/
def after (r : Registry) : Call → Registry
  | .register language candidate aliases replace =>
    match (r.register language candidate aliases replace).outcome with
    | .ok r' => r'
    | .error _ => r
  | .unregister language =>
    match r.unregister language with
    | .ok r' => r'
    | .error _ => r

/-- The tables that calls lead to from the empty one, if each of them is allowed where it is made. -/
inductive Reached (allowed : Registry → Call → Prop) : Registry → Prop
  | empty : Reached allowed {}
  | call {r : Registry} {c : Call} : Reached allowed r → allowed r c → Reached allowed (r.after c)

/-- A registration that goes through, of a language whose name was no language so far, but an
alias. -/
def TakesAlias (r : Registry) : Call → Prop
  | .register language candidate aliases replace =>
    (∃ r', (r.register language candidate aliases replace).outcome = .ok r') ∧
    ∃ name, lowered language = .ok name ∧ r.isLanguage name = false ∧
      (r.aliases.lookup name).isSome
  | .unregister _ => False

/-! ## Tables of names -/

theorem keys_assign {α : Type} (name : String) (a : α) : ∀ table : List (String × α),
    (assign name a table).map (·.1) =
      if name ∈ table.map (·.1) then table.map (·.1) else table.map (·.1) ++ [name]
  | [] => rfl
  | (n, b) :: rest => by
    by_cases h : n = name
    · simp [assign, h]
    · have hmem : name ∈ ((n, b) :: rest).map (·.1) ↔ name ∈ rest.map (·.1) := by
        simp [Ne.symm h]
      rw [assign, if_neg h, List.map_cons, keys_assign name a rest, if_congr hmem rfl rfl]
      split <;> rfl

theorem nodup_assign {α : Type} {name : String} {a : α} {table : List (String × α)}
    (h : (table.map (·.1)).Nodup) : ((assign name a table).map (·.1)).Nodup := by
  rw [keys_assign]
  split
  · exact h
  · next hmem => exact List.nodup_append.mpr ⟨h, List.nodup_singleton name, by
      rintro k hk _ hn rfl
      exact hmem (List.mem_singleton.mp hn ▸ hk)⟩

theorem mem_assign {α : Type} {name : String} {a : α} {m : String × α} :
    ∀ {table : List (String × α)}, m ∈ assign name a table → m = (name, a) ∨ m ∈ table
  | [], h => Or.inl (List.mem_singleton.mp h)
  | (n, b) :: rest, h => by
    rw [assign] at h
    split at h
    · exact (List.mem_cons.mp h).imp_right (List.mem_cons_of_mem _)
    · rcases List.mem_cons.mp h with rfl | h
      · exact Or.inr List.mem_cons_self
      · exact (mem_assign h).imp_right (List.mem_cons_of_mem _)

/-- A name that stands once in a table is looked up as what it stands for. -/
theorem lookup_of_mem {α : Type} {name : String} {a : α} : ∀ {table : List (String × α)},
    (table.map (·.1)).Nodup → (name, a) ∈ table → table.lookup name = some a
  | (n, b) :: rest, hnodup, h => by
    rw [List.map_cons, List.nodup_cons] at hnodup
    rcases List.mem_cons.mp h with heq | hrest
    · cases heq
      simp
    · have hne : name ≠ n := by
        rintro rfl
        exact hnodup.1 (List.mem_map.mpr ⟨(name, a), hrest, rfl⟩)
      rw [List.lookup_cons, beq_false_of_ne hne]
      exact lookup_of_mem hnodup.2 hrest

theorem mem_of_lookup {α : Type} {name : String} {a : α} {table : List (String × α)}
    (h : table.lookup name = some a) : (name, a) ∈ table := by
  obtain ⟨before, rest, heq, _⟩ := List.lookup_eq_some_iff.mp h
  rw [heq]
  simp

/-- The aliases after a language has been entered with some names. -/
theorem lookup_assignAll (language other : String) : ∀ (names : List String)
    (table : List (String × String)),
    (names.foldl (fun table name => assign name language table) table).lookup other =
      if other ∈ names then some language else table.lookup other
  | [], table => by simp
  | name :: rest, table => by
    rw [List.foldl_cons, lookup_assignAll language other rest]
    by_cases hrest : other ∈ rest
    · simp [hrest]
    · by_cases hname : other = name
      · simp [hname]
      · simp [hrest, hname, lookup_assign_ne language table hname]

theorem mem_assignAll {language : String} {m : String × String} : ∀ (names : List String)
    {table : List (String × String)},
    m ∈ names.foldl (fun table name => assign name language table) table →
      (m.1 ∈ names ∧ m.2 = language) ∨ m ∈ table
  | [], _, h => Or.inr h
  | name :: rest, table, h => by
    rcases mem_assignAll rest h with ⟨hm, heq⟩ | hm
    · exact Or.inl ⟨List.mem_cons_of_mem name hm, heq⟩
    · rcases mem_assign hm with rfl | hm
      · exact Or.inl ⟨List.mem_cons_self, rfl⟩
      · exact Or.inr hm

theorem nodup_assignAll {language : String} : ∀ (names : List String)
    {table : List (String × String)}, (table.map (·.1)).Nodup →
    ((names.foldl (fun table name => assign name language table) table).map (·.1)).Nodup
  | [], _, h => h
  | _ :: rest, _, h => nodup_assignAll rest (nodup_assign h)

/-! ## What a call does -/

theorem lowered_small {name : Json} {n : String} (h : lowered name = .ok n) :
    Text.lower n = n := by
  unfold lowered at h
  split at h
  · cases h
    exact Text.lower_lower _
  · cases h

theorem mapM_lowered_small : ∀ {items : List Json} {names : List String},
    items.mapM lowered = .ok names → ∀ n ∈ names, Text.lower n = n
  | [], names, h => by
    cases h
    simp
  | x :: rest, names, h => by
    rw [List.mapM_cons] at h
    obtain ⟨n, hx, h⟩ := bind_eq_ok.mp h
    obtain ⟨ns, hrest, h⟩ := bind_eq_ok.mp h
    cases h
    intro m hm
    rcases List.mem_cons.mp hm with rfl | hm
    · exact lowered_small hx
    · exact mapM_lowered_small hrest m hm

/-- The aliases of a registration are in small letters, and none is the language itself. -/
theorem ownAliases_spec {language : String} {items : List Json} {names : List String}
    (h : ownAliases language items = .ok names) : ∀ n ∈ names, n ≠ language ∧ Text.lower n = n := by
  obtain ⟨all, hall, h⟩ := bind_eq_ok.mp h
  cases h
  intro n hn
  rw [List.mem_filter, bne_iff_ne] at hn
  exact ⟨hn.2, mapM_lowered_small hall n hn.1⟩

/-- Without a conflict no alias is a language, and none leads to another language. -/
theorem conflict?_eq_none {r : Registry} {language : String} : ∀ {names : List String},
    r.conflict? language names = none → ∀ n ∈ names, r.isLanguage n = false ∧
      ∀ owner, r.aliases.lookup n = some owner → owner = language
  | [], _, n, hn => by cases hn
  | name :: rest, h, n, hn => by
    rw [conflict?] at h
    split at h
    · cases h
    · next hlanguage =>
      have hfalse : r.isLanguage name = false := by simpa using hlanguage
      split at h
      · next owner howner =>
        split at h
        · next hsame =>
          rcases List.mem_cons.mp hn with rfl | hn
          · refine ⟨hfalse, fun o ho => ?_⟩
            rw [howner] at ho
            exact (Option.some.inj ho).symm.trans hsame
          · exact conflict?_eq_none h n hn
        · cases h
      · next hnone =>
        rcases List.mem_cons.mp hn with rfl | hn
        · refine ⟨hfalse, fun o ho => ?_⟩
          rw [hnone] at ho
          cases ho
        · exact conflict?_eq_none h n hn

/-- What a registration that goes through does: nothing if the language is there and is not to be
replaced, else it enters the language with its aliases. -/
theorem register_ok {r r' : Registry} {language aliases : Json} {candidate : Candidate}
    {replace : Bool} (h : (r.register language candidate aliases replace).outcome = .ok r') :
    ∃ name, lowered language = .ok name ∧
      ((r' = r ∧ r.isLanguage name = true) ∨
      ∃ t names, r' = r.enter name t names ∧
        (replace = false → r.isLanguage name = false ∧ r.conflict? name names = none) ∧
        ∀ n ∈ names, n ≠ name ∧ Text.lower n = n) := by
  unfold register at h
  cases candidate with
  | other shown => cases h
  | generator t =>
    rw [Traced.outcome_bind, Traced.outcome_ofExcept] at h
    obtain ⟨name, hname, h⟩ := bind_eq_ok.mp h
    refine ⟨name, hname, ?_⟩
    split at h
    · next hthere =>
      rw [Traced.outcome_bind] at h
      exact Or.inl ⟨(Except.ok.inj h).symm, hthere.1⟩
    · next hnew =>
      rw [Traced.outcome_bind, Traced.outcome_ofExcept] at h
      obtain ⟨items, _, h⟩ := bind_eq_ok.mp h
      rw [Traced.outcome_bind, Traced.outcome_ofExcept] at h
      obtain ⟨names, hnames, h⟩ := bind_eq_ok.mp h
      split at h
      · cases h
      · next hconflict =>
        rw [Traced.outcome_bind] at h
        refine Or.inr ⟨t, names, (Except.ok.inj h).symm, ?_, ownAliases_spec hnames⟩
        rintro rfl
        exact ⟨by simpa using hnew, by simpa using hconflict⟩

/-- What a call does: it leaves the table alone, or enters a language with its aliases, or takes a
language out. -/
theorem after_cases (r : Registry) (c : Call) : r.after c = r ∨
    (∃ name t names, r.after c = r.enter name t names ∧
      (c.replaces = false → r.isLanguage name = false ∧ r.conflict? name names = none) ∧
      (c.replaces = false → (r.aliases.lookup name).isSome → r.TakesAlias c) ∧
      ∀ n ∈ names, n ≠ name ∧ Text.lower n = n) ∨
    ∃ name, r.after c = { languages := r.languages.filter (·.1 != name)
                          aliases := r.aliases.filter (·.2 != name) } := by
  cases c with
  | register language candidate aliases replace =>
    cases h : (r.register language candidate aliases replace).outcome with
    | error e => exact Or.inl (by rw [after, h])
    | ok r' =>
      have hafter : r.after (.register language candidate aliases replace) = r' := by rw [after, h]
      rw [hafter]
      obtain ⟨name, hname, ⟨hsame, _⟩ | ⟨t, names, henter, hkept, hown⟩⟩ := register_ok h
      · exact Or.inl hsame
      · refine Or.inr (Or.inl ⟨name, t, names, henter, hkept, ?_, hown⟩)
        exact fun hkeeps halias => ⟨⟨r', h⟩, name, hname, (hkept hkeeps).1, halias⟩
  | unregister language =>
    cases hname : lowered language with
    | error e =>
      refine Or.inl ?_
      rw [after, unregister, hname]
      rfl
    | ok name =>
      refine Or.inr (Or.inr ⟨name, ?_⟩)
      rw [after, unregister, hname]
      rfl

/-! ## Tables that calls lead to -/

/-- What holds of every table: each alias stands once, in small letters, and is not the language
that it leads to. -/
structure Sound (r : Registry) : Prop where
  nodup : (r.aliases.map (·.1)).Nodup
  small : ∀ m ∈ r.aliases, Text.lower m.1 = m.1
  proper : ∀ m ∈ r.aliases, m.1 ≠ m.2

theorem Sound.enter {r : Registry} (h : r.Sound) {name : String} {t : Target} {names : List String}
    (hown : ∀ n ∈ names, n ≠ name ∧ Text.lower n = n) : (r.enter name t names).Sound where
  nodup := nodup_assignAll _ h.nodup
  small := by
    intro m hm
    rcases mem_assignAll _ hm with ⟨hnew, _⟩ | hold
    · exact (hown m.1 hnew).2
    · exact h.small m hold
  proper := by
    intro m hm
    rcases mem_assignAll _ hm with ⟨hnew, heq⟩ | hold
    · rw [heq]
      exact (hown m.1 hnew).1
    · exact h.proper m hold

theorem Sound.without {r : Registry} (h : r.Sound) (name : String) :
    Sound { languages := r.languages.filter (·.1 != name)
            aliases := r.aliases.filter (·.2 != name) } where
  nodup := h.nodup.sublist (List.filter_sublist.map _)
  small := fun m hm => h.small m (List.mem_of_mem_filter hm)
  proper := fun m hm => h.proper m (List.mem_of_mem_filter hm)

theorem Sound.step {r : Registry} (h : r.Sound) (c : Call) : (r.after c).Sound := by
  rcases after_cases r c with heq | ⟨name, t, names, heq, _, _, hown⟩ | ⟨name, heq⟩
  · rwa [heq]
  · rw [heq]
    exact h.enter hown
  · rw [heq]
    exact h.without name

theorem Reached.sound {allowed : Registry → Call → Prop} {r : Registry} (h : Reached allowed r) :
    r.Sound := by
  induction h with
  | empty => exact ⟨List.nodup_nil, List.forall_mem_nil _, List.forall_mem_nil _⟩
  | call _ _ ih => exact ih.step _

/-! ## Where names lead -/

theorem isLanguage_enter {r : Registry} {name : String} {t : Target} {names : List String}
    (other : String) : (r.enter name t names).isLanguage other =
      (decide (other = name) || r.isLanguage other) := by
  unfold isLanguage Registry.enter
  by_cases h : other = name
  · simp [h]
  · simp [h, lookup_assign_ne t r.languages h]

theorem primary?_enter {r : Registry} {name : String} {t : Target} {names : List String}
    (other : String) : (r.enter name t names).primary? other =
      if other = name ∨ r.isLanguage other then some other
      else if other ∈ names then some name else r.aliases.lookup other := by
  unfold primary?
  rw [isLanguage_enter]
  simp only [Bool.or_eq_true, decide_eq_true_eq, Registry.enter, lookup_assignAll]

theorem resolve_eq_ok {r : Registry} {name : Json} {target : String} :
    r.resolve name = .ok target ↔ ∃ n, lowered name = .ok n ∧ r.primary? n = some target := by
  unfold resolve
  rw [bind_eq_ok]
  refine exists_congr fun n => and_congr_right fun _ => ?_
  cases r.primary? n with
  | none => simp
  | some p => simp [pure, Except.pure]

theorem mem_aliasesOf {r : Registry} {language name : String} :
    name ∈ r.aliasesOf language ↔ (name, language) ∈ r.aliases := by
  unfold aliasesOf
  rw [List.mem_mergeSort, List.mem_map]
  constructor
  · rintro ⟨m, hm, rfl⟩
    rw [List.mem_filter, beq_iff_eq] at hm
    rw [← hm.2]
    exact hm.1
  · exact fun h => ⟨(name, language), by simpa using h, rfl⟩

/-- An alias leads to its language exactly if it is no language itself. -/
theorem Sound.resolve_alias {r : Registry} (h : r.Sound) {name language : String}
    (hmem : (name, language) ∈ r.aliases) :
    r.resolve (.text name) = .ok language ↔ r.isLanguage name = false := by
  have hlookup := lookup_of_mem h.nodup hmem
  have hlowered : lowered (.text name) = .ok name := congrArg Except.ok (h.small _ hmem)
  rw [resolve_eq_ok]
  constructor
  · rintro ⟨n, hn, hprimary⟩
    cases hlowered.symm.trans hn
    rw [primary?] at hprimary
    split at hprimary
    · exact absurd (Option.some.inj hprimary) (h.proper _ hmem)
    · next hlanguage => simpa using hlanguage
  · intro hlanguage
    exact ⟨name, hlowered, by rw [primary?, hlanguage, hlookup]; rfl⟩

/-! ## Registrations that replace nothing -/

/-- A language that is no alias leaves every name where it leads. -/
theorem primary?_enter_of_free {r : Registry} {name : String} {t : Target} {names : List String}
    (hconflict : r.conflict? name names = none) (hfree : (r.aliases.lookup name).isSome = false)
    (hnew : r.isLanguage name = false) {n target : String} (h : r.primary? n = some target) :
    (r.enter name t names).primary? n = some target := by
  rw [primary?] at h
  rw [primary?_enter]
  by_cases hlanguage : r.isLanguage n = true
  · rw [if_pos hlanguage] at h
    rw [if_pos (Or.inr hlanguage), h]
  · rw [if_neg hlanguage] at h
    have hne : n ≠ name := by
      rintro rfl
      rw [h] at hfree
      cases hfree
    rw [if_neg (not_or.mpr ⟨hne, hlanguage⟩)]
    split
    · next hmem => rw [(conflict?_eq_none hconflict n hmem).2 target h]
    · exact h

/-- A registration keeps every name where it leads unless its language takes an alias over. -/
theorem Sound.resolve_after_iff {r : Registry} (h : r.Sound) (language aliases : Json)
    (candidate : Candidate) :
    (∀ name target, r.resolve name = .ok target →
      (r.after (.register language candidate aliases false)).resolve name = .ok target) ↔
    ¬r.TakesAlias (.register language candidate aliases false) := by
  constructor
  · rintro hkept ⟨⟨r', hr'⟩, name, hname, hnew, halias⟩
    obtain ⟨owner, howner⟩ := Option.isSome_iff_exists.mp halias
    have hbefore : r.resolve language = .ok owner :=
      resolve_eq_ok.mpr ⟨name, hname, by rw [primary?, hnew, howner]; rfl⟩
    obtain ⟨n, hn, hafter⟩ := resolve_eq_ok.mp (hkept language owner hbefore)
    cases hname.symm.trans hn
    obtain ⟨_, hn', ⟨_, hthere⟩ | ⟨t, names, henter, _, _⟩⟩ := register_ok hr'
    · cases hname.symm.trans hn'
      rw [hnew] at hthere
      cases hthere
    · cases hname.symm.trans hn'
      -- the language now leads to itself, and an alias never leads to itself
      rw [after, hr', henter, primary?_enter, if_pos (Or.inl rfl)] at hafter
      exact h.proper _ (mem_of_lookup howner) (Option.some.inj hafter)
  · intro hfree name target hbefore
    rw [after]
    cases hr' : (r.register language candidate aliases false).outcome with
    | error e => exact hbefore
    | ok r' =>
      obtain ⟨l, hl, ⟨rfl, _⟩ | ⟨t, names, rfl, hkept, _⟩⟩ := register_ok hr'
      · exact hbefore
      · obtain ⟨hnew, hconflict⟩ := hkept rfl
        obtain ⟨n, hn, hprimary⟩ := resolve_eq_ok.mp hbefore
        have halias : (r.aliases.lookup l).isSome = false := by
          rw [← Bool.not_eq_true]
          exact fun halias => hfree ⟨⟨_, hr'⟩, l, hl, hnew, halias⟩
        exact resolve_eq_ok.mpr ⟨n, hn, primary?_enter_of_free hconflict halias hnew hprimary⟩

theorem isLanguage_filter {r : Registry} {name other : String} {aliases : List (String × String)}
    (h : r.isLanguage other = false) :
    Registry.isLanguage ⟨r.languages.filter (·.1 != name), aliases⟩ other = false := by
  unfold isLanguage at h ⊢
  rw [Option.isSome_eq_false_iff, Option.isNone_iff_eq_none, List.lookup_eq_none_iff] at h ⊢
  exact fun m hm => h m (List.mem_of_mem_filter hm)

/-- Calls that neither replace anything nor take an alias over. -/
def Keeps (r : Registry) (c : Call) : Prop := c.replaces = false ∧ ¬r.TakesAlias c

/-- In a table that such calls lead to, no alias is a language. -/
theorem Reached.isLanguage_alias {r : Registry} (h : Reached Keeps r) :
    ∀ m ∈ r.aliases, r.isLanguage m.1 = false := by
  induction h with
  | empty => exact List.forall_mem_nil _
  | @call r c hr hc ih =>
    obtain ⟨hkeeps, htakes⟩ := hc
    rcases after_cases r c with heq | ⟨name, t, names, heq, hkept, hfree, hown⟩ | ⟨name, heq⟩
    · rwa [heq]
    · obtain ⟨hnew, hconflict⟩ := hkept hkeeps
      rw [heq]
      intro m hm
      rw [isLanguage_enter, Bool.or_eq_false_iff, decide_eq_false_iff_not]
      rcases mem_assignAll _ hm with ⟨hmem, _⟩ | hold
      · exact ⟨(hown m.1 hmem).1, (conflict?_eq_none hconflict m.1 hmem).1⟩
      · refine ⟨?_, ih m hold⟩
        rintro rfl
        exact htakes (hfree hkeeps (by rw [lookup_of_mem hr.sound.nodup hold]; rfl))
    · rw [heq]
      exact fun m hm => isLanguage_filter (ih m (List.mem_of_mem_filter hm))

/-- As long as no registration replaces anything or takes an alias over, every alias leads to its
language; and the next registration that replaces nothing keeps every name where it leads exactly if
it takes no alias over. -/
theorem names_kept_iff_no_alias_taken {r : Registry} (h : Reached Keeps r) :
    (∀ language names, r.aliasesFor (.text language) = .ok names →
      ∀ name ∈ names, r.resolve (.text name) = .ok (Text.lower language)) ∧
    ∀ language candidate aliases,
      (∀ name target, r.resolve name = .ok target →
        (r.after (.register language candidate aliases false)).resolve name = .ok target) ↔
      ¬r.TakesAlias (.register language candidate aliases false) := by
  refine ⟨?_, fun language candidate aliases => h.sound.resolve_after_iff language aliases candidate⟩
  intro language names hnames name hname
  obtain ⟨l, hl, heq⟩ := bind_eq_ok.mp hnames
  cases hl
  cases heq
  have hmem := mem_aliasesOf.mp hname
  exact (h.sound.resolve_alias hmem).mpr (h.isLanguage_alias _ hmem)

/-- A table with one language and one alias. -/
def oneLanguage : Registry :=
  Registry.after {} (.register (.text "python") (.generator .python) (.arr [.text "py"]) false)

theorem names_kept_one_language : Reached Keeps oneLanguage ∧
    oneLanguage.resolve (.text "PY") = .ok "python" ∧
    ¬oneLanguage.TakesAlias (.register (.text "kotlin") (.generator .kotlin) .null false) ∧
    (oneLanguage.after (.register (.text "kotlin") (.generator .kotlin) .null false)).resolve
      (.text "PY") = .ok "python" := by
  have hreached : Reached Keeps oneLanguage := by
    refine .call .empty ⟨rfl, ?_⟩
    rintro ⟨_, name, _, _, halias⟩
    cases halias
  have htakes : ¬oneLanguage.TakesAlias
      (.register (.text "kotlin") (.generator .kotlin) .null false) := by
    rintro ⟨_, name, hname, _, halias⟩
    cases hname
    exact absurd halias (by decide)
  have hbefore : oneLanguage.resolve (.text "PY") = .ok "python" := by decide
  exact ⟨hreached, hbefore, htakes, ((names_kept_iff_no_alias_taken hreached).2 _ _ _).mpr htakes
    _ _ hbefore⟩

/-- A language that is registered under the name of an alias takes it over, though the alias is still
listed for the language that it led to. -/
theorem language_takes_alias :
    let after := oneLanguage.after (.register (.text "py") (.generator .kotlin) .null false)
    oneLanguage.resolve (.text "py") = .ok "python" ∧ after.resolve (.text "py") = .ok "py" ∧
      ∃ names, after.aliasesFor (.text "python") = .ok names ∧ "py" ∈ names := by
  refine ⟨by decide, by decide, _, rfl, ?_⟩
  rw [mem_aliasesOf]
  decide

end EventCodegen.Registry
