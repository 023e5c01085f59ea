import EventCodegen.Proofs.SettingsFiles

/-! The layers of settings. The language is the first name that overrides, caller and file give, in
small letters and by its own name; any other setting is what the overrides say, else the file, else
the defaults of that language, else the standard (`load_layers`). Only the language itself depends
on how it is spelled, so spellings of one language lead to the same settings. -/
namespace EventCodegen.Settings

open Json (Fields lookup put merge Distinct ProperFields)

variable {F O fields : Fields}

/-! ## Overrides -/

/-- Overrides have each name once, whatever they are given as. -/
theorem distinct_of_overridesOf {overrides : Json} (h : overridesOf overrides = .ok O) :
    Distinct O := by
  have hnil : Distinct [] := List.nodup_nil
  unfold overridesOf at h
  split at h
  · exact hnil.mergeValue (mapError_eq_ok.mp h)
  · cases h
    exact hnil

theorem properFields_of_overridesOf {overrides : Json} (hproper : overrides.Proper)
    (h : overridesOf overrides = .ok O) : ProperFields O := by
  unfold overridesOf at h
  split at h
  · exact ProperFields.empty.mergeValue hproper (mapError_eq_ok.mp h)
  · cases h
    exact .empty

theorem overridesOf_obj (h : Distinct O) (hne : O ≠ []) : overridesOf (.obj O) = .ok O := by
  have hgiven : (Json.obj O).isGiven = true := by
    simp [Json.isGiven, hne]
  rw [overridesOf, if_pos hgiven, Json.membersOf_obj h]
  rfl

/-- Settings are loaded from the file and the overrides, in this order. -/
theorem outcome_load (registry : Registry) (files : FileTree) (asked overrides file : Json) :
    (load registry files asked overrides file).outcome =
      (readFile files file).outcome >>= fun F => overridesOf overrides >>= fun O =>
        layered registry asked F O := by
  simp only [load, loadWith, layered, Traced.outcome_bind, Traced.outcome_ofExcept,
    Traced.outcome_pure]
  rfl

/-! ## The language -/

/-- An entry that may name a language: it is absent, null or a string. -/
inductive MayName : Option Json → Prop
  | absent : MayName none
  | null : MayName (some .null)
  | string (s : Json.Str) : MayName (some (.str s))

/-- The name that an entry gives: its string, unless that is empty. -/
def named? : Option Json → Option Json.Str
  | some (.str s) => if s = .text "" then none else some s
  | _ => none

/-- The first name among some entries, or that of the default language. -/
def firstNamed (entries : List (Option Json)) : Json.Str :=
  (entries.findSome? named?).getD (.text defaultLanguage)

/-- The names of a language. -/
def spellings (t : Target) : List Json.Str := (t.name :: t.aliases).map .text

/-- The language that a name leads to in any mixture of small and capital letters: under its own
name if it is one that is set up, else under the small form of the name. -/
def languageNamed (s : Json.Str) : Json.Str :=
  match Target.all.find? fun t => s.lower ∈ spellings t with
  | some t => .text t.name
  | none => s.lower

theorem primaryName_builtIn (s : Json.Str) :
    primaryName .builtIn s = match Target.all.find? fun t => s ∈ spellings t with
      | some t => .text t.name
      | none => s := by
  cases s with
  | broken clean surrogate rest => simp [Target.all, spellings, primaryName]
  | text s =>
    by_cases hpython : s = "python"
    · subst hpython
      rfl
    by_cases hpy : s = "py"
    · subst hpy
      rfl
    by_cases hkotlin : s = "kotlin"
    · subst hkotlin
      rfl
    by_cases hkt : s = "kt"
    · subst hkt
      rfl
    have hlookup : ∀ name, s ≠ name → (s == name) = false := fun name h => beq_false_of_ne h
    simp [Target.all, spellings, primaryName, Registry.primary?, Registry.isLanguage,
      Registry.builtIn, Target.name, Target.aliases, List.lookup_cons, hpython, hpy, hkotlin, hkt,
      hlookup]

/-- What the chosen language is looked up as, in small letters. -/
theorem primaryName_lower (s : Json.Str) : primaryName .builtIn s.lower = languageNamed s :=
  primaryName_builtIn s.lower

theorem firstGiven_cons (x : Json) (rest : List Json) :
    firstGiven (x :: rest) = if x.isGiven then x else firstGiven rest := by
  unfold firstGiven
  rw [List.find?_cons]
  cases x.isGiven <;> rfl

theorem firstNamed_cons (e : Option Json) (rest : List (Option Json)) :
    firstNamed (e :: rest) = (named? e).getD (firstNamed rest) := by
  unfold firstNamed
  rw [List.findSome?_cons]
  cases named? e <;> rfl

/-- Only the empty string is not given. -/
theorem isGiven_str (s : Json.Str) : (Json.str s).isGiven = !decide (s = .text "") := by
  cases s with
  | text s =>
    by_cases h : s = ""
    · subst h
      rfl
    · simp [Json.isGiven, h]
  | broken clean surrogate rest => rfl

/-- Of entries that may name a language the first that is given is the first that names one. -/
theorem firstGiven_entries {entries : List (Option Json)} (h : ∀ e ∈ entries, MayName e) :
    firstGiven (entries.map fun e => e.getD .null) = .str (firstNamed entries) := by
  induction entries with
  | nil => rfl
  | cons e rest ih =>
    obtain ⟨he, hrest⟩ := List.forall_mem_cons.mp h
    rw [List.map_cons, firstGiven_cons, firstNamed_cons, ih hrest]
    cases he with
    | absent => rfl
    | null => rfl
    | string s =>
      rw [Option.getD_some, isGiven_str, named?]
      by_cases hs : s = .text "" <;> simp [hs]

/-- The layers choose the first name they give. -/
theorem chosenLanguage_eq {asked : Json} (hoverrides : MayName (lookup "language" O))
    (hasked : MayName (some asked)) (hfile : MayName (lookup "language" F)) :
    chosenLanguage asked F O =
      .ok (firstNamed [lookup "language" O, some asked, lookup "language" F]).lower := by
  have hentries : ∀ e ∈ [lookup "language" O, some asked, lookup "language" F], MayName e := by
    simp only [List.mem_cons, List.not_mem_nil, or_false]
    rintro e (rfl | rfl | rfl) <;> assumption
  have hfirst := firstGiven_entries hentries
  unfold chosenLanguage
  rw [List.map_cons, List.map_cons, List.map_singleton, Option.getD_some] at hfirst
  rw [hfirst]

/-! ## One language after another -/

/-- The members of the layers for a language. -/
def layerMembers (language : Json.Str) (F O : Fields) : Fields :=
  put "language" (.str language) (merge (merge (defaultsOf language) F) O)

theorem layeredFor_eq (language : Json.Str) (F O : Fields) :
    layeredFor language F O = (gatherCustom (layerMembers language F O)).map ofFields := by
  rw [layeredFor]
  show (gatherCustom (layerMembers language F O) >>= fun fields => pure (ofFields fields)) = _
  cases gatherCustom (layerMembers language F O) <;> rfl

theorem distinct_defaultsOf (language : Json.Str) : Distinct (defaultsOf language) := by
  unfold defaultsOf
  split
  · split
    · -- the names of the two defaults
      show List.Nodup [(.text "package_name" : Json.Str), .text "indent_size"]
      decide
    · exact List.nodup_nil
  · exact List.nodup_nil

/-- The defaults of a language are settings, and not custom ones. -/
theorem mem_defaultsOf {language : Json.Str} {m : Json.Str × Json} (h : m ∈ defaultsOf language) :
    isSetting m.1 = true ∧ m.1 ≠ customName ∧ m.2.Proper := by
  have hpackage : (.text "package_name" : Json.Str) ≠ customName := by decide
  unfold defaultsOf at h
  split at h
  · split at h
    · rcases List.mem_pair.mp h with rfl | rfl
      · exact ⟨rfl, hpackage, .str _⟩
      · exact ⟨rfl, by decide, .int _⟩
    · cases h
  · cases h

theorem properFields_defaultsOf (language : Json.Str) : ProperFields (defaultsOf language) :=
  ⟨distinct_defaultsOf language, fun _ hm => (mem_defaultsOf hm).2.2⟩

theorem lookup_custom_defaultsOf (language : Json.Str) :
    lookup customName (defaultsOf language) = none := by
  refine Json.lookup_eq_none_iff.mpr fun hname => ?_
  obtain ⟨x, hx⟩ := Json.mem_memberNames.mp hname
  exact (mem_defaultsOf hx).2.1 rfl

/-- Later layers come first, and the language is the chosen one. -/
theorem lookup_layerMembers (language : Json.Str) (hF : Distinct F) (hO : Distinct O)
    (name : Json.Str) : lookup name (layerMembers language F O) =
      if name = "language" then some (.str language)
      else (lookup name O).or ((lookup name F).or (lookup name (defaultsOf language))) := by
  rw [layerMembers, Json.lookup_put_eq, Json.lookup_merge hO, Json.lookup_merge hF]

/-- The custom object is that of the overrides, else that of the file. -/
theorem lookup_custom_layerMembers (hF : Distinct F) (hO : Distinct O) (language : Json.Str) :
    lookup customName (layerMembers language F O) =
      (lookup customName O).or (lookup customName F) := by
  rw [lookup_layerMembers language hF hO, if_neg (by decide), lookup_custom_defaultsOf,
    Option.or_none]

theorem distinct_layerMembers (language : Json.Str) (F O : Fields) :
    Distinct (layerMembers language F O) :=
  (((distinct_defaultsOf language).merge F).merge O).put _ _

/-- What the layers say about the language itself has no influence on anything else. -/
theorem layerMembers_eq {F' O' : Fields} (language : Json.Str)
    (hF : Json.SameBut "language" F F') (hO : Json.SameBut "language" O O') :
    layerMembers language F O = layerMembers language F' O' :=
  (((Json.SameBut.refl _ _).merge hF).merge hO).put_eq
    (((distinct_defaultsOf language).merge F).merge O) _

/-! ## Custom settings -/

/-- An entry that may hold custom settings: it is absent or an object. -/
inductive MayHold : Option Json → Prop
  | absent : MayHold none
  | object (fields : Fields) : MayHold (some (.obj fields))

theorem MayHold.or {a b : Option Json} (ha : MayHold a) (hb : MayHold b) : MayHold (a.or b) := by
  cases ha with
  | absent => exact hb
  | object fields => exact .object fields

/-- The members that name no setting. -/
def unknown (fields : Fields) : Fields := fields.filter fun m => !isSetting m.1

/-- The members that name settings. -/
def known (fields : Fields) : Fields := fields.filter fun m => isSetting m.1

theorem lookup_known {name : Json.Str} (h : isSetting name = true) (fields : Fields) :
    lookup name (known fields) = lookup name fields := by
  rw [known, Json.lookup_filter (fun n => isSetting n), if_pos h]

/-- If there are custom settings or may be some, members that name no setting go to them, and those
that name one stay as they are. -/
theorem gatherCustom_ok {own : Fields}
    (h : (lookup customName fields).getD (.obj []) = .obj own) :
    ∃ g, gatherCustom fields = .ok g ∧
      (∀ name, isSetting name = true → name ≠ customName → lookup name g = lookup name fields) ∧
      (Distinct own →
        (lookup customName g).getD (.obj []) = .obj (merge own (unknown fields))) := by
  have hcustom : isSetting customName = true := by decide
  rw [← lookup_known hcustom] at h
  unfold gatherCustom
  dsimp only
  rw [← known, ← unknown, h]
  cases hempty : (unknown fields).isEmpty with
  | true =>
    refine ⟨known fields, rfl, fun name hname _ => lookup_known hname fields, fun _ => ?_⟩
    rw [h, List.isEmpty_iff.mp hempty]
    rfl
  | false =>
    refine ⟨_, rfl, fun name hname hne => ?_, fun hown => ?_⟩
    · rw [Json.lookup_put_ne _ _ hne, lookup_known hname]
    · rw [Json.lookup_put, Json.merge_empty hown]
      rfl

theorem MayHold.getD {e : Option Json} (h : MayHold e) : ∃ own, e.getD (.obj []) = .obj own := by
  cases h with
  | absent => exact ⟨[], rfl⟩
  | object fields => exact ⟨fields, rfl⟩

/-! ## Settings of all layers -/

/-- A setting is what some members say, else the standard. -/
theorem lookup_fields_ofFields {name : String} (h : name ∈ names) (g : Fields) :
    lookup name (ofFields g).fields = (lookup name g).or (lookup name ({} : Settings).fields) := by
  have hsome : ∀ (e : Option Json) (default : Json), some (e.getD default) = e.or (some default) := by
    intro e default
    cases e <;> rfl
  simp only [names, List.mem_cons, List.not_mem_nil, or_false] at h
  rcases h with rfl | rfl | rfl | rfl | rfl | rfl | rfl | rfl <;> exact hsome _ _

/-- The layers for a language give settings if there may be custom ones in them. -/
theorem layeredFor_ok (language : Json.Str) (hF : Distinct F) (hO : Distinct O)
    (hcustomO : MayHold (lookup customName O)) (hcustomF : MayHold (lookup customName F)) :
    ∃ c, layeredFor language F O = .ok c ∧ c.language = .str language ∧
      ∀ name ∈ names, name ≠ "language" → name ≠ customName → lookup name c.fields =
        (lookup name O).or ((lookup name F).or ((lookup name (defaultsOf language)).or
          (lookup name ({} : Settings).fields))) := by
  have hlookup := lookup_layerMembers language hF hO
  have hcustom : MayHold (lookup customName (layerMembers language F O)) := by
    rw [lookup_custom_layerMembers hF hO]
    exact hcustomO.or hcustomF
  obtain ⟨own, hown⟩ := hcustom.getD
  obtain ⟨g, hg, hkept, _⟩ := gatherCustom_ok hown
  refine ⟨ofFields g, by rw [layeredFor_eq, hg]; rfl, ?_, ?_⟩
  · show (lookup "language" g).getD _ = _
    rw [hkept _ (by decide) (by decide), hlookup, if_pos rfl, Option.getD_some]
  · intro name hname hlanguage hne
    have hsetting : isSetting name = true := List.contains_iff_mem.mpr hname
    have htext : ∀ other, name ≠ other → (.text name : Json.Str) ≠ .text other :=
      fun other h heq => h (Json.Str.text.inj heq)
    rw [lookup_fields_ofFields hname, hkept _ hsetting (htext _ hne), hlookup,
      if_neg (htext _ hlanguage), Option.or_assoc, Option.or_assoc]

/-! ## Spellings of a language -/

/-- A name of a language in small or capital letters. -/
def Spells (s : Json.Str) (t : Target) : Prop := s.lower ∈ spellings t

theorem spells_name (t : Target) : Spells (.text t.name) t := by
  unfold Spells
  cases t <;> decide

/-- A spelling of a language leads to that language. -/
theorem languageNamed_of_spells {s : Json.Str} {t : Target} (h : Spells s t) :
    languageNamed s = .text t.name := by
  unfold Spells at h
  unfold languageNamed
  generalize s.lower = small at h ⊢
  cases t <;>
    simp only [spellings, Target.name, Target.aliases, List.map_cons, List.map_nil, List.mem_cons,
      List.not_mem_nil, or_false] at h <;>
    rcases h with rfl | rfl <;> rfl

/-- What a chosen value leads to. -/
def leadsTo : Json → Except Failure Json.Str
  | .str s => .ok (languageNamed s)
  | _ => .error (.misuse .notText)

/-- Two values that choose the same language, or leave the choice to others. -/
def SameChoice (x y : Json) : Prop := x.isGiven = y.isGiven ∧ leadsTo x = leadsTo y

theorem SameChoice.refl (x : Json) : SameChoice x x := ⟨rfl, rfl⟩

theorem Spells.sameChoice {s : Json.Str} {t : Target} (h : Spells s t) :
    SameChoice (.str s) (.text t.name) := by
  have hgiven : ∀ s, Spells s t → (Json.str s).isGiven = true := by
    intro s hs
    rw [isGiven_str, Bool.not_eq_true', decide_eq_false_iff_not]
    rintro rfl
    revert hs
    unfold Spells
    cases t <;> decide
  refine ⟨by rw [hgiven s h]; exact (hgiven _ (spells_name t)).symm, ?_⟩
  show Except.ok (languageNamed s) = .ok (languageNamed (.text t.name))
  rw [languageNamed_of_spells h, languageNamed_of_spells (spells_name t)]

theorem leadsTo_firstGiven {xs ys : List Json} (h : List.Forall₂ SameChoice xs ys) :
    leadsTo (firstGiven xs) = leadsTo (firstGiven ys) := by
  induction h with
  | nil => rfl
  | cons hxy _ ih =>
    rw [firstGiven_cons, firstGiven_cons, hxy.1]
    split
    · exact hxy.2
    · exact ih

theorem layered_eq (asked : Json) (F O : Fields) : layered .builtIn asked F O =
    leadsTo (firstGiven [(lookup "language" O).getD .null, asked,
      (lookup "language" F).getD .null]) >>= fun language => layeredFor language F O := by
  unfold layered chosenLanguage
  cases firstGiven _ with
  | str s =>
    show layeredFor (primaryName .builtIn s.lower) F O = layeredFor (languageNamed s) F O
    rw [primaryName_lower]
  | _ => rfl

/-- Layers that differ in the spelling of the language at most lead to the same settings. -/
theorem layered_congr {asked asked' : Json} {F' O' : Fields}
    (hF : Json.SameBut "language" F F') (hO : Json.SameBut "language" O O')
    (hasked : SameChoice asked asked')
    (hfile : SameChoice ((lookup "language" F).getD .null) ((lookup "language" F').getD .null))
    (hoverrides : SameChoice ((lookup "language" O).getD .null)
      ((lookup "language" O').getD .null)) :
    layered .builtIn asked F O = layered .builtIn asked' F' O' := by
  have hchoice := leadsTo_firstGiven (.cons hoverrides (.cons hasked (.cons hfile .nil)))
  rw [layered_eq, layered_eq, hchoice]
  congr 1
  funext language
  rw [layeredFor_eq, layeredFor_eq, layerMembers_eq language hF hO]

/-- With the languages that are always there: the language is the first name that overrides, caller
and file give, as the language it leads to; every other setting but the custom ones is that of the
overrides, else of the file, else the default of the language, else the standard. And a language may
be spelled by any of its names in small or capital letters, in whatever layer. -/
theorem load_layers {files : FileTree} {asked overrides file : Json}
    (hfile : (readFile files file).outcome = .ok F) (hoverrides : overridesOf overrides = .ok O) :
    (MayName (lookup "language" O) → MayName (some asked) → MayName (lookup "language" F) →
      MayHold (lookup customName O) → MayHold (lookup customName F) →
      ∃ c language, (load .builtIn files asked overrides file).outcome = .ok c ∧
        language = languageNamed
          (firstNamed [lookup "language" O, some asked, lookup "language" F]) ∧
        c.language = .str language ∧
        ∀ name ∈ names, name ≠ "language" → name ≠ customName → lookup name c.fields =
          (lookup name O).or ((lookup name F).or ((lookup name (defaultsOf language)).or
            (lookup name ({} : Settings).fields)))) ∧
    ∀ (t : Target) (s : Json.Str), Spells s t →
      (load .builtIn files (.str s) overrides file).outcome =
        (load .builtIn files (.text t.name) overrides file).outcome ∧
      (load .builtIn files asked (.obj (put "language" (.str s) O)) file).outcome =
        (load .builtIn files asked (.obj (put "language" (.text t.name) O)) file).outcome ∧
      ∀ (files₁ files₂ : FileTree) (file₁ file₂ : Json),
        (readFile files₁ file₁).outcome = .ok (put "language" (.str s) F) →
        (readFile files₂ file₂).outcome = .ok (put "language" (.text t.name) F) →
        (load .builtIn files₁ asked overrides file₁).outcome =
          (load .builtIn files₂ asked overrides file₂).outcome := by
  have hF := (properFields_of_readFile hfile).names
  have hO := distinct_of_overridesOf hoverrides
  refine ⟨fun hnameO hasked hnameF hcustomO hcustomF => ?_, fun t s hs => ⟨?_, ?_, ?_⟩⟩
  · obtain ⟨c, hc, hlanguage, hfields⟩ := layeredFor_ok (languageNamed
      (firstNamed [lookup "language" O, some asked, lookup "language" F])) hF hO hcustomO hcustomF
    refine ⟨c, _, ?_, rfl, hlanguage, hfields⟩
    rw [outcome_load, hfile, hoverrides]
    show layered .builtIn asked F O = .ok c
    rw [layered, chosenLanguage_eq hnameO hasked hnameF, ← hc, ← primaryName_lower]
    rfl
  · rw [outcome_load, outcome_load, hfile, hoverrides]
    exact layered_congr (.refl _ F) (.refl _ O) hs.sameChoice (.refl _) (.refl _)
  · have hput : ∀ s : Json.Str, overridesOf (.obj (put "language" (.str s) O)) =
        .ok (put "language" (.str s) O) := by
      intro s
      refine overridesOf_obj (hO.put _ _) fun hnil => ?_
      have hlookup := Json.lookup_put "language" (.str s) O
      rw [hnil] at hlookup
      cases hlookup
    rw [outcome_load, outcome_load, hfile, hput, Json.text, hput]
    refine layered_congr (.refl _ F) ((Json.SameBut.refl _ O).put fun h => absurd rfl h) (.refl _)
      (.refl _) ?_
    rw [Json.lookup_put, Json.lookup_put]
    exact hs.sameChoice
  · intro files₁ files₂ file₁ file₂ hfile₁ hfile₂
    rw [outcome_load, outcome_load, hfile₁, hfile₂, hoverrides]
    refine layered_congr ((Json.SameBut.refl _ F).put fun h => absurd rfl h) (.refl _ O) (.refl _)
      ?_ (.refl _)
    rw [Json.lookup_put, Json.lookup_put]
    exact hs.sameChoice

/-- A settings file of a project in Kotlin, and overrides for it. -/
def kotlinFile (language : String) : Fields :=
  [("language", .text language), ("destination_path", .text "src"), ("team", .text "growth")]

def kotlinOverrides : Fields := [("package_name", .text "from.override")]

theorem readFile_kotlinFile (language : String) :
    (readFile (homeWith (kotlinFile language)) (.text "eventgen.json")).outcome =
      .ok (kotlinFile language) := by
  have hfields : ProperFields (kotlinFile language) :=
    ((ProperFields.empty.put "language" (.str (.text language))).put "destination_path"
      (.str (.text "src"))).put "team" (.str (.text "growth"))
  exact readFile_homeWith hfields rfl

theorem load_layers_kotlin :
    (readFile (homeWith (kotlinFile "KT")) (.text "eventgen.json")).outcome =
      .ok (kotlinFile "KT") ∧
    overridesOf (.obj kotlinOverrides) = .ok kotlinOverrides ∧
    (∃ c, (load .builtIn (homeWith (kotlinFile "KT")) .null (.obj kotlinOverrides)
        (.text "eventgen.json")).outcome = .ok c ∧
      c.language = .text "kotlin" ∧ c.package = .text "from.override" ∧
      c.destination = .text "src" ∧ c.indentSize = .int 4 ∧ c.addComments = .bool true) ∧
    (load .builtIn (homeWith (kotlinFile "KT")) .null (.obj kotlinOverrides)
        (.text "eventgen.json")).outcome =
      (load .builtIn (homeWith (kotlinFile "kotlin")) .null (.obj kotlinOverrides)
        (.text "eventgen.json")).outcome := by
  have hfile := readFile_kotlinFile "KT"
  have hoverrides : overridesOf (.obj kotlinOverrides) = .ok kotlinOverrides := rfl
  obtain ⟨hlayers, hspellings⟩ := @load_layers _ _ _ .null _ _ hfile hoverrides
  refine ⟨hfile, hoverrides, ?_, ?_⟩
  · obtain ⟨c, language, hc, hnamed, hchosen, hfields⟩ :=
      hlayers .absent .null (.string "KT") .absent .absent
    obtain rfl : language = .text "kotlin" := hnamed.trans (by decide)
    refine ⟨c, hc, hchosen, ?_, ?_, ?_, ?_⟩
    · exact Option.some.inj (hfields "package_name" (by decide) (by decide) (by decide))
    · exact Option.some.inj (hfields "destination_path" (by decide) (by decide) (by decide))
    · exact Option.some.inj (hfields "indent_size" (by decide) (by decide) (by decide))
    · exact Option.some.inj (hfields "add_comments" (by decide) (by decide) (by decide))
  · have hkt : Spells (.text "KT") .kotlin := by
      unfold Spells
      decide
    exact (hspellings .kotlin (.text "KT") hkt).2.2 _ _ _ _ (readFile_kotlinFile "KT")
      (readFile_kotlinFile "kotlin")

end EventCodegen.Settings
