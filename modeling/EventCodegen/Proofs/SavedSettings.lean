import EventCodegen.Proofs.CustomSettings
import EventCodegen.Proofs.SupportedNames

/-! Saving settings and loading them again. The custom settings are saved among the others, and what
is loaded takes the members that name no setting for custom ones. So the two undo each other unless
a custom setting has the name of another setting: it is saved in its place, and loaded as such
(`reload_iff`). -/
namespace EventCodegen.Settings

open Json (Fields lookup put merge Distinct ProperFields)

variable {F O fields g custom : Fields} {c : Settings} {registry : Registry} {files : FileTree}
  {asked overrides file : Json} {language : Json.Str}

/-! ## What is loaded -/

/-- What gathering the custom settings comes to. -/
theorem gatherCustom_cases (h : gatherCustom fields = .ok g) :
    (unknown fields = [] ∧ g = known fields) ∨
    ∃ own, ((lookup customName fields).getD (.obj [])).membersOf = .ok own ∧
      g = put customName (.obj (merge own (unknown fields))) (known fields) := by
  unfold gatherCustom at h
  dsimp only at h
  rw [← known, ← unknown, lookup_known (by decide)] at h
  split at h
  · next hempty =>
    cases h
    exact Or.inl ⟨List.isEmpty_iff.mp hempty, rfl⟩
  · split at h
    · next own hown =>
      cases h
      exact Or.inr ⟨own, hown, rfl⟩
    · cases h

/-- Gathering the custom settings fails where some are to be put into something without members. -/
theorem gatherCustom_error {e : Failure} (h : gatherCustom fields = .error e) :
    unknown fields ≠ [] ∧ ∃ m, e = .misuse m ∧
      ((lookup customName fields).getD (.obj [])).membersOf = .error m := by
  unfold gatherCustom at h
  dsimp only at h
  rw [← known, ← unknown, lookup_known (by decide)] at h
  split at h
  · cases h
  · next hempty =>
    split at h
    · cases h
    · next m hm =>
      cases h
      exact ⟨mt List.isEmpty_iff.mpr hempty, m, rfl, hm⟩

/-- The other settings stay as they are. -/
theorem lookup_gatherCustom (h : gatherCustom fields = .ok g) {name : Json.Str}
    (hname : isSetting name = true) (hne : name ≠ customName) :
    lookup name g = lookup name fields := by
  rcases gatherCustom_cases h with ⟨_, rfl⟩ | ⟨own, _, rfl⟩
  · exact lookup_known hname fields
  · rw [Json.lookup_put_ne _ _ hne, lookup_known hname]

theorem proper_getD (h : ProperFields fields) (name : Json.Str) {standard : Json}
    (hstandard : standard.Proper) : ((lookup name fields).getD standard).Proper := by
  cases hvalue : lookup name fields with
  | none => exact hstandard
  | some value => exact h.lookup hvalue

theorem properFields_gatherCustom (hfields : ProperFields fields) (h : gatherCustom fields = .ok g) :
    ProperFields g := by
  rcases gatherCustom_cases h with ⟨_, rfl⟩ | ⟨own, hown, rfl⟩
  · exact hfields.filter _
  · have hheld := proper_getD hfields customName ProperFields.empty.proper
    have howned := ProperFields.empty.mergeValue hheld hown
    exact (hfields.filter _).put _ (howned.merge (hfields.filter _)).proper

theorem distinct_fields (c : Settings) : Distinct c.fields := by
  have hnames : (names.map Json.Str.text).Nodup := by decide
  exact hnames

theorem distinct_plainFields (c : Settings) : Distinct c.plainFields := by
  have hnames : (names.dropLast.map Json.Str.text).Nodup := by decide
  exact hnames

theorem properFields_ofFields (h : ProperFields g) : ProperFields (ofFields g).fields where
  names := distinct_fields (ofFields g)
  values := by
    simp only [fields, plainFields, ofFields, List.cons_append, List.nil_append, List.forall_mem_cons]
    exact ⟨proper_getD h _ .null, proper_getD h _ (.str _), proper_getD h _ (.str _),
      proper_getD h _ (.str _), proper_getD h _ (.bool _), proper_getD h _ (.bool _),
      proper_getD h _ (.int _), proper_getD h _ ProperFields.empty.proper,
      fun _ hm => (List.not_mem_nil hm).elim⟩

theorem properFields_plainFields (h : ProperFields c.fields) : ProperFields c.plainFields :=
  ⟨distinct_plainFields c, fun m hm => h.values m (List.mem_append_left _ hm)⟩

theorem properFields_custom (h : ProperFields c.fields) (hcustom : c.custom = .obj custom) :
    ProperFields custom := by
  have hmember : ((.text customName, c.custom) : Json.Str × Json) ∈ c.fields :=
    List.mem_append_right _ List.mem_cons_self
  have hproper := h.values _ hmember
  rw [hcustom] at hproper
  exact hproper.fields

theorem layeredFor_eq_ok : layeredFor language F O = .ok c ↔
    ∃ g, gatherCustom (layerMembers language F O) = .ok g ∧ c = ofFields g := by
  rw [layeredFor_eq]
  cases gatherCustom (layerMembers language F O) with
  | error e =>
    constructor
    · intro h
      cases h
    · rintro ⟨_, h, _⟩
      cases h
  | ok g =>
    constructor
    · intro h
      cases h
      exact ⟨g, rfl, rfl⟩
    · rintro ⟨g', hg, rfl⟩
      cases hg
      rfl

/-- The language of loaded settings is what a name in small letters leads to, and the settings are
such as can be read. -/
theorem loaded (hproper : overrides.Proper)
    (h : (load registry files asked overrides file).outcome = .ok c) :
    (∃ s : Json.Str, c.language = .str (primaryName registry s.lower)) ∧ ProperFields c.fields := by
  rw [outcome_load] at h
  obtain ⟨F, hfile, h⟩ := bind_eq_ok.mp h
  obtain ⟨O, hoverrides, h⟩ := bind_eq_ok.mp h
  obtain ⟨language, hlanguage, h⟩ := bind_eq_ok.mp h
  obtain ⟨g, hg, rfl⟩ := layeredFor_eq_ok.mp h
  have hF := properFields_of_readFile hfile
  have hO := properFields_of_overridesOf hproper hoverrides
  refine ⟨?_, properFields_ofFields (properFields_gatherCustom ?_ hg)⟩
  · obtain ⟨s, rfl⟩ : ∃ s : Json.Str, language = s.lower := by
      unfold chosenLanguage at hlanguage
      split at hlanguage
      · cases hlanguage
        exact ⟨_, rfl⟩
      · cases hlanguage
    refine ⟨s, ?_⟩
    show (lookup "language" g).getD _ = _
    rw [lookup_gatherCustom hg (by decide) (by decide), lookup_layerMembers _ hF.names hO.names,
      if_pos rfl, Option.getD_some]
  · exact (((properFields_defaultsOf _).merge hF).merge hO).put _ (.str _)

/-! ## Languages -/

/-- What a name leads to leads to itself. -/
theorem primaryName_idem {allowed : Registry → Registry.Call → Prop}
    (hregistry : registry.Reached allowed) {s : Json.Str} {name : String}
    (h : primaryName registry s.lower = .text name) :
    Text.lower name = name ∧ primaryName registry (.text name) = .text name := by
  cases s with
  | broken clean surrogate rest => cases h
  | text s =>
    cases hprimary : registry.primary? (Text.lower s) with
    | none =>
      have hname : Text.lower s = name := by
        simpa [Json.Str.lower, primaryName, hprimary] using h
      subst hname
      exact ⟨Text.lower_lower s, by rw [primaryName, hprimary]; rfl⟩
    | some primary =>
      have hname : primary = name := by
        simpa [Json.Str.lower, primaryName, hprimary] using h
      subst hname
      obtain ⟨hsmall, hself⟩ := hregistry.primary?_idem hprimary
      exact ⟨hsmall, by rw [primaryName, hself]; rfl⟩

/-! ## Saving -/

theorem savedFields_eq (h : c.custom = .obj custom) :
    savedFields c = .ok (merge c.plainFields custom) := by
  rw [savedFields, h]
  rfl

/-- Where a file can be written, the bytes of the settings are written, and what has no written form
makes saving fail. -/
theorem save_eq {p : String} {t : FileTree} (hwritable : files.write (Path.ofString p) [] = .ok t)
    (hsaved : savedFields c = .ok F) :
    ∃ t', files.write (Path.ofString p) (bytesOf F) = .ok t' ∧
      save files c (.text p) = match (Json.obj F).writeFault? with
        | none => .ok t'
        | some e => .error (.misuse e) := by
  obtain ⟨hfind, hfree, _⟩ := FileTree.write_eq_ok.mp hwritable
  have hwrite : files.write (Path.ofString p) (bytesOf F) =
      .ok (files.put (files.placeOf (Path.ofString p)) (.file (bytesOf F))) :=
    FileTree.write_eq_ok.mpr ⟨hfind, hfree, rfl⟩
  have hpath : pathOf (.text p) = .ok (Path.ofString p) := rfl
  refine ⟨_, hwrite, ?_⟩
  unfold bytesOf at hwrite
  simp only [save, hpath, hsaved, bind, Except.bind, hwrite]
  rfl

/-! ## Loading what was saved -/

theorem outcome_reload (h : (readFile files file).outcome = .ok F) :
    (load registry files .null .null file).outcome = layered registry .null F [] := by
  rw [outcome_load, h]
  rfl

theorem unknown_put_known {name : Json.Str} (h : isSetting name = true) (value : Json)
    (fields : Fields) : unknown (put name value fields) = unknown fields := by
  induction fields with
  | nil => simp [put, unknown, h]
  | cons m rest ih =>
    rw [put]
    split
    · next heq => simp [unknown, h, heq]
    · unfold unknown at ih ⊢
      rw [List.filter_cons, List.filter_cons, ih]

theorem unknown_put {name : Json.Str} (h : isSetting name = false) (value : Json)
    (fields : Fields) : unknown (put name value fields) = put name value (unknown fields) := by
  induction fields with
  | nil => simp [put, unknown, h]
  | cons m rest ih =>
    rw [put]
    split
    · next heq => simp [unknown, h, heq, put]
    · next hne =>
      unfold unknown at ih ⊢
      rw [List.filter_cons, List.filter_cons, ih]
      split
      · rw [put, if_neg hne]
      · rfl

/-- Members that name no setting are merged apart from the others. -/
theorem unknown_merge (base more : Fields) :
    unknown (merge base more) = merge (unknown base) (unknown more) := by
  induction more generalizing base with
  | nil => rfl
  | cons m rest ih =>
    rw [Json.merge_cons, ih]
    cases h : isSetting m.1 with
    | true =>
      have hrest : unknown (m :: rest) = unknown rest := by simp [unknown, h]
      rw [unknown_put_known h, hrest]
    | false =>
      have hrest : unknown (m :: rest) = m :: unknown rest := by simp [unknown, h]
      rw [unknown_put h, hrest, Json.merge_cons]

theorem unknown_defaultsOf (language : Json.Str) : unknown (defaultsOf language) = [] :=
  List.filter_eq_nil_iff.mpr fun m hm => by
    rw [(mem_defaultsOf hm).1]
    exact Bool.false_ne_true

/-- The members that name no setting come from the file and the overrides. -/
theorem unknown_layerMembers (hF : Distinct F) (O : Fields) (language : Json.Str) :
    unknown (layerMembers language F O) = merge (unknown F) (unknown O) := by
  have hunknown : Distinct (unknown F) := hF.filter _
  rw [layerMembers, unknown_put_known (by decide), unknown_merge, unknown_merge,
    unknown_defaultsOf, Json.merge_empty hunknown]

theorem isSetting_of_mem_plainFields {name : Json.Str} (h : name ∈ Json.memberNames c.plainFields) :
    isSetting name = true ∧ name ≠ customName := by
  have hall : ∀ n ∈ names.dropLast.map Json.Str.text, isSetting n = true ∧ n ≠ customName := by
    decide
  exact hall name h

/-- No custom setting has the name of another setting. -/
def Apart (custom : Fields) : Prop := ∀ m ∈ custom, isSetting m.1 = false

theorem Apart.not_mem (h : Apart custom) {name : Json.Str} (hname : isSetting name = true) :
    name ∉ Json.memberNames custom := by
  intro hmem
  obtain ⟨x, hx⟩ := Json.mem_memberNames.mp hmem
  rw [h _ hx] at hname
  cases hname

/-- Custom settings that are apart stand after the others in a file. -/
theorem Apart.merge_eq (h : Apart custom) (hnames : Distinct custom) :
    merge c.plainFields custom = c.plainFields ++ custom := by
  refine Json.merge_of_new hnames fun n hn hplain => ?_
  exact h.not_mem (isSetting_of_mem_plainFields hplain).1 hn

theorem Apart.lookup_eq (h : Apart custom) {name : Json.Str} (hname : isSetting name = true) :
    lookup name (c.plainFields ++ custom) = lookup name c.plainFields := by
  rw [Json.lookup_append, Json.lookup_eq_none_iff.mpr (h.not_mem hname), Option.or_none]

theorem Apart.unknown_eq (h : Apart custom) : unknown (c.plainFields ++ custom) = custom := by
  have hcustom : unknown custom = custom := List.filter_eq_self.mpr fun m hm => by rw [h m hm]; rfl
  have hplain : unknown c.plainFields = [] := rfl
  rw [unknown, List.filter_append, ← unknown, ← unknown, hplain, hcustom, List.nil_append]

/-- Settings whose custom ones are apart are loaded from their members, up to the language. -/
theorem layeredFor_saved (hcustom : c.custom = .obj custom) (hnames : Distinct custom)
    (hapart : Apart custom) (language : Json.Str) :
    layeredFor language (c.plainFields ++ custom) [] = .ok { c with language := .str language } := by
  have hsaved : Distinct (c.plainFields ++ custom) := by
    rw [← hapart.merge_eq hnames]
    exact (distinct_plainFields c).merge custom
  have hlookup := lookup_layerMembers (O := []) language hsaved List.nodup_nil
  have hnone : lookup customName (layerMembers language (c.plainFields ++ custom) []) = none := by
    rw [hlookup, if_neg (by decide), hapart.lookup_eq (by decide), lookup_custom_defaultsOf]
    rfl
  obtain ⟨g, hg, hkept, hgathered⟩ :=
    gatherCustom_ok (show (lookup customName _).getD (.obj []) = .obj [] by rw [hnone]; rfl)
  have hplain : ∀ (name : Json.Str) value, name ≠ "language" →
      lookup name c.plainFields = some value → lookup name g = some value := by
    intro name value hne hvalue
    obtain ⟨hname, hne'⟩ := isSetting_of_mem_plainFields
      (Json.mem_memberNames.mpr ⟨value, Json.mem_of_lookup hvalue⟩)
    rw [hkept name hname hne', hlookup, if_neg hne, hapart.lookup_eq hname, hvalue]
    rfl
  have hlanguage : lookup "language" g = some (.str language) := by
    rw [hkept _ (by decide) (by decide), hlookup, if_pos rfl]
  have hunknown : unknown (layerMembers language (c.plainFields ++ custom) []) = custom := by
    rw [unknown_layerMembers hsaved, hapart.unknown_eq]
    rfl
  have hown := hgathered List.nodup_nil
  rw [hunknown, Json.merge_empty hnames, ← hcustom] at hown
  refine layeredFor_eq_ok.mpr ⟨g, hg, ?_⟩
  simp only [ofFields, hlanguage, hplain "schema_file" c.planFile (by decide) rfl,
    hplain "destination_path" c.destination (by decide) rfl,
    hplain "package_name" c.package (by decide) rfl,
    hplain "strict_screen_name" c.strictScreenName (by decide) rfl,
    hplain "add_comments" c.addComments (by decide) rfl,
    hplain "indent_size" c.indentSize (by decide) rfl, Option.getD_some]
  rw [← hown]

/-- Settings loaded from a file alone have custom ones that are apart, if what the file says of
custom settings is what they say of them. -/
theorem apart_of_gatherCustom (hfields : Distinct fields)
    (hentry : lookup customName fields = lookup customName custom)
    (h : gatherCustom fields = .ok g) (hcustom : (lookup customName g).getD (.obj []) = .obj custom) :
    Apart custom := by
  have hsetting : isSetting customName = true := by decide
  have hdistinct : Distinct (unknown fields) := hfields.filter _
  have hunknown : lookup customName (unknown fields) = none := by
    rw [unknown, Json.lookup_filter (fun n => !isSetting n), hsetting]
    rfl
  -- custom settings with a member for the custom settings would have themselves in it
  have hnone : lookup customName custom = none := by
    cases hmember : lookup customName custom with
    | none => rfl
    | some x =>
      exfalso
      rw [hmember] at hentry
      rcases gatherCustom_cases h with ⟨_, rfl⟩ | ⟨own, hown, rfl⟩
      · rw [lookup_known hsetting, hentry, Option.getD_some] at hcustom
        subst hcustom
        exact Nat.lt_irrefl _ (Json.sizeOf_member_lt (Json.mem_of_lookup hmember))
      · rw [Json.lookup_put, Option.getD_some, Json.obj.injEq] at hcustom
        rw [hentry, Option.getD_some] at hown
        rw [← hcustom, Json.lookup_merge hdistinct, hunknown, Option.none_or] at hmember
        exact Json.ne_of_mem_membersOf hown (Json.mem_of_lookup hmember) rfl
  rw [hnone] at hentry
  obtain ⟨g', hg', _, hgathered⟩ :=
    gatherCustom_ok (show (lookup customName fields).getD (.obj []) = .obj [] by rw [hentry]; rfl)
  cases h.symm.trans hg'
  have hown := hgathered List.nodup_nil
  rw [Json.merge_empty hdistinct, hcustom, Json.obj.injEq] at hown
  rw [hown]
  intro m hm
  simpa using (List.mem_filter.mp hm).2

theorem chosenLanguage_saved {name : String} (h : lookup "language" F = some (.text name)) :
    chosenLanguage .null F [] =
      .ok (.text (Text.lower (if name = "" then defaultLanguage else name))) := by
  have hoverrides : MayName (lookup "language" ([] : Fields)) := .absent
  have hfile : MayName (lookup "language" F) := by
    rw [h]
    exact .string (.text name)
  have hfirst : firstNamed [lookup "language" [], some .null, some (.text name)] =
      .text (if name = "" then defaultLanguage else name) := by
    rw [firstNamed_cons, firstNamed_cons, firstNamed_cons]
    by_cases hname : name = "" <;> simp [named?, lookup, firstNamed, Json.text, hname]
  rw [chosenLanguage_eq hoverrides .null hfile, h, hfirst]
  rfl

/-- What is loaded from saved settings can only be those settings if their custom ones are apart. -/
theorem apart_of_layered (hnames : Distinct custom) (hcustom : c.custom = .obj custom)
    (h : layered registry asked (merge c.plainFields custom) [] = .ok c) : Apart custom := by
  obtain ⟨chosen, _, hlayered⟩ := bind_eq_ok.mp h
  obtain ⟨g, hg, hgiven⟩ := layeredFor_eq_ok.mp hlayered
  have hentry : lookup customName (layerMembers (primaryName registry chosen)
      (merge c.plainFields custom) []) = lookup customName custom := by
    have hnone : lookup customName c.plainFields = none := rfl
    have hempty : Distinct [] := List.nodup_nil
    rw [lookup_layerMembers _ ((distinct_plainFields c).merge custom) hempty, if_neg (by decide),
      lookup_custom_defaultsOf, Json.lookup_merge hnames, hnone, Option.or_none, Option.or_none]
    rfl
  exact apart_of_gatherCustom (distinct_layerMembers _ _ _) hentry hg
    ((congrArg Settings.custom hgiven).symm.trans hcustom)

/-- A language that has been written is a text. -/
theorem language_of_written {found : Json.Str} (hlanguage : c.language = .str found)
    (hwrite : (Json.obj (c.plainFields ++ custom)).writeFault? = none) :
    ∃ name, found = .text name := by
  have hmember : ((.text "language", c.language) : Json.Str × Json) ∈ c.plainFields ++ custom := by
    simp [plainFields]
  have hwritten := (Json.writeFault?_member hwrite _ hmember).2
  rw [hlanguage] at hwritten
  cases found with
  | text name => exact ⟨name, rfl⟩
  | broken clean surrogate rest => cases hwritten

/-- Settings whose custom ones are apart are the same after loading, if their language is: one that
has no name is not chosen again. -/
theorem layered_saved_iff {allowed : Registry → Registry.Call → Prop}
    (hregistry : registry.Reached allowed) {s : Json.Str}
    (hlanguage : c.language = .str (primaryName registry s.lower))
    (hcustom : c.custom = .obj custom) (hnames : Distinct custom) (hapart : Apart custom)
    (hwrite : (Json.obj (c.plainFields ++ custom)).writeFault? = none) :
    layered registry .null (c.plainFields ++ custom) [] = .ok c ↔
      (c.language = .text "" → primaryName registry (.text defaultLanguage) = .text "") := by
  obtain ⟨name, hname⟩ := language_of_written hlanguage hwrite
  obtain ⟨hsmall, hself⟩ := primaryName_idem hregistry hname
  rw [hname] at hlanguage
  have hlookup : lookup "language" (c.plainFields ++ custom) = some (.text name) := by
    rw [hapart.lookup_eq (by decide), Json.text, ← hlanguage]
    rfl
  have hsame : ∀ found : Json.Str, layeredFor found (c.plainFields ++ custom) [] = .ok c ↔
      found = .text name := by
    intro found
    rw [layeredFor_saved hcustom hnames hapart, Except.ok.injEq]
    constructor
    · intro h
      exact Json.str.inj ((congrArg Settings.language h).trans hlanguage)
    · rintro rfl
      rw [← hlanguage]
  have hempty : c.language = .text "" ↔ name = "" := by
    rw [hlanguage]
    simp [Json.text]
  rw [layered, chosenLanguage_saved hlookup, hempty]
  show layeredFor (primaryName registry _) (c.plainFields ++ custom) [] = .ok c ↔ _
  rw [hsame]
  by_cases hunnamed : name = ""
  · have hdefault : Text.lower defaultLanguage = defaultLanguage := by decide
    subst hunnamed
    rw [if_pos rfl, hdefault]
    exact ⟨fun h _ => h, fun h => h rfl⟩
  · rw [if_neg hunnamed, hsmall]
    exact ⟨fun _ h => absurd h hunnamed, fun _ => hself⟩

/-- Saving settings and loading them from the file again. What has no written form, a string that is
no text or a number of too many digits, makes saving fail. Else the settings are saved, and loading
gives them back exactly if no custom setting has the name of another setting and the language, if it
has no name at all, is the one that is used when none is chosen. -/
theorem reload_iff {allowed : Registry → Registry.Call → Prop}
    (hregistry : registry.Reached allowed) {files' t : FileTree} {p : String}
    (hproper : overrides.Proper)
    (hc : (load registry files asked overrides file).outcome = .ok c)
    (hcustom : c.custom = .obj custom) (hjson : isJsonPath (Path.ofString p) = true)
    (hwritable : files'.write (Path.ofString p) [] = .ok t) :
    ∃ saved, savedFields c = .ok saved ∧
      (∀ e, (Json.obj saved).writeFault? = some e → save files' c (.text p) = .error (.misuse e)) ∧
      ((Json.obj saved).writeFault? = none → ∃ t', save files' c (.text p) = .ok t' ∧
        ((load registry t' .null .null (.text p)).outcome = .ok c ↔
          (∀ m ∈ custom, isSetting m.1 = false) ∧
          (c.language = .text "" → primaryName registry (.text defaultLanguage) = .text ""))) := by
  obtain ⟨⟨s, hlanguage⟩, hfields⟩ := loaded hproper hc
  have hown := properFields_custom hfields hcustom
  have hsaved := (properFields_plainFields hfields).merge hown
  obtain ⟨t', hwrite, hsave⟩ := save_eq hwritable (savedFields_eq hcustom)
  refine ⟨_, savedFields_eq hcustom, fun e he => by rw [hsave, he], fun hfault => ?_⟩
  refine ⟨t', by rw [hsave, hfault], ?_⟩
  have hread := readFile_of_stat hjson (FileTree.stat_of_write hwrite) hsaved hfault
  rw [outcome_reload hread]
  -- with custom settings apart, all that is left is the language
  have hiff : Apart custom → (layered registry .null (merge c.plainFields custom) [] = .ok c ↔
      (c.language = .text "" → primaryName registry (.text defaultLanguage) = .text "")) := by
    intro hapart
    rw [hapart.merge_eq hown.names] at hfault ⊢
    exact layered_saved_iff hregistry hlanguage hcustom hown.names hapart hfault
  constructor
  · intro h
    have hapart := apart_of_layered hown.names hcustom h
    exact ⟨hapart, (hiff hapart).mp h⟩
  · rintro ⟨hapart, hnamed⟩
    exact (hiff hapart).mpr hnamed

/-- The standard settings with some custom ones. -/
def withCustom (custom : Fields) : Settings := { custom := .obj custom }

/-- Overrides that give custom settings and nothing else. -/
def customOverrides (custom : Fields) : Json := .obj [("custom", .obj custom)]

theorem reload_iff_team :
    Registry.Reached (fun _ _ => True) .builtIn ∧
    (customOverrides [("team", .text "growth")]).Proper ∧
    (load .builtIn {} .null (customOverrides [("team", .text "growth")]) .null).outcome =
      .ok (withCustom [("team", .text "growth")]) ∧
    isJsonPath (Path.ofString "saved.json") = true ∧
    (∃ t, FileTree.write {} (Path.ofString "saved.json") [] = .ok t) ∧
    ∃ t', save {} (withCustom [("team", .text "growth")]) (.text "saved.json") = .ok t' ∧
      (load .builtIn t' .null .null (.text "saved.json")).outcome =
        .ok (withCustom [("team", .text "growth")]) := by
  have hregistry := Registry.reached_builtIn
  have hproper : (customOverrides [("team", .text "growth")]).Proper :=
    (ProperFields.empty.put "custom"
      (ProperFields.empty.put "team" (.str (.text "growth"))).proper).proper
  have hc : (load .builtIn {} .null (customOverrides [("team", .text "growth")]) .null).outcome =
      .ok (withCustom [("team", .text "growth")]) := rfl
  have hjson : isJsonPath (Path.ofString "saved.json") = true := by decide
  obtain ⟨t, ht⟩ : ∃ t, FileTree.write {} (Path.ofString "saved.json") [] = .ok t := ⟨_, rfl⟩
  obtain ⟨saved, hsaved, _, hwritten⟩ := reload_iff hregistry hproper hc rfl hjson ht
  cases hsaved
  obtain ⟨t', hsave, hreload⟩ := hwritten rfl
  refine ⟨hregistry, hproper, hc, hjson, ⟨t, ht⟩, t', hsave, hreload.mpr ⟨?_, ?_⟩⟩
  · exact List.forall_mem_singleton.mpr rfl
  · simp [withCustom, Json.text]

/-- A custom setting with the name of the language is loaded as the language. -/
theorem custom_language_taken :
    (load .builtIn {} .null (customOverrides [("language", .text "kotlin")]) .null).outcome =
      .ok (withCustom [("language", .text "kotlin")]) ∧
    ∃ t', save {} (withCustom [("language", .text "kotlin")]) (.text "saved.json") = .ok t' ∧
      (load .builtIn t' .null .null (.text "saved.json")).outcome =
        .ok { language := .text "kotlin" } ∧
      (load .builtIn t' .null .null (.text "saved.json")).outcome ≠
        .ok (withCustom [("language", .text "kotlin")]) := by
  have hc : (load .builtIn {} .null (customOverrides [("language", .text "kotlin")]) .null).outcome =
      .ok (withCustom [("language", .text "kotlin")]) := rfl
  have hcustom : ProperFields [("language", .text "kotlin")] :=
    ProperFields.empty.put "language" (.str (.text "kotlin"))
  have hfields : ProperFields (withCustom [("language", .text "kotlin")]).fields :=
    properFields_ofFields (ProperFields.empty.put "custom" hcustom.proper)
  have hsaved := (properFields_plainFields hfields).merge hcustom
  have hjson : isJsonPath (Path.ofString "saved.json") = true := by decide
  obtain ⟨t, ht⟩ : ∃ t, FileTree.write {} (Path.ofString "saved.json") [] = .ok t := ⟨_, rfl⟩
  obtain ⟨t', hwrite, hsave⟩ := save_eq ht
    (show savedFields (withCustom [("language", .text "kotlin")]) = _ from savedFields_eq rfl)
  have hread := readFile_of_stat hjson (FileTree.stat_of_write hwrite) hsaved rfl
  have hload : (load .builtIn t' .null .null (.text "saved.json")).outcome =
      .ok { language := .text "kotlin" } := (outcome_reload hread).trans rfl
  refine ⟨hc, t', hsave, hload, ?_⟩
  rw [hload]
  intro h
  have hlanguage := congrArg Settings.language (Except.ok.inj h)
  simp [withCustom, Json.text] at hlanguage

end EventCodegen.Settings
