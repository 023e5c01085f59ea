import EventCodegen.Proofs.SettingsLayers

/-! Where a custom setting comes from. Overrides and the file may each give it in two ways: as a
member of their own, or inside their custom object. A member of the overrides comes first, then one
of the file, and only then a custom object, which is that of the overrides if they have one
(`lookup_custom`). So what the overrides give is used, unless they give it in their custom object
and the file as a member (`overrides_win_iff`). -/
namespace EventCodegen.Settings

open Json (Fields lookup put merge Distinct ProperFields)

variable {F O : Fields} {registry : Registry} {files : FileTree} {asked overrides file : Json}
  {language : Json.Str}

/-- The custom settings in an entry. -/
def held : Option Json → Fields
  | some (.obj own) => own
  | _ => []

/-- What a layer gives for a custom setting: its own member, else one of its custom object. -/
def provided (layer : Fields) (name : Json.Str) : Option Json :=
  (lookup name layer).or (lookup name (held (lookup customName layer)))

theorem MayHold.held {e : Option Json} (h : MayHold e) : e.getD (.obj []) = .obj (held e) := by
  cases h with
  | absent => rfl
  | object fields => rfl

theorem lookup_defaultsOf {name : Json.Str} (h : isSetting name = false) (language : Json.Str) :
    lookup name (defaultsOf language) = none := by
  refine Json.lookup_eq_none_iff.mpr fun hname => ?_
  obtain ⟨x, hx⟩ := Json.mem_memberNames.mp hname
  rw [(mem_defaultsOf hx).1] at h
  cases h

theorem lookup_unknown {name : Json.Str} (h : isSetting name = false) (fields : Fields) :
    lookup name (unknown fields) = lookup name fields := by
  rw [unknown, Json.lookup_filter (fun n => !isSetting n), h]
  rfl

/-- Distinct names inside an entry. -/
theorem distinct_held {fields : Fields} (h : ProperFields fields) (name : Json.Str) :
    Distinct (held (lookup name fields)) := by
  unfold held
  split
  · next own hown => exact (h.lookup hown).fields.names
  · exact List.nodup_nil

/-- A custom setting is a member of the overrides, else one of the file, else one of the custom
object that comes first. -/
theorem lookup_custom (hF : ProperFields F) (hO : ProperFields O)
    (hcustomO : MayHold (lookup customName O)) (hcustomF : MayHold (lookup customName F)) :
    ∃ c custom, layeredFor language F O = .ok c ∧ c.custom = .obj custom ∧
      ∀ name, isSetting name = false → lookup name custom =
        (lookup name O).or ((lookup name F).or
          (lookup name (held ((lookup customName O).or (lookup customName F))))) := by
  have hlookup := lookup_layerMembers language hF.names hO.names
  have hentry := lookup_custom_layerMembers hF.names hO.names language
  have hown : Distinct (held ((lookup customName O).or (lookup customName F))) := by
    have hheldO := distinct_held hO customName
    cases hentryO : lookup customName O with
    | none => exact distinct_held hF customName
    | some x =>
      rw [hentryO] at hheldO
      exact hheldO
  have hheld := (hcustomO.or hcustomF).held
  rw [← hentry] at hheld hown
  obtain ⟨g, hg, _, hcustom⟩ := gatherCustom_ok hheld
  refine ⟨ofFields g, _, by rw [layeredFor_eq, hg]; rfl, hcustom hown, fun name hname => ?_⟩
  have hunknown : Distinct (unknown (layerMembers language F O)) :=
    (distinct_layerMembers language F O).filter _
  have hlanguage : name ≠ "language" := by
    rintro rfl
    cases hname
  rw [Json.lookup_merge hunknown, lookup_unknown hname, hlookup, if_neg hlanguage,
    lookup_defaultsOf hname, Option.or_none, Option.or_assoc, hentry]

/-- Whatever the layers say of a custom setting that the overrides give, settings are loaded, and it
is what the overrides give unless they give it in their custom object only and the file has another
value for it as a member of its own, which is used then. -/
theorem overrides_win_iff (hproper : overrides.Proper)
    (hfile : (readFile files file).outcome = .ok F) (hoverrides : overridesOf overrides = .ok O)
    (hlanguage : chosenLanguage asked F O = .ok language)
    (hcustomO : MayHold (lookup customName O)) (hcustomF : MayHold (lookup customName F)) :
    ∃ c custom, (load registry files asked overrides file).outcome = .ok c ∧
      c.custom = .obj custom ∧
      ∀ name value, isSetting name = false → provided O name = some value →
        (lookup name custom = some value ↔
          (lookup name O).isSome = true ∨ ∀ other, lookup name F = some other → other = value) ∧
        (lookup name O = none → ∀ other, lookup name F = some other →
          lookup name custom = some other) := by
  have hF := properFields_of_readFile hfile
  have hO := properFields_of_overridesOf hproper hoverrides
  obtain ⟨c, custom, hc, hcustom, hlookup⟩ :=
    @lookup_custom _ _ (primaryName registry language) hF hO hcustomO hcustomF
  refine ⟨c, custom, ?_, hcustom, fun name value hname hprovided => ?_⟩
  · rw [outcome_load, hfile, hoverrides]
    show layered registry asked F O = .ok c
    rw [layered, hlanguage]
    exact hc
  rw [hlookup name hname]
  unfold provided at hprovided
  cases hmember : lookup name O with
  | some x =>
    rw [hmember] at hprovided
    exact ⟨⟨fun _ => Or.inl rfl, fun _ => hprovided⟩, fun h => absurd h (Option.some_ne_none x)⟩
  | none =>
    rw [hmember, Option.none_or] at hprovided
    -- the overrides have a custom object, so that of the file does not count
    have hheld : lookup name (held ((lookup customName O).or (lookup customName F))) = some value := by
      cases hentry : lookup customName O with
      | none =>
        rw [hentry] at hprovided
        cases hprovided
      | some x =>
        rw [hentry] at hprovided
        exact hprovided
    rw [hheld, Option.none_or]
    cases lookup name F with
    | none =>
      have habsent : ∀ other, (none : Option Json) ≠ some other :=
        fun other => (Option.some_ne_none other).symm
      exact ⟨⟨fun _ => Or.inr fun other h => absurd h (habsent other), fun _ => rfl⟩,
        fun _ other h => absurd h (habsent other)⟩
    | some x => simp

/-- Overrides that give a custom setting as a member and another one in their custom object. -/
def teamOverrides : Fields := [("team", .text "core"), ("custom", .obj [("owner", .text "ana")])]

theorem proper_teamOverrides : (Json.obj teamOverrides).Proper :=
  ((ProperFields.empty.put "team" (.str (.text "core"))).put "custom"
    (ProperFields.empty.put "owner" (.str (.text "ana"))).proper).proper

theorem overrides_win_team :
    (Json.obj teamOverrides).Proper ∧
    (readFile (homeWith (kotlinFile "KT")) (.text "eventgen.json")).outcome =
      .ok (kotlinFile "KT") ∧
    overridesOf (.obj teamOverrides) = .ok teamOverrides ∧
    chosenLanguage .null (kotlinFile "KT") teamOverrides = .ok (.text "kt") ∧
    ∃ c custom, (load .builtIn (homeWith (kotlinFile "KT")) .null (.obj teamOverrides)
        (.text "eventgen.json")).outcome = .ok c ∧ c.custom = .obj custom ∧
      lookup "team" custom = some (.text "core") ∧ lookup "owner" custom = some (.text "ana") := by
  have hfile := readFile_kotlinFile "KT"
  have hoverrides : overridesOf (.obj teamOverrides) = .ok teamOverrides := rfl
  have hlanguage : chosenLanguage .null (kotlinFile "KT") teamOverrides = .ok (.text "kt") := rfl
  refine ⟨proper_teamOverrides, hfile, hoverrides, hlanguage, ?_⟩
  obtain ⟨c, custom, hc, hcustom, hwin⟩ := @overrides_win_iff _ _ .builtIn _ _ _ _ _
    proper_teamOverrides hfile hoverrides hlanguage (.object _) .absent
  have hteam := (hwin "team" (.text "core") rfl rfl).1
  have howner := (hwin "owner" (.text "ana") rfl rfl).1
  refine ⟨c, custom, hc, hcustom, hteam.mpr (Or.inl rfl), howner.mpr (Or.inr ?_)⟩
  intro other h
  cases h

/-- A member of a file, and a custom object of overrides with the same name in it. -/
def tierFile : Fields := [("tier", .int 1)]

def tierOverrides : Fields := [("custom", .obj [("tier", .int 2)])]

/-- The file wins over the overrides. -/
theorem file_wins_over_custom_object :
    (readFile (homeWith tierFile) (.text "eventgen.json")).outcome = .ok tierFile ∧
    overridesOf (.obj tierOverrides) = .ok tierOverrides ∧
    isSetting "tier" = false ∧ provided tierOverrides "tier" = some (.int 2) ∧
    ∃ c custom, (load .builtIn (homeWith tierFile) .null (.obj tierOverrides)
        (.text "eventgen.json")).outcome = .ok c ∧ c.custom = .obj custom ∧
      lookup "tier" custom = some (.int 1) := by
  have hfields : ProperFields tierFile := ProperFields.empty.put "tier" (.int 1)
  have hfile := readFile_homeWith hfields rfl
  have hoverrides : overridesOf (.obj tierOverrides) = .ok tierOverrides := rfl
  refine ⟨hfile, hoverrides, rfl, rfl, ?_⟩
  rw [outcome_load, hfile, hoverrides]
  exact ⟨_, _, rfl, rfl, rfl⟩

end EventCodegen.Settings
