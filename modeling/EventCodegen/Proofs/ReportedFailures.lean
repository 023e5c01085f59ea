import EventCodegen.Proofs.RefusedPlans
import EventCodegen.Proofs.ReportedSteps
import EventCodegen.Proofs.SavedSettings
import EventCodegen.Proofs.ShownPaths
import EventCodegen.Proofs.UnchangedFiles
import EventCodegen.Proofs.WrittenFiles

/-! Parts of the program whose failures are all reported. A file is written unless a fault of the
system is in its way; settings are found and a plan is fetched, or it is told why not, where the
texts meet no number with too many digits (`FileTree.Readable`) and the members of a settings file
are of the right kind (`Settings.Loadable`). -/
namespace EventCodegen

/-! ## Writing files -/

namespace Output

/-- A file is written, or a fault of the system is in its way. -/
theorem reports_write {output : Output} {f : GeneratedFile}
    (h : ∀ d, output = .directory d → (d.join f.path).NulFree ∧ (d.join f.path).parts ≠ [])
    (w : World) : (output.write f).Reports (fun _ _ => True) w := by
  cases output with
  | memory => exact .bind (P := fun _ _ => True) (.step rfl trivial) fun _ _ _ => .pure trivial
  | directory d =>
    obtain ⟨hp, hparts⟩ := h d rfl
    have hextended := FileTree.extended_eq hparts
    have htemporary := hp.extended (by decide) hextended
    unfold write writeBelow
    dsimp only
    rw [hextended]
    have hmake := @FileTree.systemFaults_makeDirectories w.files _ hp.parent
    refine .bind (P := fun _ _ => True) (.onFiles hmake fun _ => trivial) fun _ w _ => ?_
    have hreplace := @FileTree.systemFaults_replace w.files _ _ hp htemporary
      (Text.encode f.content.toList)
    refine .bind (P := fun _ _ => True) (.onFiles hreplace fun _ => trivial) fun _ w _ => ?_
    exact .bind_note (.pure trivial)

end Output

/-! ## Reading texts -/

/-- The text of the file at a path, as it is read. -/
def FileTree.HasText (t : FileTree) (p : Path) (s : List Char) : Prop :=
  ∃ bytes raw, t.read p = .ok bytes ∧ Text.decode bytes = .ok raw ∧ s = Text.unifyNewlines raw

/-- The file at a path meets no number with too many digits. -/
def FileTree.Readable (t : FileTree) (p : Path) : Prop :=
  ∀ s, t.HasText p s → ¬Json.MeetsOversized s

namespace Settings

open Json (Fields lookup)

theorem reported_ofText {path : Path} {s : List Char}
    (h : ¬Json.MeetsOversized (Text.unifyNewlines s)) :
    Reported (fun _ => True) (ofText path s) := by
  have hparse : Json.parse (String.ofList (Text.unifyNewlines s)) ≠ .error .hugeInteger := by
    rw [ne_eq, Json.parse_eq_hugeInteger_iff, String.toList_ofList]
    exact h
  unfold ofText
  generalize Json.parse (String.ofList (Text.unifyNewlines s)) = found at hparse
  rcases found with (_ | _) | x
  · exact .error rfl
  · exact absurd rfl hparse
  · cases x with
    | obj fields => exact .ok trivial
    | _ => exact .error rfl

theorem reported_read {files : FileTree} {path : Path} (h : files.Readable path) :
    Reported (fun _ => True) (read files path) := by
  unfold read
  rcases hpresent : files.present path with e | (_ | _)
  · exact .error (FileTree.systemFaults_present files path e hpresent)
  · exact .error rfl
  dsimp only
  cases isJsonPath path with
  | false => exact .error rfl
  | true =>
    simp only [Bool.not_true, Bool.false_eq_true, if_false]
    rcases hread : files.read path with e | bytes
    · exact .error rfl
    dsimp only
    rcases hdecode : Text.decode bytes with fault | s
    · exact .error rfl
    exact reported_ofText (h _ ⟨bytes, s, hread, hdecode, rfl⟩)

/-- A settings file is read, or it is told why not. -/
theorem reported_readFile {files : FileTree} {file : Option String}
    (h : ∀ p, file = some p → files.Readable (Path.ofString p)) :
    Reported (fun _ => True) (readFile files (CommandLine.jsonOf file)).outcome := by
  unfold readFile
  split
  · exact .ok trivial
  · next hgiven =>
    cases file with
    | none => exact absurd rfl hgiven
    | some p =>
      have hpath : pathOf (CommandLine.jsonOf (some p)) = .ok (Path.ofString p) := rfl
      simp only [Traced.outcome_bind, Traced.outcome_ofExcept]
      refine .bind (.of_ok hpath (h p rfl)) fun path hreadable => ?_
      exact .bind (reported_read hreadable) fun _ _ => .ok trivial

/-! ## Settings -/

variable {F O : Fields}

/-- Members of a settings file that settings can be made of. Where the arguments ask for no language
the file has to give a text as its language, if it gives one; and if there are members that name no
setting, something that has members has to stand where custom settings do. -/
structure Loadable (asked : Option String) (F : Fields) : Prop where
  language : asked = none → ∀ x, lookup "language" F = some x → x.isGiven = true → ∃ s, x = .text s
  custom : unknown F ≠ [] → ∃ own, ((lookup customName F).getD (.obj [])).membersOf = .ok own

theorem gatherCustom_of_membersOf {fields : Fields} (h : unknown fields ≠ [] →
    ∃ own, ((lookup customName fields).getD (.obj [])).membersOf = .ok own) :
    ∃ g, gatherCustom fields = .ok g := by
  cases hgather : gatherCustom fields with
  | ok g => exact ⟨g, rfl⟩
  | error e =>
    obtain ⟨hunknown, m, _, hm⟩ := gatherCustom_error hgather
    obtain ⟨own, hown⟩ := h hunknown
    cases hown.symm.trans hm

/-- Overrides that name nothing but settings, and neither the language nor the custom ones. -/
structure Plain (O : Fields) : Prop where
  distinct : Json.Distinct O
  unknown : unknown O = []
  language : lookup "language" O = none
  custom : lookup customName O = none

theorem layered_of_loadable {asked : Option String} (hF : Json.Distinct F) (hO : Plain O)
    (h : Loadable asked F) (language : Json.Str) :
    ∃ c, layeredFor language F O = .ok c ∧ c.language = .str language := by
  have hlookup := lookup_layerMembers language hF hO.distinct
  have hunknown : unknown (layerMembers language F O) = unknown F := by
    rw [unknown_layerMembers hF, hO.unknown]
    rfl
  have hcustom : lookup customName (layerMembers language F O) = lookup customName F := by
    rw [lookup_custom_layerMembers hF hO.distinct, hO.custom, Option.none_or]
  obtain ⟨g, hg⟩ := @gatherCustom_of_membersOf (layerMembers language F O)
    (by rw [hunknown, hcustom]; exact h.custom)
  refine ⟨ofFields g, layeredFor_eq_ok.mpr ⟨g, hg, rfl⟩, ?_⟩
  show (lookup "language" g).getD _ = _
  rw [lookup_gatherCustom hg (by decide) (by decide), hlookup, if_pos rfl, Option.getD_some]

theorem firstGiven_text {xs : List Json} (h : ∀ x ∈ xs, x.isGiven = true → ∃ s, x = .text s) :
    ∃ s, firstGiven xs = .text s := by
  induction xs with
  | nil => exact ⟨_, rfl⟩
  | cons x rest ih =>
    rw [List.forall_mem_cons] at h
    rw [firstGiven_cons]
    split
    · next hgiven => exact h.1 hgiven
    · exact ih h.2

/-- The language asked for, as the settings get it: none, or the one that its name leads to. -/
inductive Asked : Option String → Json → Prop
  | none : Asked none .null
  | some {name language : String} : language ≠ "" → Asked (some name) (.text language)

theorem chosenLanguage_of_loadable {asked : Option String} {x : Json} (hasked : Asked asked x)
    (hO : Plain O) (h : Loadable asked F) : ∃ s, chosenLanguage x F O = .ok (.text s) := by
  have hfirst : ∃ s, firstGiven [(lookup "language" O).getD .null, x,
      (lookup "language" F).getD .null] = .text s := by
    rw [hO.language, Option.getD_none, firstGiven_cons, if_neg (by decide)]
    cases hasked with
    | none =>
      rw [firstGiven_cons, if_neg (by decide)]
      refine firstGiven_text ?_
      rw [List.forall_mem_singleton]
      cases hvalue : lookup "language" F with
      | none => nofun
      | some x => exact h.language rfl x hvalue
    | some hne =>
      rw [firstGiven_cons, if_pos]
      · exact ⟨_, rfl⟩
      · simp [Json.text, Json.isGiven, hne]
  obtain ⟨s, hs⟩ := hfirst
  unfold chosenLanguage
  rw [hs]
  exact ⟨_, rfl⟩

/-- Settings are loaded, with a text as their language, or it is told why not. -/
theorem reported_load {files : FileTree} {file asked : Option String} {x overrides : Json}
    (hfile : ∀ p, file = some p → files.Readable (Path.ofString p))
    (hloadable : ∀ F, (readFile files (CommandLine.jsonOf file)).outcome = .ok F →
      Loadable asked F)
    (hasked : Asked asked x) (hoverrides : overridesOf overrides = .ok O) (hO : Plain O) :
    Reported (fun c => ∃ s, c.language = .text s)
      (load .builtIn files x overrides (CommandLine.jsonOf file)).outcome := by
  rw [outcome_load]
  refine (reported_readFile hfile).with_result.bind fun F hF => ?_
  have hproper := properFields_of_readFile hF.1
  have h := hloadable F hF.1
  obtain ⟨s, hs⟩ := chosenLanguage_of_loadable hasked hO h
  obtain ⟨c, hc, hlanguage⟩ := layered_of_loadable hproper.names hO h (primaryName .builtIn s)
  rw [hoverrides]
  show Reported _ (layered .builtIn x F O)
  rw [layered, hs]
  show Reported _ (layeredFor (primaryName .builtIn s) F O)
  rw [hc]
  exact .ok ⟨_, hlanguage⟩

end Settings

namespace CommandLine

open Json (Fields lookup)

/-! ## From arguments to settings -/

/-- The settings that arguments can override. -/
def overridable : List Json.Str :=
  ["destination_path", "package_name", "strict_screen_name", "add_comments"]

theorem sublist_overridable (a : Arguments) :
    (Json.memberNames a.overrides).Sublist overridable := by
  have htext : ∀ (name : String) (value : Option String), (Json.memberNames
      ((given? value).map fun v => ((.text name : Json.Str), Json.text v)).toList).Sublist
        [.text name] := by
    intro name value
    cases given? value with
    | none => exact List.nil_sublist _
    | some v => exact List.Sublist.refl _
  have hbool : ∀ (name : String) (isSet value : Bool), (Json.memberNames
      (if isSet then [((.text name : Json.Str), Json.bool value)] else [])).Sublist
        [.text name] := by
    intro name isSet value
    cases isSet with
    | false => exact List.nil_sublist _
    | true => exact List.Sublist.refl _
  unfold Arguments.overrides Json.memberNames
  simp only [List.map_append]
  exact (((htext _ _).append (htext _ _)).append (hbool _ _ _)).append (hbool _ _ _)

theorem plain_overrides (a : Arguments) : Settings.Plain a.overrides := by
  have hsublist := sublist_overridable a
  have hnone : ∀ name ∉ overridable, lookup name a.overrides = none := fun name hname =>
    Json.lookup_eq_none_iff.mpr fun hmem => hname (hsublist.subset hmem)
  refine ⟨hsublist.nodup (by decide), ?_, hnone _ (by decide), hnone _ (by decide)⟩
  have hsettings : ∀ name ∈ overridable, Settings.isSetting name = true := by decide
  refine List.filter_eq_nil_iff.mpr fun m hm => ?_
  have hname := hsublist.subset (Json.mem_memberNames.mpr ⟨m.2, hm⟩)
  rw [hsettings m.1 hname]
  exact Bool.false_ne_true

theorem overridesOf_overrides (a : Arguments) :
    Settings.overridesOf (.obj a.overrides) = .ok a.overrides := by
  by_cases hempty : a.overrides = []
  · rw [hempty]
    rfl
  · exact Settings.overridesOf_obj (plain_overrides a).distinct hempty

theorem reported_resolve (r : Registry) (name : String) :
    Reported (fun language => r.primary? (Text.lower name) = some language)
      (r.resolve (.text name)) := by
  have hlowered : Registry.lowered (.text name) = .ok (Text.lower name) := rfl
  rw [Registry.resolve, hlowered]
  dsimp only [bind, Except.bind]
  split
  · next hprimary => exact .ok hprimary
  · exact .error rfl

/-- Whether a name that is a text leads to a language can be told. -/
theorem reported_supported (r : Registry) (name : String) :
    Reported (fun language => r.primary? (Text.lower name) = some language)
      (supported r (.text name)) := by
  show Reported _ (if (r.primary? (Text.lower name)).isSome = true then r.resolve (.text name)
    else throw _)
  split
  · exact reported_resolve r name
  · exact .error rfl

/-- A language that is always there has a name. -/
theorem primary_ne_empty {name language : String}
    (h : Registry.primary? .builtIn name = some language) : language ≠ "" := by
  rintro rfl
  have hlanguage := Registry.reached_builtIn.grounded.isLanguage_primary h
  revert hlanguage
  decide

/-- Worlds with the same files and the same answer to a request: all that a run reads. -/
structure SameSources (w w' : World) : Prop where
  files : w'.files = w.files
  response : w'.response = w.response

theorem outcome_loadWith_setUp (files : FileTree) (asked overrides file : Json) :
    (Settings.loadWith Registry.setUp files asked overrides file).outcome =
      (Settings.load .builtIn files asked overrides file).outcome := by
  simp only [Settings.load, Settings.loadWith, Traced.outcome_bind, Traced.outcome_ofExcept,
    Traced.outcome_pure, Registry.outcome_setUp]

/-- The settings of a run are found, with a text as their language, or it is told why not. -/
theorem reports_configure {a : Arguments} {w : World}
    (hfile : ∀ p, a.settingsFile = some p → w.files.Readable (Path.ofString p))
    (hloadable : ∀ F, (Settings.readFile w.files (jsonOf a.settingsFile)).outcome = .ok F →
      Settings.Loadable (given? a.language) F) :
    (configure a).Reports (fun found w' => found.1 = .builtIn ∧
      (∃ s, found.2.language = .text s) ∧ SameSources w w') w := by
  have hoverrides := overridesOf_overrides a
  have hplain := plain_overrides a
  unfold configure
  dsimp only
  split
  · next name hname =>
    rw [hname] at hloadable
    refine .bind (P := fun r w' => r = .builtIn ∧ SameSources w w')
      (.ofTraced (R := fun r => r = .builtIn) (.of_ok Registry.outcome_setUp rfl)
        fun r hr => ⟨hr, rfl, rfl⟩) fun r w₁ h₁ => ?_
    obtain ⟨rfl, h₁⟩ := h₁
    refine .bind (P := fun language w' => language ≠ "" ∧ SameSources w w')
      (.ofExcept (reported_supported .builtIn name) fun language h => ⟨primary_ne_empty h, h₁⟩)
      fun language w₂ h₂ => ?_
    have hload := Settings.reported_load hfile hloadable (.some h₂.1) hoverrides hplain
    rw [← h₂.2.files] at hload
    refine .bind_get (.bind (P := fun s w' => (∃ l, s.language = .text l) ∧ SameSources w w')
      (.ofTraced hload fun s hs => ⟨hs, h₂.2.files, h₂.2.response⟩) fun s w₃ h₃ => ?_)
    exact .pure ⟨rfl, h₃⟩
  · next hname =>
    rw [hname] at hloadable
    have hload := Settings.reported_load hfile hloadable .none hoverrides hplain
    rw [← outcome_loadWith_setUp] at hload
    refine .bind_get (.bind (P := fun s w' => (∃ l, s.language = .text l) ∧ SameSources w w')
      (.ofTraced hload fun s hs => ⟨hs, rfl, rfl⟩) fun s w₂ h₂ => ?_)
    obtain ⟨⟨name, hlanguage⟩, h₂⟩ := h₂
    rw [hlanguage]
    refine .bind (P := fun _ w' => SameSources w w')
      (.ofExcept (reported_supported .builtIn name) fun _ _ => h₂) fun language w₃ h₃ => ?_
    exact .pure ⟨rfl, ⟨language, rfl⟩, h₃⟩

end CommandLine

/-! ## Fetching a plan -/

namespace Loading

theorem reports_refuse {α : Type} {P : α → World → Prop} (noted : String) (e : LoadError) (w : World) :
    (refuse noted e : Run α).Reports P w :=
  .bind_note (.fail rfl)

/-- A file is read, or it is told why not. -/
theorem reports_fromFile {p : String} {w : World} (h : w.files.Readable (Path.ofString p)) :
    (fromFile (.text p)).Reports (fun text _ => ¬Json.MeetsOversized text.toList) w := by
  have hpath : Settings.pathOf (.text p) = .ok (Path.ofString p) := rfl
  unfold fromFile
  refine .bind (P := fun path w' => w = w' ∧ w.files.Readable path)
    (.ofExcept (.of_ok hpath h) fun _ hpath => ⟨rfl, hpath⟩) ?_
  rintro path _ ⟨rfl, hpath⟩
  refine .bind_note (.bind_get ?_)
  dsimp only [World.noting]
  have hpresent := FileTree.systemFaults_present w.files path
  generalize w.files.present path = found at hpresent ⊢
  rcases found with e | (_ | _)
  · have hsystem : Failure.isReported (.file e) = true := hpresent e rfl
    dsimp only
    exact .fail hsystem
  · dsimp only
    exact .bind_note (.fail rfl)
  · dsimp only
    refine .when_note fun w' => ?_
    rcases hread : w.files.read path with cause | bytes
    · exact reports_refuse _ _ w'
    dsimp only
    rcases hdecode : Text.decode bytes with fault | s
    · exact reports_refuse _ _ w'
    refine .bind_note (.pure ?_)
    rw [String.toList_ofList]
    exact hpath _ ⟨bytes, s, hread, hdecode, rfl⟩

/-- The text of an answer is received, or it is told why not. -/
theorem reports_receive {url : String} {timeout : Json} {w : World}
    (h : ∀ status contentType text, w.response = .answer status contentType text →
      ¬Json.MeetsOversized text.toList) :
    (receive url timeout).Reports (fun text _ => ¬Json.MeetsOversized text.toList) w := by
  unfold receive
  have hrequest : (request url timeout).apply w =
      (.ok w.response, { w with requests := w.requests ++ [⟨url, timeout⟩] }) := rfl
  refine .bind (P := fun response _ => response = w.response) (.step hrequest rfl)
    fun response w₁ hresponse => ?_
  rcases response with ⟨status, contentType, text⟩ | _ | cause | cause
  · dsimp only
    split
    · exact reports_refuse _ _ w₁
    · have hend (w : World) : (do
          Run.note .info part ("Fetched schema from " ++ url)
          return text : Run String).Reports (fun text _ => ¬Json.MeetsOversized text.toList) w :=
        .bind_note (.pure (h _ _ _ hresponse.symm))
      exact .when_note hend
  · exact reports_refuse _ _ w₁
  · exact reports_refuse _ _ w₁
  · exact reports_refuse _ _ w₁

theorem reports_fromUrl {url : String} {timeout : Json} {w : World}
    (hurl : Url.verdict url ≠ .malformed)
    (h : ∀ status contentType text, w.response = .answer status contentType text →
      ¬Json.MeetsOversized text.toList) :
    (fromUrl (.text url) timeout).Reports (fun text _ => ¬Json.MeetsOversized text.toList) w := by
  unfold fromUrl
  refine .bind_note ?_
  rw [Json.text?_text]
  dsimp only
  cases hverdict : Url.verdict url with
  | malformed => exact absurd hverdict hurl
  | incomplete => exact reports_refuse _ _ _
  | usable => exact reports_receive h

end Loading

namespace CommandLine

theorem given?_eq_some {value : Option String} {s : String} :
    given? value = some s ↔ value = some s ∧ s ≠ "" := by
  rw [given?, Option.filter_eq_some_iff, bne_iff_ne]

theorem isGiven_jsonOf (value : Option String) :
    (jsonOf value).isGiven = (given? value).isSome := by
  cases value with
  | none => rfl
  | some s =>
    show (Json.text s).isGiven = _
    rw [Json.text, Settings.isGiven_str]
    by_cases hempty : s = ""
    · subst hempty
      rfl
    · have hgiven := given?_eq_some.mpr ⟨rfl, hempty⟩
      simp [hgiven, hempty]

/-- The plan can be fetched: no text that it may be in meets a number with too many digits, the
address is not malformed, and a file that only the settings name is a text. -/
structure Fetchable (a : Arguments) (planFile : Json) (w : World) : Prop where
  file : ∀ p, a.plan = some p → w.files.Readable (Path.ofString p)
  url : ∀ u, a.url = some u → Url.verdict u ≠ .malformed
  answer : a.url ≠ none → ∀ status contentType text, w.response = .answer status contentType text →
    ¬Json.MeetsOversized text.toList
  settings : given? a.plan = none → given? a.url = none → planFile.isGiven = true →
    ∃ p, planFile = .text p ∧ w.files.Readable (Path.ofString p)

theorem Fetchable.congr {a : Arguments} {planFile : Json} {w w' : World}
    (h : Fetchable a planFile w) (hsame : SameSources w w') : Fetchable a planFile w' := by
  obtain ⟨hfile, hurl, hanswer, hsettings⟩ := h
  rw [← hsame.files] at hfile hsettings
  rw [← hsame.response] at hanswer
  exact ⟨hfile, hurl, hanswer, hsettings⟩

/-- A plan comes from the file or the address that is named, and if there is none, from the file
that the settings name. -/
theorem fetchPlan_eq (a : Arguments) (s : Settings) :
    fetchPlan a s = match given? a.plan, given? a.url with
      | none, none => if s.planFile.isGiven then Loading.fromFile s.planFile
          else Run.fail (.command .noInput)
      | none, some url => Loading.fromUrl (.text url) Loading.standardTimeout
      | some file, none => Loading.fromFile (.text file)
      | some _, some _ => Run.fail (.load .twoSources) := by
  have hplan := isGiven_jsonOf a.plan
  have hurl := isGiven_jsonOf a.url
  have htext (value : String) : jsonOf (some value) = .text value := rfl
  unfold fetchPlan Loading.fetch
  dsimp only
  rw [hplan, hurl]
  cases hnamed : given? a.plan with
  | none =>
    rw [hnamed] at hplan
    cases haddress : given? a.url with
    | none =>
      cases hgiven : s.planFile.isGiven with
      | true => simp [hgiven]
      | false =>
        simp only [Option.isSome_none, Bool.not_false, Bool.and_self, if_true, hgiven]
        rfl
    | some url =>
      rw [(given?_eq_some.mp haddress).1]
      simp [hplan, htext]
  | some file =>
    rw [hnamed] at hplan
    rw [(given?_eq_some.mp hnamed).1, htext] at hplan ⊢
    cases given? a.url with
    | none => simp [hplan]
    | some url => simp [hplan]

/-- A plan is fetched, or it is told why not. -/
theorem reports_fetchPlan {a : Arguments} {s : Settings} {w : World}
    (h : Fetchable a s.planFile w) :
    (fetchPlan a s).Reports (fun text _ => ¬Json.MeetsOversized text.toList) w := by
  rw [fetchPlan_eq]
  split
  · next hnamed haddress =>
    split
    · next hgiven =>
      obtain ⟨p, hp, hreadable⟩ := h.settings hnamed haddress hgiven
      rw [hp]
      exact Loading.reports_fromFile hreadable
    · exact .fail rfl
  · next url _ haddress =>
    obtain ⟨hvalue, _⟩ := given?_eq_some.mp haddress
    exact Loading.reports_fromUrl (h.url url hvalue) (h.answer (by rw [hvalue]; nofun))
  · next file hnamed _ =>
    exact Loading.reports_fromFile (h.file file (given?_eq_some.mp hnamed).1)
  · exact .fail (e := .load .twoSources) rfl

end CommandLine

end EventCodegen
