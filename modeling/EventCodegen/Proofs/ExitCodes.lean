import EventCodegen.Proofs.ShownResults

/-! How the program ends. A run that comes to an end of its own gives the exit code of zero if its
work is done and that of one if it is not (`ends_program`). That a run comes to such an end is not so
for every input: the program reports some kinds of failures and lets the others pass. None of the
others comes up where a command works with what is in order (`Orderly`), since each of its steps then
goes through or fails in a way that is reported (`reports_run`); a language that is a number is
already enough for one to come up. -/
namespace EventCodegen

open Display

namespace CommandLine

/-! ## Settings in order -/

/-- A settings file in order: its text meets no number with too many digits, and settings can be
made of its members. -/
structure Configurable (a : Arguments) (w : World) : Prop where
  file : ∀ p, a.settingsFile = some p → w.files.Readable (Path.ofString p)
  loadable : ∀ F, (Settings.readFile w.files (jsonOf a.settingsFile)).outcome = .ok F →
    Settings.Loadable (given? a.language) F

/-- The settings that a run works with. -/
def InEffect (a : Arguments) (w : World) (s : Settings) : Prop :=
  ∃ r w', (configure a).apply w = (.ok (r, s), w')

/-- Settings in order for files: lines can be indented, and the package is a text with harmless
segments. If the files are written, the destination is a harmless text, and neither has a NUL in
it. -/
structure Workable (isWritten : Bool) (s : Settings) : Prop where
  width : ∃ n, Indent.ofJson s.indentSize = .spaces n
  package : ∃ package, s.package = .text package ∧ HarmlessPackage package ∧
    (isWritten = true → Char.ofNat 0 ∉ package.toList)
  destination : isWritten = true →
    ∃ d, s.destination = .text d ∧ Harmless d.toList ∧ Char.ofNat 0 ∉ d.toList

/-- What a command works with is in order: the settings file, the settings in effect, and where the
plan comes from. -/
def Orderly (a : Arguments) (w : World) : Command → Prop
  | .generate => Configurable a w ∧
      ∀ s, InEffect a w s → Workable (!a.dryRun) s ∧ Fetchable a s.planFile w
  | .base => Configurable a w ∧ ∀ s, InEffect a w s → Workable true s
  | .inspect => Configurable a w ∧ ∀ s, InEffect a w s → Fetchable a s.planFile w
  | .languages => True

/-! ## Sessions and outputs -/

theorem isSome_belowOne? {x : Json} {n : Int} (h : Indent.ofJson x = .spaces n) :
    (Settings.belowOne? x).isSome = true := by
  cases x with
  | bool b => rfl
  | int n => rfl
  | float x => rfl
  | _ => cases h

theorem reported_generatorOf (r : Registry) (name : String) :
    Reported (fun _ => True) (r.generatorOf (.text name)) := by
  refine (reported_resolve r name).bind fun language _ => ?_
  unfold Registry.generatorNamed
  split
  · exact .ok trivial
  · exact .error rfl

/-- The session for a language with some settings. -/
def sessionFor (t : Target) (s : Settings) : Session :=
  ⟨{ s with language := .text t.name }, ⟨t, s⟩⟩

theorem reported_make {s : Settings} (h : ∃ name, s.language = .text name) :
    Reported (fun session => ∃ t, session = sessionFor t s) (Session.make .builtIn s none) := by
  obtain ⟨name, hname⟩ := h
  have hgenerator := reported_generatorOf .builtIn name
  unfold Session.make
  rw [hname]
  cases hfound : Registry.builtIn.generatorOf (.text name) with
  | ok t => exact .ok ⟨t, rfl⟩
  | error e =>
    rw [hfound] at hgenerator
    cases hgenerator with
    | error he => exact .error he

namespace Workable

variable {isWritten : Bool} {s : Settings} {package : String}

theorem usable (h : Workable isWritten s) (hpackage : s.package = .text package) (t : Target) :
    (sessionFor t s).Usable package := by
  obtain ⟨n, hn⟩ := h.width
  exact ⟨⟨t.name, rfl⟩, hpackage, isSome_belowOne? hn, n, hn⟩

/-- Files are written to the destination. -/
theorem reported_output (h : Workable true s) (hpackage : s.package = .text package) :
    Reported (fun output => output.Accepts package) (Output.ofSettings s) := by
  obtain ⟨package', hpackage', hharmless, hnul⟩ := h.package
  obtain ⟨d, hd, hdestination, hfree⟩ := h.destination rfl
  obtain rfl : package' = package := by
    rw [hpackage] at hpackage'
    cases hpackage'
    rfl
  have houtput : Output.ofSettings s = .ok (.directory (.ofString d)) := by
    unfold Output.ofSettings
    rw [hd]
    rfl
  refine .of_ok houtput ⟨hharmless, ?_⟩
  rintro _ ⟨⟩
  exact ⟨fun part hpart => Path.harmless_of_mem_parts hdestination hpart,
    fun part hpart hmem => hfree (Path.mem_of_mem_parts hpart hmem), hnul rfl⟩

end Workable

/-! ## Commands -/

variable {a : Arguments} {w : World}

/-- The settings of a run are in effect once they have been found. -/
theorem reports_inEffect (h : Configurable a w) :
    (configure a).Reports (fun found w' => found.1 = .builtIn ∧ InEffect a w found.2 ∧
      (∃ name, found.2.language = .text name) ∧ SameSources w w') w := by
  refine (reports_configure h.file h.loadable).with_run.mono ?_
  rintro ⟨r, s⟩ w' ⟨hrun, hregistry, hlanguage, hsame⟩
  exact ⟨hregistry, ⟨r, w', hrun⟩, hlanguage, hsame⟩

theorem reports_prepare (h : Orderly a w .generate) :
    (prepare a).Reports (fun found _ => ∃ package, found.1.Usable package ∧
      found.2.1.Accepts package ∧ ¬Json.MeetsOversized found.2.2.toList) w := by
  obtain ⟨hconfigurable, hsettings⟩ := h
  refine .bind (reports_inEffect hconfigurable) ?_
  rintro ⟨r, s⟩ w₁ ⟨hregistry, heffect, hlanguage, hsame⟩
  obtain rfl : r = .builtIn := hregistry
  obtain ⟨hworkable, hfetchable⟩ := hsettings s heffect
  obtain ⟨package, hpackage, hharmless, _⟩ := hworkable.package
  refine .bind (P := fun _ w' => SameSources w w') (.step rfl ⟨hsame.files, hsame.response⟩)
    fun _ w₂ hsame => ?_
  refine .bind (reports_fetchPlan (hfetchable.congr hsame)) fun text w₃ htext => ?_
  refine .bind (.ofExcept_self (reported_make hlanguage)) ?_
  rintro _ w₄ ⟨t, rfl⟩
  have husable := hworkable.usable hpackage t
  dsimp only
  split
  · exact .bind (P := fun output _ => output.Accepts package) (.pure ⟨hharmless, nofun⟩)
      fun output _ houtput => .pure ⟨package, husable, houtput, htext⟩
  · next hwritten =>
    rw [Bool.eq_false_of_not_eq_true hwritten] at hworkable
    exact .bind (.ofExcept_self (hworkable.reported_output hpackage)) fun output _ houtput =>
      .pure ⟨package, husable, houtput, htext⟩

theorem reports_runGenerate (h : Orderly a w .generate) :
    (runGenerate a).Reports (fun _ _ => True) w := by
  refine .bind (reports_prepare h) ?_
  rintro ⟨session, output, text⟩ w₁ ⟨package, husable, houtput, htext⟩
  exact .bind (Session.reports_generate husable houtput htext w₁) fun g w₂ hg =>
    reports_showGeneration a hg

theorem reports_runBase (h : Orderly a w .base) : (runBase a).Reports (fun _ _ => True) w := by
  obtain ⟨hconfigurable, hsettings⟩ := h
  refine .bind (reports_inEffect hconfigurable) ?_
  rintro ⟨r, s⟩ w₁ ⟨hregistry, heffect, hlanguage, _⟩
  obtain rfl : r = .builtIn := hregistry
  have hworkable := hsettings s heffect
  obtain ⟨n, hwidth⟩ := hworkable.width
  obtain ⟨package, hpackage, _⟩ := hworkable.package
  obtain ⟨d, hd, hdestination, _⟩ := hworkable.destination rfl
  refine .bind (.ofExcept_self (reported_make hlanguage)) ?_
  rintro _ w₂ ⟨t, rfl⟩
  refine .bind (.ofExcept_self (hworkable.reported_output hpackage)) fun output w₃ houtput => ?_
  refine .bind (Session.reports_generateBase hpackage hwidth houtput w₃) fun f w₄ hf => ?_
  have hshown : Opening s.destination.display.toList := by
    rw [hd]
    exact hdestination.opening
  exact reports_say (shows_base hf hshown)

theorem reports_runInspect (h : Orderly a w .inspect) :
    (runInspect a).Reports (fun _ _ => True) w := by
  obtain ⟨hconfigurable, hsettings⟩ := h
  refine .bind (reports_inEffect hconfigurable) ?_
  rintro ⟨r, s⟩ w₁ ⟨hregistry, heffect, hlanguage, hsame⟩
  obtain rfl : r = .builtIn := hregistry
  refine .bind (reports_fetchPlan ((hsettings s heffect).congr hsame)) fun text w₂ htext => ?_
  refine .bind (.ofTraced_self (Session.reported_readPlan htext)) fun categories w₃ _ => ?_
  refine .bind (.ofExcept_self (reported_make hlanguage)) ?_
  rintro session w₄ -
  have hbuilt : Reported (fun modules => ∀ m ∈ modules, ∃ c, session.moduleOf c = .ok m)
      (categories.mapM session.buildModule).outcome :=
    .mapM fun c _ => (session.reported_buildModule c).mono fun m hm => ⟨c, hm⟩
  refine .bind (.ofTraced_self hbuilt) fun modules w₅ hmodules => ?_
  exact .bind (reports_showLines (isSome_eventTable hmodules)) fun _ _ _ =>
    reports_say (shows_counts _ _)

theorem reports_runLanguages : runLanguages.Reports (fun _ _ => True) w := by
  have hsetUp : Reported (· = .builtIn) Registry.setUp.outcome := .of_ok Registry.outcome_setUp rfl
  refine .bind (.ofTraced_self hsetUp) ?_
  rintro _ w₁ rfl
  refine .bind_get (.bind (.ofTraced_self (reported_describeAll w₁.files))
    fun languages w₂ hlanguages => ?_)
  exact reports_showLines (isSome_languageTable hlanguages)

/-- A command that works with what is in order does its work, or it is told why not. -/
theorem reports_run {c : Command} (h : Orderly a w c) : (c.run a).Reports (fun _ _ => True) w := by
  cases c with
  | generate => exact reports_runGenerate h
  | base => exact reports_runBase h
  | inspect => exact reports_runInspect h
  | languages => exact reports_runLanguages

/-! ## Whole runs -/

/-- How the program ends for words that it understands. -/
inductive Ends (words : List String) (w : World) : Except Failure Exit × World → Prop
  /-- No command is named, and the help is shown. -/
  | idle : read words = .noCommand → Ends words w (.ok { code := 1, output := programHelp }, w)
  /-- The command does its work. -/
  | done {c : Command} {a : Arguments} {w' : World} : read words = .run c a →
    (c.run a).apply w = (.ok (), w') → Ends words w (.ok { code := 0 }, w')
  /-- The command fails, which is reported without any change to the files. -/
  | reported {c : Command} {a : Arguments} {e : Failure} {w₁ w' : World} : read words = .run c a →
    (c.run a).apply w = (.error e, w₁) → e.isReported = true → w'.files = w₁.files →
    Ends words w (.ok { code := 1 }, w')
  /-- The command fails in a way that nobody reports. -/
  | escaped {c : Command} {a : Arguments} {e : Failure} {w' : World} : read words = .run c a →
    (c.run a).apply w = (.error e, w') → e.isReported = false → Ends words w (.error e, w')

/-- The program does what the command asks for, and reports the failure if there is one. -/
theorem apply_program {words : List String} {c : Command} {a : Arguments}
    (h : read words = .run c a) (w : World) :
    (program words).apply w = match (c.run a).apply w with
      | (.ok _, w') => (.ok { code := 0 }, w')
      | (.error e, w') => match (report e).apply w' with
        | (.ok code, w'') => (.ok { code }, w'')
        | (.error e', w'') => (.error e', w'') := by
  unfold program
  rw [h]
  dsimp only
  rw [Run.apply_bind, apply_perform]
  rcases (c.run a).apply w with ⟨e | _, w'⟩
  · dsimp only
    rcases (report e).apply w' with ⟨e' | code, w''⟩
    · rfl
    · rfl
  · rfl

theorem apply_program_of_unreported {words : List String} {c : Command} {a : Arguments}
    {e : Failure} {w' : World} (h : read words = .run c a)
    (hfailed : (c.run a).apply w = (.error e, w')) (hreported : e.isReported = false) :
    (program words).apply w = (.error e, w') := by
  rw [apply_program h, hfailed]
  dsimp only
  rw [apply_report_of_unreported hreported]

theorem ends_program {words : List String} (hread : ∀ e, read words ≠ .exit e) (w : World) :
    Ends words w ((program words).apply w) := by
  cases h : read words with
  | exit e => exact absurd h (hread e)
  | noCommand =>
    unfold program
    rw [h]
    exact .idle h
  | run c a =>
    rcases hrun : (c.run a).apply w with ⟨e | _, w₁⟩
    · cases hreported : e.isReported with
      | true =>
        obtain ⟨w', hreport, hfiles⟩ := apply_report hreported w₁
        rw [apply_program h, hrun]
        dsimp only
        rw [hreport]
        exact .reported h hrun hreported hfiles
      | false =>
        rw [apply_program_of_unreported h hrun hreported]
        exact .escaped h hrun hreported
    · rw [apply_program h, hrun]
      exact .done h hrun

/-- A command line does the work that it asks for. -/
def Works (words : List String) (w : World) : Prop :=
  ∃ c a w', read words = .run c a ∧ (c.run a).apply w = (.ok (), w')

theorem not_works {words : List String} {c : Command} {a : Arguments} {w₁ : World} {e : Failure}
    (h : read words = .run c a) (hrun : (c.run a).apply w = (.error e, w₁)) :
    ¬Works words w := by
  rintro ⟨c', a', w', hread, hok⟩
  rw [h] at hread
  cases hread
  rw [hrun] at hok
  cases hok

/-- A settings file whose language is a number. -/
def numberAsLanguage : World :=
  { files := ({} : FileTree).put ["cfg.json", "home"]
      (.file (Text.encode "\x7b\"language\": 5\x7d".toList)) }

end CommandLine
end EventCodegen
