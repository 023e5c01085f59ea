import EventCodegen.Proofs.AllOrNothing
import EventCodegen.Proofs.CategoryLines
import EventCodegen.Proofs.Outcomes

/-! What a complete generation consists of. Notes aside, events are resolved and modules are built
as the rules of the plan say (`outcome_buildModule`), so a generation has the file of each
category's module, in the order of the plan, then the file of the base type, and the counts for
those modules (`generation_parts`). With usable settings only a missing screen in strict mode stands
in its way (`generation_error`). Whatever the files are written to, a run that goes through gives
back the files of the generation (`writes_of_generate`). -/
namespace EventCodegen

namespace Session

/-! ## Modules and their files -/

theorem outcome_resolveEvents (s : Session) (category : String) :
    ∀ (events : List Event) (types : Scope),
      (s.resolveEvents category types events).outcome =
        (Shape.resolveAll s.rules s.settings.isStrict category types events).mapError .missingScreen
  | [], _ => rfl
  | e :: rest, types => by
    rw [resolveEvents, Shape.resolveAll, Traced.outcome_bind, Traced.outcome_ofExcept]
    cases hr : Shape.resolve s.rules s.settings.isStrict category types e with
    | error err => rfl
    | ok pair =>
      obtain ⟨r, after⟩ := pair
      have hrest := s.outcome_resolveEvents category rest after
      show Traced.outcome (if e.screen?.isNone = true then _ else _) = _
      -- whether the event names a screen or not, only notes are made
      rw [apply_ite Traced.outcome]
      simp only [Traced.outcome_bind, Traced.outcome_note, Traced.outcome_pure, hrest]
      show _ = Except.mapError Failure.missingScreen
        (Shape.resolveAll s.rules s.settings.isStrict category after rest >>= fun rs =>
          pure (r :: rs))
      cases Shape.resolveAll s.rules s.settings.isStrict category after rest with
      | error err => split <;> rfl
      | ok rs => split <;> rfl

theorem outcome_buildModule (s : Session) (c : Category) :
    (s.buildModule c).outcome = (s.moduleOf c).mapError .missingScreen := by
  unfold buildModule moduleOf CategoryModule.ofCategory Shape.resolveCategory
  rw [Traced.outcome_bind, outcome_resolveEvents]
  cases Shape.resolveAll s.rules s.settings.isStrict c.name (Shape.typeScope s.rules) c.events with
  | error err => rfl
  | ok events => rfl

/-- A category with its module and the file of that module. -/
def Built (s : Session) (c : Category) (built : CategoryModule × GeneratedFile) : Prop :=
  s.moduleOf c = .ok built.1 ∧ s.categoryFile built.1 = .ok built.2

theorem outcome_buildFiles_cons (s : Session) (c : Category) (rest : List Category) :
    (s.buildFiles (c :: rest)).outcome =
      (s.moduleOf c).mapError Failure.missingScreen >>= fun m => s.categoryFile m >>= fun f =>
        (s.buildFiles rest).outcome >>= fun more => .ok ((m, f) :: more) := by
  simp only [buildFiles, noteForm, Traced.outcome_bind, Traced.outcome_note,
    Traced.outcome_ofExcept, Traced.outcome_pure, outcome_buildModule]
  rfl

theorem buildFiles_ok {s : Session} : ∀ {categories : List Category}
    {built : List (CategoryModule × GeneratedFile)},
    (s.buildFiles categories).outcome = .ok built → List.Forall₂ s.Built categories built
  | [], built, h => by
    cases h
    exact .nil
  | c :: rest, built, h => by
    rw [outcome_buildFiles_cons] at h
    obtain ⟨m, hm, h⟩ := bind_eq_ok.mp h
    obtain ⟨f, hf, h⟩ := bind_eq_ok.mp h
    obtain ⟨more, hmore, h⟩ := bind_eq_ok.mp h
    cases h
    refine .cons ⟨?_, hf⟩ (buildFiles_ok hmore)
    cases hc : s.moduleOf c with
    | error err =>
      rw [hc] at hm
      cases hm
    | ok m' =>
      rw [hc] at hm
      exact congrArg Except.ok (Except.ok.inj hm)

/-- Some event of a plan names no screen though every event has to. -/
def LacksScreen (s : Session) (categories : List Category) : Prop :=
  s.settings.isStrict = true ∧ ∃ c ∈ categories, ∃ e ∈ c.events, e.screen? = none

/-- Where lines can be laid out, only strict mode stops the files of categories. -/
theorem buildFiles_error {s : Session} {n : Int}
    (hwidth : Indent.ofJson s.generator.settings.indentSize = .spaces n) {e : Failure} :
    ∀ {categories : List Category}, (s.buildFiles categories).outcome = .error e →
      s.LacksScreen categories
  | [], h => by cases h
  | c :: rest, h => by
    rw [outcome_buildFiles_cons] at h
    cases hc : s.moduleOf c with
    | error err =>
      have hr := CategoryModule.ofCategory_error hc
      obtain ⟨hstrict, event, hevent, hnone⟩ := Shape.resolveAll_error c.events _ hr
      exact ⟨hstrict, c, List.mem_cons_self, event, hevent, hnone⟩
    | ok m =>
      rw [hc] at h
      change s.categoryFile m >>= _ = _ at h
      rw [categoryFile_ok hwidth] at h
      cases hmore : (s.buildFiles rest).outcome with
      | ok more =>
        rw [hmore] at h
        cases h
      | error e' =>
        obtain ⟨hstrict, c', hc', hlacks⟩ := buildFiles_error hwidth hmore
        exact ⟨hstrict, c', List.mem_cons_of_mem c hc', hlacks⟩

/-! ## Generations -/

/-- Settings that can be used: the language and the package are texts, the width of indentation can
be compared, and the generator has one that lines can be laid out with. -/
structure Usable (s : Session) (package : String) : Prop where
  language : ∃ name, s.settings.language = .text name
  package : s.settings.package = .text package
  indent : (Settings.belowOne? s.settings.indentSize).isSome
  width : ∃ n, Indent.ofJson s.generator.settings.indentSize = .spaces n

theorem packageText_eq {s : Settings} {package : String} (h : s.package = .text package) :
    s.packageText = package := by
  unfold Settings.packageText
  rw [h]
  by_cases hempty : package.toList = []
  · obtain rfl : package = "" := String.toList_injective hempty
    rfl
  · have hgiven : (Json.text package).isGiven = true := by
      show (!package.toList.isEmpty) = true
      rw [List.isEmpty_eq_false_iff.mpr hempty]
      rfl
    rw [if_pos hgiven]
    rfl

/-- With a usable width and a package the file of the base type can always be laid out. -/
theorem baseFile_ok {s : Session} {package : String} (hpackage : s.settings.package = .text package)
    {n : Int} (hwidth : Indent.ofJson s.generator.settings.indentSize = .spaces n) :
    s.baseFile = .ok
      { path := filePath s.target package baseTypeName
        content := String.ofList (Layout.format n (Source.text s.target
          (Source.baseLines s.target s.generator.settings.hasComments s.settings.packageText)))
        kind := .base } := by
  unfold baseFile
  rw [laidOut_ok hwidth, hpackage]
  rfl

theorem outcome_generation (s : Session) (categories : List Category) :
    (s.generation categories).outcome =
      s.settings.warnings.mapError Failure.misuse >>= fun own =>
        (s.buildFiles categories).outcome >>= fun built => s.baseFile >>= fun base =>
          .ok { files := built.map (·.2) ++ [base]
                warnings := own ++ categories.flatMap Category.warnings
                metadata := some (.ofModules s.target s.settings.package (built.map (·.1))) } := by
  simp only [generation, buildBase, noteForm, Traced.outcome_bind, Traced.outcome_note,
    Traced.outcome_noteAll, Traced.outcome_ofExcept, Traced.outcome_pure]
  rfl

/-- A complete generation: the file of each category's module, then the file of the base type, and
the counts for those modules. -/
theorem generation_parts {s : Session} {categories : List Category} {g : Generation}
    (h : (s.generation categories).outcome = .ok g) : ∃ built base,
      List.Forall₂ s.Built categories built ∧ s.baseFile = .ok base ∧
      g.files = built.map (·.2) ++ [base] ∧
      g.metadata = some (.ofModules s.target s.settings.package (built.map (·.1))) := by
  rw [outcome_generation] at h
  obtain ⟨own, _, h⟩ := bind_eq_ok.mp h
  obtain ⟨built, hbuilt, h⟩ := bind_eq_ok.mp h
  obtain ⟨base, hbase, h⟩ := bind_eq_ok.mp h
  cases h
  exact ⟨built, base, buildFiles_ok hbuilt, hbase, rfl, rfl⟩

theorem generation_ok {s : Session} {categories : List Category} {g : Generation}
    (h : (s.generation categories).outcome = .ok g) : ∃ built base,
      List.Forall₂ s.Built categories built ∧ s.baseFile = .ok base ∧
      g.files = built.map (·.2) ++ [base] := by
  obtain ⟨built, base, hbuilt, hbase, hfiles, _⟩ := generation_parts h
  exact ⟨built, base, hbuilt, hbase, hfiles⟩

theorem Usable.warnings_ok {s : Session} {package : String} (hs : s.Usable package) :
    ∃ own, s.settings.warnings = .ok own := by
  obtain ⟨language, hlanguage⟩ := hs.language
  obtain ⟨below, hbelow⟩ := Option.isSome_iff_exists.mp hs.indent
  unfold Settings.warnings Settings.indentWarnings
  rw [hlanguage, hs.package, hbelow]
  unfold Settings.packageWarnings
  split
  · exact ⟨_, rfl⟩
  · exact ⟨_, rfl⟩

/-- With usable settings a generation is complete unless an event lacks its screen. -/
theorem generation_error {s : Session} {package : String} (hs : s.Usable package)
    {categories : List Category} {e : Failure} (h : (s.generation categories).outcome = .error e) :
    s.LacksScreen categories := by
  obtain ⟨own, hown⟩ := hs.warnings_ok
  obtain ⟨n, hwidth⟩ := hs.width
  rw [outcome_generation, hown, baseFile_ok hs.package hwidth] at h
  cases hbuilt : (s.buildFiles categories).outcome with
  | error e' => exact buildFiles_error hwidth hbuilt
  | ok built =>
    rw [hbuilt] at h
    cases h

end Session

/-! ## Files held in memory -/

namespace Output

/-- What is held in memory after some files. -/
def remembered (files : List GeneratedFile) (held : List (String × String)) :
    List (String × String) :=
  files.foldl (fun held f => hold f.path.text f.content held) held

/-- Files can always be held in memory, and nothing else comes of it. -/
theorem writes_memory : ∀ (files : List GeneratedFile) (w : World),
    Writes memory.write files w (files.map memory.location)
      { w with held := remembered files w.held }
  | [], _ => .done
  | f :: rest, w =>
    .file rfl (writes_memory rest { w with held := hold f.path.text f.content w.held })

end Output

/-! ## Runs -/

namespace Session

theorem mapM_of_writes {write : GeneratedFile → Run String} {files : List GeneratedFile}
    {w w' : World} {locations : List String} (h : Writes write files w locations w') :
    (files.mapM write).apply w = (.ok locations, w') := by
  induction h with
  | done => rfl
  | file hwrite _ ih =>
    rw [List.mapM_cons, Run.apply_bind_of_ok hwrite, Run.apply_bind_of_ok ih]
    rfl

theorem outcome_rendered {s : Session} {text : String} {categories : List Category}
    (h : Plan.parse text = .ok categories) :
    (s.rendered text).outcome = (s.generation categories).outcome := by
  unfold rendered readPlan
  rw [h]
  simp only [Traced.outcome_bind, Traced.outcome_ofExcept]
  rfl

/-- A text of which something is rendered is a plan. -/
theorem rendered_ok {s : Session} {text : String} {g : Generation}
    (h : (s.rendered text).outcome = .ok g) : ∃ categories,
      Plan.parse text = .ok categories ∧ (s.generation categories).outcome = .ok g := by
  cases hplan : Plan.parse text with
  | ok categories => exact ⟨categories, rfl, (outcome_rendered hplan).symm.trans h⟩
  | error fault =>
    unfold rendered readPlan at h
    rw [hplan] at h
    cases h

/-- A run that goes through gives back the files of the generation, each with its location, and has
written them in order. -/
theorem writes_of_generate {s : Session} {output : Output} {text : String} {w w' : World}
    {result : Generation} (h : (s.generate output text).apply w = (.ok result, w')) :
    ∃ g w₁ last, (s.rendered text).outcome = .ok g ∧
      result = { g with locations := g.files.map output.location } ∧
      Writes output.write g.files (w.noting (s.rendered text).notes)
        (g.files.map output.location) w₁ ∧ w' = w₁.noting [last] := by
  have hends := s.ends_generate output text w
  rw [h] at hends
  cases hends with
  | written hrendered hwrites => exact ⟨_, _, _, hrendered, rfl, hwrites, rfl⟩

/-- A run goes through if all files can be rendered and then written. -/
theorem generate_of_writes {s : Session} {output : Output} {text : String} {w w₁ : World}
    {g : Generation} (hrendered : (s.rendered text).outcome = .ok g)
    (hwrites : Writes output.write g.files (w.noting (s.rendered text).notes)
      (g.files.map output.location) w₁) :
    ∃ last, (s.generate output text).apply w =
      (.ok { g with locations := g.files.map output.location }, w₁.noting [last]) := by
  obtain ⟨last, hgenerate⟩ := s.generateWith_apply output.write text w
  rw [hrendered] at hgenerate
  dsimp only at hgenerate
  rw [mapM_of_writes hwrites, ← generate_eq] at hgenerate
  exact ⟨last, hgenerate⟩

end Session
end EventCodegen
