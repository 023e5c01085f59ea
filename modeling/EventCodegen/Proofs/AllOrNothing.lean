import EventCodegen.Proofs.UnchangedFiles

/-! A run writes all of its files or, if anything fails before the first write, none. What comes
before the first write only makes notes and does not know the writer; what comes after it are the
files of a complete generation, written in order up to the first write that fails
(`Session.generateWith_apply`). On the command line this holds of `generate` from the reading of the
arguments on, and `inspect` and a run that only shows its files leave the tree of files alone
(`all_or_nothing`). -/
namespace EventCodegen

/-! ## Writing -/

/-- Some files are written one after the other, each to the location that is listed for it. -/
inductive Writes (write : GeneratedFile → Run String) :
    List GeneratedFile → World → List String → World → Prop
  | done {w : World} : Writes write [] w [] w
  | file {f : GeneratedFile} {files : List GeneratedFile} {location : String}
    {locations : List String} {w w₁ w₂ : World} :
    (write f).apply w = (.ok location, w₁) → Writes write files w₁ locations w₂ →
    Writes write (f :: files) w (location :: locations) w₂

/-- The first file that cannot be written ends a run of writes. -/
def FailsAt (write : GeneratedFile → Run String) (files : List GeneratedFile) (w : World)
    (e : Failure) (w' : World) : Prop :=
  ∃ before f after locations w₁, files = before ++ f :: after ∧
    Writes write before w locations w₁ ∧ (write f).apply w₁ = (.error e, w')

/-- Files are all written, or one of them cannot be. -/
theorem mapM_write_cases (write : GeneratedFile → Run String) (files : List GeneratedFile)
    (w : World) :
    (∃ locations w', (files.mapM write).apply w = (.ok locations, w') ∧
      Writes write files w locations w') ∨
    (∃ e w', (files.mapM write).apply w = (.error e, w') ∧ FailsAt write files w e w') := by
  induction files generalizing w with
  | nil => exact Or.inl ⟨[], w, rfl, .done⟩
  | cons f rest ih =>
    rw [List.mapM_cons, Run.apply_bind]
    rcases hf : (write f).apply w with ⟨e | location, w₁⟩
    · exact Or.inr ⟨e, w₁, rfl, [], f, rest, [], w, rfl, .done, hf⟩
    -- once the first file is written, the rest decides
    · simp only [Run.apply_bind]
      rcases ih w₁ with ⟨locations, w', heq, hwrites⟩ | ⟨e, w', heq, hfails⟩
      · rw [heq]
        exact Or.inl ⟨_, w', rfl, .file hf hwrites⟩
      · rw [heq]
        obtain ⟨before, g, after, locations, w₂, rfl, hwrites, hg⟩ := hfails
        exact Or.inr ⟨e, w', rfl, f :: before, g, after, _, w₂, rfl, .file hf hwrites, hg⟩

namespace Output

theorem writeAll_eq (output : Output) (files : List GeneratedFile) :
    output.writeAll files = files.mapM output.write := by
  induction files with
  | nil => rfl
  | cons f rest ih => rw [writeAll, List.mapM_cons, ih]

/-- The location that a file is written to. -/
def location (output : Output) (f : GeneratedFile) : String :=
  match output with
  | directory d => (d.join f.path).text
  | memory => f.path.text

theorem location_of_write {output : Output} {f : GeneratedFile} {w w' : World} {location : String}
    (h : (output.write f).apply w = (.ok location, w')) : location = output.location f := by
  cases output with
  | memory =>
    cases h
    rfl
  | directory d =>
    simp only [write, writeBelow, Run.apply_bind] at h
    split at h
    · split at h
      · cases h
      · simp only [Run.apply_bind] at h
        split at h
        · cases h
          rfl
        · cases h
    · cases h

theorem locations_of_writes {output : Output} {files : List GeneratedFile} {w w' : World}
    {locations : List String} (h : Writes output.write files w locations w') :
    locations = files.map output.location := by
  induction h with
  | done => rfl
  | file hf _ ih => rw [List.map_cons, location_of_write hf, ih]

end Output

/-! ## One generation -/

namespace Session

/-- Everything that a plan leads to, nothing of it written yet. -/
def rendered (s : Session) (text : String) : Traced Generation := do
  let categories ← readPlan text
  s.generation categories

/-- A run that hands its files to any writer. -/
def generateWith (s : Session) (write : GeneratedFile → Run String) (text : String) :
    Run Generation := do
  let categories ← Run.ofTraced (readPlan text)
  let g ← Run.ofTraced (s.generation categories)
  let locations ← g.files.mapM write
  Run.note .info "generator" ("Generated " ++ toString categories.length ++
    " category modules and " ++ baseTypeName)
  return { g with locations }

theorem generate_eq (s : Session) (output : Output) (text : String) :
    s.generate output text = s.generateWith output.write text := by
  simp only [generate, generateCategories, generateWith, Output.writeAll_eq]

/-- What comes before the first write fixes the files, or the failure, without the writer. -/
theorem generateWith_apply (s : Session) (write : GeneratedFile → Run String) (text : String)
    (w : World) : ∃ last : Note,
    (s.generateWith write text).apply w =
      match (s.rendered text).outcome with
      | .error e => (.error e, w.noting (s.rendered text).notes)
      | .ok g =>
        match (g.files.mapM write).apply (w.noting (s.rendered text).notes) with
        | (.error e, w') => (.error e, w')
        | (.ok locations, w') => (.ok { g with locations }, w'.noting [last]) := by
  simp only [generateWith, rendered, Traced.outcome_bind, Run.apply_bind, Run.apply_ofTraced]
  cases hplan : (readPlan text).outcome with
  | error e =>
    -- the last note is never made
    rw [Traced.notes_bind_error hplan]
    exact ⟨⟨.info, "", ""⟩, rfl⟩
  | ok categories =>
    rw [Traced.notes_bind_ok hplan, ← World.noting_noting]
    refine ⟨⟨.info, journalName "generator", "Generated " ++ toString categories.length ++
      " category modules and " ++ baseTypeName⟩, ?_⟩
    dsimp only [bind, Except.bind]
    cases (s.generation categories).outcome with
    | error e => rfl
    | ok g =>
      dsimp only
      rcases (g.files.mapM write).apply _ with ⟨_ | locations, w'⟩
      · rfl
      · rfl

/-- How a run that generates everything for the text of a plan ends. -/
inductive Ends (s : Session) (output : Output) (text : String) (w : World) :
    Except Failure Generation × World → Prop
  /-- It fails before the first write: only notes have been made, and every other writer would have
  led to the same end. -/
  | unwritten {e : Failure} : (s.rendered text).outcome = .error e →
    (∀ write, (s.generateWith write text).apply w =
      (.error e, w.noting (s.rendered text).notes)) →
    Ends s output text w (.error e, w.noting (s.rendered text).notes)
  /-- All files are written in order, each to its location. -/
  | written {g : Generation} {w' : World} {last : Note} : (s.rendered text).outcome = .ok g →
    Writes output.write g.files (w.noting (s.rendered text).notes) (g.files.map output.location)
      w' →
    Ends s output text w
      (.ok { g with locations := g.files.map output.location }, w'.noting [last])
  /-- All files are complete, and one of them cannot be written. -/
  | stopped {g : Generation} {e : Failure} {w' : World} : (s.rendered text).outcome = .ok g →
    FailsAt output.write g.files (w.noting (s.rendered text).notes) e w' →
    Ends s output text w (.error e, w')

theorem ends_generate (s : Session) (output : Output) (text : String) (w : World) :
    s.Ends output text w ((s.generate output text).apply w) := by
  obtain ⟨last, hgenerate⟩ := s.generateWith_apply output.write text w
  rw [generate_eq, hgenerate]
  cases h : (s.rendered text).outcome with
  | error e =>
    refine .unwritten h fun write => ?_
    obtain ⟨_, hwrite⟩ := s.generateWith_apply write text w
    rw [hwrite, h]
  | ok g =>
    dsimp only
    rcases mapM_write_cases output.write g.files (w.noting (s.rendered text).notes) with
      ⟨locations, w', heq, hwrites⟩ | ⟨e, w', heq, hfails⟩
    · obtain rfl := Output.locations_of_writes hwrites
      rw [heq]
      exact .written h hwrites
    · rw [heq]
      exact .stopped h hfails

end Session

/-! ## The command -/

namespace CommandLine

open Run

/-- Everything that `generate` does before the first write: it finds the output and completes the
files. -/
def complete (a : Arguments) : Run (Output × Generation) := do
  let (session, output, text) ← prepare a
  let g ← Run.ofTraced (session.rendered text)
  return (output, g)

theorem keepsFiles_complete (a : Arguments) : KeepsFiles (complete a) :=
  .bind (keepsFiles_prepare a) fun ⟨_, _, _⟩ => .bind (.ofTraced _) fun _ => .pure _

/-- A failure before the first write is all that comes of `generate`. -/
theorem runGenerate_of_error {a : Arguments} {w w₀ : World} {e : Failure}
    (h : (complete a).apply w = (.error e, w₀)) : (runGenerate a).apply w = (.error e, w₀) := by
  rcases error_of_bind h with hprepare | ⟨⟨session, output, text⟩, w₁, hprepare, h⟩
  · exact apply_bind_of_error hprepare
  · obtain ⟨last, hgenerate⟩ := session.generateWith_apply output.write text w₁
    rcases error_of_bind h with hrendered | ⟨g, w₂, _, hpure⟩
    · rw [apply_ofTraced, Prod.mk.injEq] at hrendered
      rw [hrendered.1, hrendered.2, ← Session.generate_eq] at hgenerate
      exact (apply_bind_of_ok hprepare).trans (apply_bind_of_error hgenerate)
    · cases hpure

/-- Once its files are complete, `generate` changes the tree of files only by writing them. -/
theorem files_runGenerate {a : Arguments} {w w₀ : World} {output : Output} {g : Generation}
    (h : (complete a).apply w = (.ok (output, g), w₀)) :
    ((runGenerate a).apply w).2.files = ((output.writeAll g.files).apply w₀).2.files := by
  obtain ⟨⟨session, output', text⟩, w₁, hprepare, h⟩ := ok_of_bind h
  obtain ⟨g', w₂, hrendered, hpure⟩ := ok_of_bind h
  cases hpure
  rw [apply_ofTraced, Prod.mk.injEq] at hrendered
  obtain ⟨last, hgenerate⟩ := session.generateWith_apply output.write text w₁
  rw [hrendered.1, hrendered.2, ← Session.generate_eq] at hgenerate
  rw [runGenerate, apply_bind_of_ok hprepare, KeepsFiles.files_bind (keepsFiles_showGeneration a),
    hgenerate, Output.writeAll_eq]
  dsimp only
  rcases (g.files.mapM output.write).apply w₀ with ⟨e | locations, w₂⟩
  · rfl
  · rfl

/-- A run that only shows its files holds them in memory. -/
theorem output_of_dryRun {a : Arguments} (hdry : a.dryRun = true) {w w₀ : World} {output : Output}
    {g : Generation} (h : (complete a).apply w = (.ok (output, g), w₀)) : output = .memory := by
  obtain ⟨⟨session, output', text⟩, w₁, hprepare, hrendered⟩ := ok_of_bind h
  obtain ⟨g', w₂, _, hpair⟩ := ok_of_bind hrendered
  cases hpair
  obtain ⟨⟨registry, settings⟩, w₃, _, hprepare⟩ := ok_of_bind hprepare
  obtain ⟨_, w₄, _, hprepare⟩ := ok_of_bind hprepare
  obtain ⟨_, w₅, _, hprepare⟩ := ok_of_bind hprepare
  obtain ⟨_, w₆, _, hprepare⟩ := ok_of_bind hprepare
  dsimp only at hprepare
  rw [if_pos hdry] at hprepare
  cases hprepare
  rfl

/-- What a run of `generate` leaves of the tree of files. -/
inductive Leaves (a : Arguments) (w : World) : Except Failure Exit × World → Prop
  /-- It fails before the first write: nothing has changed. -/
  | unwritten {e : Failure} {w₀ w' : World} {outcome : Except Failure Exit} :
    (complete a).apply w = (.error e, w₀) → outcome ≠ .ok { code := 0 } → w'.files = w.files →
    Leaves a w (outcome, w')
  /-- It only shows the files: nothing has changed. -/
  | shown {output : Output} {g : Generation} {w₀ w' : World} {outcome : Except Failure Exit} :
    (complete a).apply w = (.ok (output, g), w₀) → a.dryRun = true → w'.files = w.files →
    Leaves a w (outcome, w')
  /-- All files are complete while nothing has changed, and are then written in order. -/
  | written {output : Output} {g : Generation} {w₀ w' : World} {outcome : Except Failure Exit} :
    (complete a).apply w = (.ok (output, g), w₀) → w₀.files = w.files → a.dryRun = false →
    w'.files = ((output.writeAll g.files).apply w₀).2.files → Leaves a w (outcome, w')

theorem keepsFiles_memory : ∀ files : List GeneratedFile, KeepsFiles (Output.memory.writeAll files)
  | [] => .pure _
  | _ :: rest => .bind (.bind (fun _ => rfl) fun _ => .pure _) fun _ =>
    .bind (keepsFiles_memory rest) fun _ => .pure _

theorem leaves_generate {words : List String} {a : Arguments} (h : read words = .run .generate a)
    (w : World) : Leaves a w ((program words).apply w) := by
  have hfiles := files_program h w
  have hcomplete := keepsFiles_complete a w
  rcases hrun : (complete a).apply w with ⟨e | ⟨output, g⟩, w₀⟩ <;> rw [hrun] at hcomplete
  · have herror := runGenerate_of_error hrun
    refine .unwritten hrun (program_ne_success h herror) (hfiles.trans ?_)
    exact (congrArg (fun r => r.2.files) herror).trans hcomplete
  · have hwritten := hfiles.trans (files_runGenerate hrun)
    cases hdry : a.dryRun with
    | true =>
      rw [output_of_dryRun hdry hrun] at hwritten
      exact .shown hrun hdry (hwritten.trans ((keepsFiles_memory g.files w₀).trans hcomplete))
    | false => exact .written hrun hcomplete hdry hwritten

end CommandLine

/-- A run writes all of its files in order or, if anything fails before the first write, none; and a
command line that generates writes nothing before everything is complete, one that only shows or
inspects never. -/
theorem all_or_nothing :
    (∀ (s : Session) (output : Output) (text : String) (w : World),
      s.generate output text = s.generateWith output.write text ∧
      s.Ends output text w ((s.generate output text).apply w)) ∧
    (∀ (words : List String) (w : World),
      match CommandLine.read words with
      | .run .inspect _ => ((CommandLine.program words).apply w).2.files = w.files
      | .run .generate a => CommandLine.Leaves a w ((CommandLine.program words).apply w)
      | _ => True) := by
  refine ⟨fun s output text w => ⟨s.generate_eq output text, s.ends_generate output text w⟩,
    fun words w => ?_⟩
  split
  · next a h => exact (CommandLine.files_program h w).trans (CommandLine.keepsFiles_runInspect a w)
  · next a h => exact CommandLine.leaves_generate h w
  · trivial

end EventCodegen
