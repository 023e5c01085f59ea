import EventCodegen.CommandLine.Program
import EventCodegen.Proofs.Effects

/-! The parts of the program that leave the tree of files alone: fetching a plan, reading settings,
showing anything. The tree after a command line is therefore the one that its command leads to
(`files_program`), and a command that fails does not end in success (`program_ne_success`). -/
namespace EventCodegen

open Run

/-! ## Fetching a plan -/

namespace Loading

theorem keepsFiles_refuse {α : Type} (noted : String) (e : LoadError) :
    KeepsFiles (refuse noted e : Run α) :=
  .bind (.note _ _ _) fun _ => .fail _

theorem keepsFiles_fromFile (file : Json) : KeepsFiles (fromFile file) := by
  refine .bind (.ofExcept _) fun path => .bind (.note _ _ _) fun _ => .bind .get fun w => ?_
  dsimp only
  split
  · exact .fail _
  · exact .bind (.note _ _ _) fun _ => .fail _
  · refine .when (.note _ _ _) ?_
    split
    · exact keepsFiles_refuse _ _
    · split
      · exact keepsFiles_refuse _ _
      · exact .bind (.note _ _ _) fun _ => .pure _

theorem keepsFiles_receive (url : String) (timeout : Json) : KeepsFiles (receive url timeout) := by
  refine .bind (fun _ => rfl) fun response => ?_
  split
  · exact keepsFiles_refuse _ _
  · exact keepsFiles_refuse _ _
  · exact keepsFiles_refuse _ _
  · split
    · exact keepsFiles_refuse _ _
    · exact .when (.note _ _ _) (.bind (.note _ _ _) fun _ => .pure _)

theorem keepsFiles_fromUrl (url timeout : Json) : KeepsFiles (fromUrl url timeout) := by
  refine .bind (.note _ _ _) fun _ => ?_
  split
  · exact .fail _
  · split
    · exact .fail _
    · exact keepsFiles_refuse _ _
    · exact keepsFiles_receive _ _

theorem keepsFiles_fetch (file url timeout : Json) : KeepsFiles (fetch file url timeout) := by
  unfold fetch
  split
  · exact .fail _
  · exact .fail _
  · exact keepsFiles_fromFile file
  · exact keepsFiles_fromUrl url timeout

end Loading

namespace CommandLine

/-! ## Showing -/

theorem keepsFiles_say (markup : String) : KeepsFiles (say markup) := by
  unfold say
  split
  · exact .display _
  · exact .fail _

theorem keepsFiles_showLines (ls : Option (List (List Char))) : KeepsFiles (showLines ls) := by
  cases ls with
  | some ls => exact .display _
  | none => exact .fail _

theorem keepsFiles_showFiles : ∀ files : List GeneratedFile, KeepsFiles (showFiles files)
  | [] => .pure _
  | _ :: rest => .bind (keepsFiles_showLines _) fun _ => keepsFiles_showFiles rest

theorem keepsFiles_showLocations : ∀ locations : List String, KeepsFiles (showLocations locations)
  | [] => .pure _
  | _ :: rest => .bind (keepsFiles_say _) fun _ => keepsFiles_showLocations rest

theorem keepsFiles_showWarnings : ∀ warnings : List Warning, KeepsFiles (showWarnings warnings)
  | [] => .pure _
  | _ :: rest => .bind (keepsFiles_say _) fun _ => keepsFiles_showWarnings rest

theorem keepsFiles_showMetadata : ∀ counted : Option Metadata, KeepsFiles (showMetadata counted)
  | none => .pure _
  | some _ => .bind (.display _) fun _ => keepsFiles_showLines _

/-! ## Commands -/

theorem keepsFiles_configure (a : Arguments) : KeepsFiles (configure a) := by
  unfold configure
  dsimp only
  split
  · exact .bind (.ofTraced _) fun _ => .bind (.ofExcept _) fun _ => .bind .get fun _ =>
      .bind (.ofTraced _) fun _ => .pure _
  · exact .bind .get fun _ => .bind (.ofTraced _) fun _ => .bind (.ofExcept _) fun _ => .pure _

theorem keepsFiles_fetchPlan (a : Arguments) (s : Settings) : KeepsFiles (fetchPlan a s) :=
  .when (.fail _) (Loading.keepsFiles_fetch _ _ _)

theorem keepsFiles_runInspect (a : Arguments) : KeepsFiles (runInspect a) := by
  refine .bind (keepsFiles_configure a) fun ⟨registry, settings⟩ => ?_
  exact .bind (keepsFiles_fetchPlan a settings) fun _ => .bind (.ofTraced _) fun _ =>
    .bind (.ofExcept _) fun _ => .bind (.ofTraced _) fun _ =>
    .bind (keepsFiles_showLines _) fun _ => keepsFiles_say _

theorem keepsFiles_report (e : Failure) : KeepsFiles (report e) := by
  have hshown (markup : String) : KeepsFiles (do say markup; return 1) :=
    .bind (keepsFiles_say markup) fun _ => .pure 1
  refine .when (.fail e) ?_
  split
  · exact hshown _
  · exact .bind (.note _ _ _) fun _ => hshown _

theorem keepsFiles_showGeneration (a : Arguments) (g : Generation) :
    KeepsFiles (showGeneration a g) := by
  -- what is shown last, whether the files or their places were shown before
  have hend : KeepsFiles (do
      showMetadata (if a.verbose then g.metadata else none)
      if !g.warnings.isEmpty then
        say "\n[yellow]⚠️  Warnings:[/yellow]"
        showWarnings g.warnings) := by
    refine .bind (keepsFiles_showMetadata _) fun _ => ?_
    split
    · exact .bind (keepsFiles_say _) fun _ => keepsFiles_showWarnings _
    · exact .pure _
  unfold showGeneration
  dsimp only
  split
  · exact .bind (keepsFiles_showFiles _) fun _ => hend
  · exact .bind (keepsFiles_showLocations _) fun _ => hend

theorem keepsFiles_prepare (a : Arguments) : KeepsFiles (prepare a) := by
  refine .bind (keepsFiles_configure a) fun ⟨registry, settings⟩ => .bind (.display _) fun _ =>
    .bind (keepsFiles_fetchPlan a settings) fun _ => .bind (.ofExcept _) fun _ => ?_
  dsimp only
  split
  · exact .bind (.pure _) fun _ => .pure _
  · exact .bind (.ofExcept _) fun _ => .pure _

/-! ## Whole runs -/

/-- A failure that is shown does not end the program with success. -/
theorem report_ne_success (e : Failure) (w : World) : ((report e).apply w).1 ≠ .ok 0 := by
  have hshown (markup : String) (w : World) :
      ((do say markup; return 1 : Run Nat).apply w).1 ≠ .ok 0 := by
    rw [apply_bind]
    rcases (say markup).apply w with ⟨e | _, w'⟩
    · intro hok
      cases hok
    · intro hok
      cases hok
  unfold report
  dsimp only
  split
  · intro hok
    cases hok
  · split
    · exact hshown _ w
    · rw [apply_bind, apply_note]
      exact hshown _ _

theorem apply_perform (c : Command) (a : Arguments) (w : World) :
    (perform c a).apply w = match (c.run a).apply w with
      | (.ok _, w') => (.ok 0, w')
      | (.error e, w') => (report e).apply w' := by
  rw [perform, apply_tryCatch, apply_bind]
  rcases (c.run a).apply w with ⟨e | _, w'⟩
  · rfl
  · rfl

/-- The files after a command line are those after its command. -/
theorem files_program {words : List String} {c : Command} {a : Arguments}
    (h : read words = .run c a) (w : World) :
    ((program words).apply w).2.files = ((c.run a).apply w).2.files := by
  unfold program
  rw [h]
  dsimp only
  rw [KeepsFiles.files_bind fun _ => .pure _, apply_perform]
  rcases (c.run a).apply w with ⟨e | _, w'⟩
  · exact keepsFiles_report e w'
  · rfl

/-- A command that fails does not end the program with success. -/
theorem program_ne_success {words : List String} {c : Command} {a : Arguments}
    (h : read words = .run c a) {w : World} {e : Failure} {w' : World}
    (hrun : (c.run a).apply w = (.error e, w')) :
    ((program words).apply w).1 ≠ .ok { code := 0 } := by
  unfold program
  rw [h]
  dsimp only
  rw [apply_bind, apply_perform, hrun]
  have hreport := report_ne_success e w'
  dsimp only
  rcases hr : (report e).apply w' with ⟨e' | n, w''⟩ <;> rw [hr] at hreport
  · intro hok
    cases hok
  · intro hok
    cases hok
    exact hreport rfl

end CommandLine
end EventCodegen
