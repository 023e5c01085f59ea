import EventCodegen.Proofs.ReportedGenerations

/-! What commands show. A marked text that can be shown is shown (`CommandLine.reports_say`), and so
are the results of a command: the table of languages, always; the table of event types, whose texts
are escaped or made of identifiers; and a generation whose paths and package are harmless. The
report of a failure is always shown, so a failure that is reported ends in the exit code of one
(`CommandLine.apply_report`). -/
namespace EventCodegen

namespace Display

/-! ## Marked texts -/

/-- A text in a style. -/
def styled (style text : String) : String := "[" ++ style ++ "]" ++ text ++ "[/" ++ style ++ "]"

theorem shows_styled (style : String) {text rest : String} (hstyle : IsStyle style.toList)
    (htext : Opening text.toList) (hrest : Shows rest.toList) :
    Shows (styled style text ++ rest).toList := by
  simpa [styled] using Shows.styled hstyle htext hrest

theorem shows_of_no_bracket {text : String} (h : '[' ∉ text.toList) : Shows text.toList :=
  shows_opening (opening_of_no_bracket h)

theorem no_bracket_append {a b : String} (ha : '[' ∉ a.toList) (hb : '[' ∉ b.toList) :
    '[' ∉ (a ++ b).toList := by
  rw [String.toList_append, List.mem_append, not_or]
  exact ⟨ha, hb⟩

theorem shows_empty : Shows "".toList := shows_of_no_bracket (by decide)

theorem shows_after (before : String) {rest : String} (h : '[' ∉ before.toList)
    (hlast : before.toList.getLast? ≠ some '\\') (hrest : Shows rest.toList) :
    Shows (before ++ rest).toList := by
  rw [String.toList_append]
  exact hrest.append h hlast

end Display

open Display

namespace Failure

/-- No kind of failure has a tag in its name. -/
theorem no_bracket_kind (e : Failure) : '[' ∉ e.kind.toList := by
  cases e with
  | templateText e => cases e <;> simp [kind, TemplateFault.kind]
  | file e =>
    rw [kind]
    cases e.fault <;> decide
  | misuse e => cases e <;> simp [kind, Misuse.kind]
  | _ => simp [kind]

/-- What is shown of a failure. -/
theorem shows_report (e : Failure) :
    Shows ("[red]✗ " ++ e.kind ++ ":[/red] " ++ escape e.message).toList := by
  have hkind : '[' ∉ ("✗ " ++ e.kind ++ ":").toList :=
    no_bracket_append (no_bracket_append (by decide) e.no_bracket_kind) (by decide)
  have hmessage := shows_after " " (by decide) (by decide) (shows_escape e.message)
  have hshows := shows_styled "red" ⟨by decide, by decide⟩
    (opening_of_no_bracket hkind) hmessage
  simpa [styled] using hshows

end Failure

namespace CommandLine

/-! ## Showing -/

variable {w : World}

theorem reports_say {markup : String} (h : Shows markup.toList) :
    (say markup).Reports (fun _ _ => True) w := by
  obtain ⟨s, hs⟩ := Option.isSome_iff_exists.mp (shown?_of_shows h)
  unfold say
  rw [hs]
  exact .step rfl trivial

theorem reports_showLines {lines : Option (List (List Char))} (h : lines.isSome = true) :
    (showLines lines).Reports (fun _ _ => True) w := by
  obtain ⟨ls, rfl⟩ := Option.isSome_iff_exists.mp h
  exact .step rfl trivial

/-- The report of a failure is shown, and the program ends with the exit code of one. -/
theorem apply_report {e : Failure} (h : e.isReported = true) (w : World) :
    ∃ w', (report e).apply w = (.ok 1, w') ∧ w'.files = w.files := by
  obtain ⟨s, hs⟩ := Option.isSome_iff_exists.mp (shown?_of_shows e.shows_report)
  have hshown (w : World) : (do say ("[red]✗ " ++ e.kind ++ ":[/red] " ++ escape e.message)
                                return 1 : Run Nat).apply w =
      (.ok 1, { w with display := w.display ++ [paragraph columns s] }) := by
    unfold say
    rw [hs]
    rfl
  unfold report
  dsimp only
  rw [h]
  simp only [Bool.not_true, Bool.false_eq_true, if_false]
  split
  · exact ⟨_, hshown w, rfl⟩
  · rw [Run.apply_bind, Run.apply_note]
    exact ⟨_, hshown _, rfl⟩

/-- A failure that is not reported passes. -/
theorem apply_report_of_unreported {e : Failure} (h : e.isReported = false) (w : World) :
    (report e).apply w = (.error e, w) := by
  unfold report
  dsimp only
  rw [h]
  rfl

/-! ## Generations -/

theorem shows_wrote {path rest : String} (hpath : Opening path.toList) (hrest : Shows rest.toList) :
    Shows ("[green]✓[/green] Wrote [cyan]" ++ path ++ ("[/cyan]" ++ rest)).toList := by
  have hend := shows_styled "cyan" ⟨by decide, by decide⟩ hpath hrest
  have hshows := shows_styled "green" ⟨by decide, by decide⟩
    (opening_of_no_bracket (v := "✓".toList) (by decide))
    (shows_after " Wrote " (by decide) (by decide) hend)
  simpa [styled] using hshows

/-- Where the file of the base type has been written. -/
theorem shows_base {path destination : String} (hpath : Opening path.toList)
    (hdestination : Opening destination.toList) :
    Shows ("[green]✓[/green] Wrote [cyan]" ++ path ++ "[/cyan] to [cyan]" ++ destination ++
      "[/cyan]").toList := by
  have hend := shows_styled "cyan" ⟨by decide, by decide⟩ hdestination shows_empty
  have hshows := shows_wrote hpath (shows_after " to " (by decide) (by decide) hend)
  simpa [styled] using hshows

theorem shows_warning (w : Warning) :
    Shows ("  [yellow]•[/yellow] " ++ escape w.message).toList := by
  have hmessage := shows_after " " (by decide) (by decide) (shows_escape w.message)
  have hshows := shows_after "  " (by decide) (by decide)
    (shows_styled "yellow" ⟨by decide, by decide⟩
      (opening_of_no_bracket (v := "•".toList) (by decide)) hmessage)
  simpa [styled] using hshows

theorem opening_number (n : Nat) : Opening (toString n).toList := by
  refine opening_of_no_bracket fun hmem => ?_
  have hdigit := Naming.isDigit_of_mem_toString hmem
  revert hdigit
  decide

theorem reports_showFiles {files : List GeneratedFile}
    (h : ∀ f ∈ files, Opening f.path.text.toList) :
    (showFiles files).Reports (fun _ _ => True) w := by
  induction files generalizing w with
  | nil => exact .pure trivial
  | cons f rest ih =>
    rw [List.forall_mem_cons] at h
    have htitle : Shows ("📄 " ++ f.path.text).toList :=
      shows_after "📄 " (by decide) (by decide) (shows_opening h.1)
    have hlines : (Panel.lines? columns ⟨"📄 " ++ f.path.text, f.content⟩).isSome = true :=
      Panel.isSome_lines? (p := ⟨"📄 " ++ f.path.text, f.content⟩) htitle columns
    exact .bind (reports_showLines hlines) fun _ _ _ => ih h.2

theorem reports_showLocations {locations : List String}
    (h : ∀ location ∈ locations, Opening location.toList) :
    (showLocations locations).Reports (fun _ _ => True) w := by
  induction locations generalizing w with
  | nil => exact .pure trivial
  | cons location rest ih =>
    rw [List.forall_mem_cons] at h
    have hshows := shows_wrote h.1 shows_empty
    rw [String.append_empty] at hshows
    exact .bind (reports_say hshows) fun _ _ _ => ih h.2

theorem reports_showWarnings (warnings : List Warning) :
    (showWarnings warnings).Reports (fun _ _ => True) w := by
  induction warnings generalizing w with
  | nil => exact .pure trivial
  | cons warning rest ih => exact .bind (reports_say (shows_warning warning)) fun _ _ _ => ih

theorem isSome_metadataTable {m : Metadata} (h : Opening m.package.display.toList) :
    (metadataTable m).lines?.isSome = true := by
  have hrow {name value : String} (hname : '[' ∉ name.toList) (hvalue : Opening value.toList) :
      ∀ markup ∈ [name, value], Shows markup.toList := by
    rw [List.forall_mem_cons, List.forall_mem_singleton]
    exact ⟨shows_of_no_bracket hname, shows_opening hvalue⟩
  have htarget : Opening m.target.name.toList ∧ Opening m.target.extension.toList := by
    cases m.target <;> exact ⟨opening_of_no_bracket (by decide), opening_of_no_bracket (by decide)⟩
  have htitle : Shows "📊 Generation Metadata".toList := shows_of_no_bracket (by decide)
  refine Table.isSome_lines? (hrow (by decide) (opening_of_no_bracket (by decide))) ?_ htitle
  unfold metadataTable
  dsimp only
  refine List.forall_mem_cons.mpr ⟨hrow (by decide) htarget.1, ?_⟩
  refine List.forall_mem_cons.mpr ⟨hrow (by decide) htarget.2, ?_⟩
  refine List.forall_mem_cons.mpr ⟨hrow (by decide) h, ?_⟩
  refine List.forall_mem_cons.mpr ⟨hrow (by decide) (opening_number _), ?_⟩
  refine List.forall_mem_cons.mpr ⟨hrow (by decide) (opening_number _), ?_⟩
  refine List.forall_mem_cons.mpr ⟨hrow (by decide) (opening_number _), ?_⟩
  refine List.forall_mem_cons.mpr ⟨hrow (by decide) (opening_number _), ?_⟩
  exact List.forall_mem_singleton.mpr (hrow (by decide) (opening_number _))

theorem reports_showMetadata {counted : Option Metadata}
    (h : ∀ m, counted = some m → Opening m.package.display.toList) :
    (showMetadata counted).Reports (fun _ _ => True) w := by
  cases counted with
  | none => exact .pure trivial
  | some m =>
    exact .bind (P := fun _ _ => True) (.step rfl trivial) fun _ _ _ =>
      reports_showLines (isSome_metadataTable (h m rfl))

/-- A generation is shown: the files or where they are, what was counted, and the warnings. -/
theorem reports_showGeneration (a : Arguments) {g : Generation} (h : g.Showable) :
    (showGeneration a g).Reports (fun _ _ => True) w := by
  have hcounted : ∀ m, (if a.verbose then g.metadata else none) = some m →
      Opening m.package.display.toList := by
    intro m hm
    split at hm
    · exact h.package m hm
    · cases hm
  have hheading : Shows "\n[yellow]⚠️  Warnings:[/yellow]".toList := by
    have hwords : Opening "⚠️  Warnings:".toList := opening_of_no_bracket (by decide)
    exact shows_after "\n" (by decide) (by decide)
      (shows_styled "yellow" ⟨by decide, by decide⟩ hwords shows_empty)
  have hend (w : World) : (do
      showMetadata (if a.verbose then g.metadata else none)
      if !g.warnings.isEmpty then
        say "\n[yellow]⚠️  Warnings:[/yellow]"
        showWarnings g.warnings : Run Unit).Reports (fun _ _ => True) w := by
    refine .bind (reports_showMetadata hcounted) fun _ _ _ => ?_
    split
    · exact .bind (reports_say hheading) fun _ _ _ => reports_showWarnings g.warnings
    · exact .pure trivial
  unfold showGeneration
  dsimp only
  split
  · exact .bind (reports_showFiles h.files) fun _ w _ => hend w
  · exact .bind (reports_showLocations h.locations) fun _ w _ => hend w

/-! ## Event types and languages -/

theorem shows_cellOr {whenMissing text : String} (hmissing : '[' ∉ whenMissing.toList)
    (h : Shows text.toList) : Shows (cellOr whenMissing text).toList := by
  unfold cellOr
  split
  · have hshows := shows_styled "dim" ⟨by decide, by decide⟩
      (opening_of_no_bracket hmissing) shows_empty
    simpa [styled] using hshows
  · exact h

/-- The row of an event type: escaped texts, and names that are identifiers. -/
theorem shows_eventRow {s : Session} {c : Category} {m : CategoryModule}
    (hm : s.moduleOf c = .ok m) {t : EventType} (ht : t ∈ m.eventTypes) :
    ∀ markup ∈ eventRow m t, Shows markup.toList := by
  have hidentifier {name : String} (h : Naming.isIdentifier name.toList = true) :
      '[' ∉ name.toList := Naming.not_mem_of_isIdentifier h (by decide)
  have hcontainer := hidentifier (CategoryModule.allows_containerName hm).1
  have htype := hidentifier (CategoryModule.allows_typeName hm ht).1
  have hname : '[' ∉ (m.containerName ++ "." ++ t.name).toList :=
    no_bracket_append (no_bracket_append hcontainer (by decide)) htype
  have hshape : '[' ∉ (if t.isSimple then "singleton" else "record").toList := by
    split <;> decide
  have hfields : '[' ∉ (Text.joined ", " (t.fields.map (·.name))).toList :=
    Text.not_mem_joined (by decide) (List.forall_mem_map.mpr fun f hf =>
      hidentifier (CategoryModule.allows_fieldName hm ht hf).1)
  unfold eventRow
  simp only [List.forall_mem_cons]
  exact ⟨shows_escape _, shows_escape _, shows_of_no_bracket hname, shows_of_no_bracket hshape,
    shows_cellOr (by decide) (shows_escape _),
    shows_cellOr (by decide) (shows_of_no_bracket hfields), nofun⟩

theorem isSome_eventTable {s : Session} {modules : List CategoryModule}
    (h : ∀ m ∈ modules, ∃ c, s.moduleOf c = .ok m) : (eventTable modules).lines?.isSome = true := by
  have hhead : ∀ markup ∈ ["Category", "Event", "Type", "Shape", "Screen", "Fields"],
      '[' ∉ markup.toList := by decide
  have htitle : Shows "📋 Schema Events".toList := shows_of_no_bracket (by decide)
  refine Table.isSome_lines? (fun markup hmarkup => shows_of_no_bracket (hhead markup hmarkup)) ?_
    htitle
  intro row hrow
  obtain ⟨m, hm, hrow⟩ := List.mem_flatMap.mp hrow
  obtain ⟨t, ht, rfl⟩ := List.mem_map.mp hrow
  obtain ⟨c, hc⟩ := h m hm
  exact shows_eventRow hc ht

/-- How many categories and predefined values there are. -/
theorem shows_counts (categories values : Nat) :
    Shows ("[bold]" ++ toString categories ++ "[/bold] categories, [bold]" ++ toString values ++
      "[/bold] predefined values").toList := by
  have hvalues : Shows " predefined values".toList := shows_of_no_bracket (by decide)
  have hend := shows_styled "bold" ⟨by decide, by decide⟩ (opening_number values) hvalues
  have hshows := shows_styled "bold" ⟨by decide, by decide⟩ (opening_number categories)
    (shows_after " categories, " (by decide) (by decide) hend)
  simpa [styled] using hshows

/-- The description of a language that is always there. -/
def described (t : Target) : Registry.Description :=
  { target := t
    aliases := Registry.builtIn.aliasesOf t.name
    package := .text t.defaultPackage }

theorem outcome_describe (t : Target) (files : FileTree) :
    (Registry.builtIn.describe .builtIn files (.text t.name)).outcome = .ok (described t) := by
  cases t <;> rfl

theorem shows_languageRow (t : Target) :
    ∀ markup ∈ languageRow t.name (described t), Shows markup.toList := by
  have haliases : '[' ∉ (Text.joined ", " (described t).aliases).toList := by
    have hall : ∀ m ∈ Registry.builtIn.aliases, '[' ∉ m.1.toList := by decide
    exact Text.not_mem_joined (by decide) fun name hname =>
      hall _ (Registry.mem_aliasesOf.mp hname)
  have htarget : '[' ∉ t.name.toList ∧ '[' ∉ t.extension.toList ∧ '[' ∉ t.generatorName.toList ∧
      '[' ∉ t.defaultPackage.toList := by
    cases t <;> decide
  obtain ⟨hname, hextension, hgenerator, hpackage⟩ := htarget
  unfold languageRow
  simp only [List.forall_mem_cons]
  exact ⟨shows_of_no_bracket hname, shows_of_no_bracket hextension, shows_of_no_bracket hgenerator,
    shows_cellOr (by decide) (shows_of_no_bracket haliases), shows_of_no_bracket hpackage, nofun⟩

/-- The languages that are always there are described, whatever files there are. -/
theorem reported_describeAll (files : FileTree) :
    Reported (fun languages => ∀ l ∈ languages, ∃ t, l = (Target.name t, described t))
      (Registry.builtIn.describeAll .builtIn files).outcome := by
  refine .mapM fun name hname => ?_
  have htarget : ∃ t : Target, name = t.name := by
    rw [Registry.languageNames, List.mem_mergeSort] at hname
    obtain ⟨m, hm, rfl⟩ := List.mem_map.mp hname
    obtain ⟨t, _, rfl⟩ := List.mem_map.mp hm
    exact ⟨t, rfl⟩
  obtain ⟨t, rfl⟩ := htarget
  rw [Traced.outcome_bind, outcome_describe]
  exact .ok ⟨t, rfl⟩

theorem isSome_languageTable {languages : List (String × Registry.Description)}
    (h : ∀ l ∈ languages, ∃ t, l = (Target.name t, described t)) :
    (languageTable languages).lines?.isSome = true := by
  have hhead : ∀ markup ∈ ["Language", "Extension", "Generator Class", "Aliases",
      "Default Package"], '[' ∉ markup.toList := by decide
  have htitle : Shows "📋 Supported Languages".toList := shows_of_no_bracket (by decide)
  refine Table.isSome_lines? (fun markup hmarkup => shows_of_no_bracket (hhead markup hmarkup)) ?_
    htitle
  intro row hrow
  obtain ⟨l, hl, rfl⟩ := List.mem_map.mp hrow
  obtain ⟨t, rfl⟩ := h l hl
  exact shows_languageRow t

end CommandLine
end EventCodegen
