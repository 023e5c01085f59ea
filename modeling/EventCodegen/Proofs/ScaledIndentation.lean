import EventCodegen.Proofs.WellFormedFiles

/-! Steps of indentation of another width. The lines of a text laid out in steps of `n` spaces are
those of the text laid out in steps of four, each with its leading spaces rescaled and nothing else
changed (`lines_format_eq`), so a run with steps of `n` spaces gives the same as one with steps of
four, with every file rescaled (`outcome_rendered_indented`). No literal of a generated file changes
by that, unless it goes over several lines (`indentation_scales`). -/
namespace EventCodegen

namespace Layout

/-! ## Rescaled lines -/

/-- A line with `n` spaces for every four at its beginning, and any others left over after them. -/
def rescaled (n : Nat) (l : List Char) : List Char :=
  List.replicate (margin l / 4 * n + margin l % 4) ' ' ++ content l

/-- A line with the number of its leading spaces multiplied by `n / 4`. -/
def stretched (n : Nat) (l : List Char) : List Char :=
  List.replicate (margin l * n / 4) ' ' ++ content l

theorem reindent_eq_rescaled (n : Nat) (l : List Char) : reindent n l = rescaled n l := by
  have hscaled : scaled n (margin l) = margin l / 4 * n + margin l % 4 := by
    unfold scaled
    omega
  rw [reindent_eq, hscaled, rescaled]

theorem rescaled_nil (n : Nat) : rescaled n [] = [] := by
  simp [rescaled, margin, content]

theorem not_mem_rescaled {n : Nat} {l : List Char} (h : '\n' ∉ l) : '\n' ∉ rescaled n l := by
  rw [← reindent_eq_rescaled]
  exact not_mem_reindent h

/-- A line of spaces keeps at least one of them. -/
theorem isEmpty_rescaled {n : Nat} (hn : 1 ≤ n) (l : List Char) :
    (rescaled n l).isEmpty = l.isEmpty := by
  have hlength : l.length = margin l + (content l).length := by
    have h := congrArg List.length (eq_replicate_append l)
    rwa [List.length_append, List.length_replicate] at h
  have hrescaled : (rescaled n l).length =
      margin l / 4 * n + margin l % 4 + (content l).length := by
    rw [rescaled, List.length_append, List.length_replicate]
  have hsteps : margin l / 4 * n = 0 ↔ margin l / 4 = 0 := by
    rw [Nat.mul_eq_zero]
    omega
  rw [← Bool.coe_iff_coe, List.isEmpty_iff_length_eq_zero, List.isEmpty_iff_length_eq_zero,
    hrescaled, hlength]
  omega

/-- The lines of a text laid out in steps of `n` spaces. -/
theorem lines_format_eq {n : Nat} (hn : 1 ≤ n) (s : List Char) :
    Text.lines (format n s) = (Text.lines (format 4 s)).map (rescaled n) := by
  have hfour : formattedLines 4 s = tidyLines s := List.map_id'' reindent_four (tidyLines s)
  have hformatted : formattedLines n s = (formattedLines 4 s).map (rescaled n) := by
    rw [hfour]
    exact List.map_congr_left fun l _ => reindent_eq_rescaled n l
  have hbreak : ∀ l ∈ Text.dropOuterEmpty (formattedLines 4 s), '\n' ∉ l :=
    fun _ hl => not_mem_formattedLines (Text.dropOuterEmpty_subset _ hl)
  rw [lines_format, lines_format, hformatted, Text.dropOuterEmpty_map (isEmpty_rescaled hn),
    List.map_append, List.map_singleton, rescaled_nil,
    Text.map_lines_unlines (rescaled_nil n) not_mem_rescaled hbreak]

theorem rescaled_eq_stretched {n : Nat} {l : List Char} (h : 4 ∣ margin l) :
    rescaled n l = stretched n l := by
  obtain ⟨k, hk⟩ := h
  have hspaces : 4 * k / 4 * n + 4 * k % 4 = 4 * k * n / 4 := by
    rw [Nat.mul_div_cancel_left k (by decide), Nat.mul_mod_right, Nat.mul_assoc,
      Nat.mul_div_cancel_left (k * n) (by decide), Nat.add_zero]
  rw [rescaled, stretched, hk, hspaces]

end Layout

/-! ## Rescaled runs -/

/-- A file with its lines rescaled. -/
def GeneratedFile.rescaled (n : Nat) (f : GeneratedFile) : GeneratedFile :=
  let lines := (Text.lines f.content.toList).map (Layout.rescaled n)
  { f with content := String.ofList (Text.unlines lines) }

/-- What a run gives back, with the lines of every file rescaled. -/
def Generation.rescaled (n : Nat) (g : Generation) : Generation :=
  { g with files := g.files.map (·.rescaled n) }

theorem GeneratedFile.lines_rescaled (n : Nat) (f : GeneratedFile) :
    Text.lines (f.rescaled n).content.toList =
      (Text.lines f.content.toList).map (Layout.rescaled n) := by
  have hne : (Text.lines f.content.toList).map (Layout.rescaled n) ≠ [] := by
    rw [ne_eq, List.map_eq_nil_iff]
    exact List.splitOn_ne_nil _ _
  rw [rescaled, String.toList_ofList, Text.lines_unlines hne]
  exact List.forall_mem_map.mpr fun l hl =>
    Layout.not_mem_rescaled (Text.not_mem_of_mem_lines hl)

/-- A file with steps of four spaces becomes the one with steps of `n` spaces. -/
theorem GeneratedFile.rescaled_format {n : Nat} (hn : 1 ≤ n) (path : Path) (s : List Char)
    (kind : FileKind) : rescaled n ⟨path, String.ofList (Layout.format 4 s), kind⟩ =
      ⟨path, String.ofList (Layout.format n s), kind⟩ := by
  have hself : Text.unlines (Text.lines (Layout.format n s)) = Layout.format n s :=
    List.intercalate_splitOn '\n'
  have hlines := Layout.lines_format_eq hn s
  rw [rescaled, String.toList_ofList, ← hlines, hself]

namespace Session

section
variable {n : Nat} (hn : 1 ≤ n) (s : Session)
include hn

theorem warnings_indented :
    (s.indented n).settings.warnings = (s.indented 4).settings.warnings := by
  have hwidth : ∀ k : Nat, 1 ≤ k → Settings.indentWarnings (.int k) = .ok [] := by
    intro k hk
    have hbelow : decide ((k : Int) < 1) = false := by
      rw [decide_eq_false_iff_not]
      omega
    show Except.ok (if decide ((k : Int) < 1) then _ else _) = _
    rw [hbelow]
    rfl
  unfold Settings.warnings
  show (_ >>= fun l => _ >>= fun p => Settings.indentWarnings (.int n) >>= _) =
    (_ >>= fun l => _ >>= fun p => Settings.indentWarnings (.int (4 : Nat)) >>= _)
  rw [hwidth n hn, hwidth 4 (by decide)]
  rfl

theorem categoryFile_indented (m : CategoryModule) :
    (s.indented n).categoryFile m = ((s.indented 4).categoryFile m).map (·.rescaled n) := by
  have hfile : ∀ k : Nat, (s.indented k).categoryFile m = _ :=
    fun k => categoryFile_ok (n := k) rfl m
  rw [hfile, hfile]
  exact congrArg Except.ok (GeneratedFile.rescaled_format hn _ _ .category).symm

theorem baseFile_indented :
    (s.indented n).baseFile = ((s.indented 4).baseFile).map (·.rescaled n) := by
  have hpackage : ∀ k : Nat, (s.indented k).settings.package = s.settings.package := fun _ => rfl
  unfold baseFile
  rw [laidOut_ok (n := n) rfl, laidOut_ok (n := 4) rfl, hpackage, hpackage]
  cases s.settings.package.text? with
  | none => rfl
  | some package => exact congrArg Except.ok (GeneratedFile.rescaled_format hn _ _ .base).symm

theorem buildFiles_indented (categories : List Category) :
    ((s.indented n).buildFiles categories).outcome =
      ((s.indented 4).buildFiles categories).outcome.map
        (·.map fun b => (b.1, b.2.rescaled n)) := by
  induction categories with
  | nil => rfl
  | cons c rest ih =>
    have hmodule : (s.indented n).moduleOf c = (s.indented 4).moduleOf c := rfl
    rw [outcome_buildFiles_cons, outcome_buildFiles_cons, hmodule, ih]
    cases (s.indented 4).moduleOf c with
    | error e => rfl
    | ok m =>
      have hfile := categoryFile_indented hn s m
      cases hfour : (s.indented 4).categoryFile m with
      | error e =>
        rw [hfour] at hfile
        simp only [bind, Except.bind, Except.mapError, hfile, hfour, Except.map]
      | ok f =>
        rw [hfour] at hfile
        cases ((s.indented 4).buildFiles rest).outcome with
        | error e => simp only [bind, Except.bind, Except.mapError, hfile, hfour, Except.map]
        | ok more =>
          simp only [bind, Except.bind, Except.mapError, hfile, hfour, Except.map, List.map_cons]

/-- A run with steps of `n` spaces gives what one with steps of four gives, rescaled. -/
theorem outcome_rendered_indented (text : String) :
    ((s.indented n).rendered text).outcome =
      ((s.indented 4).rendered text).outcome.map (·.rescaled n) := by
  cases hplan : Plan.parse text with
  | error fault =>
    unfold rendered readPlan
    rw [hplan]
    rfl
  | ok categories =>
    rw [outcome_rendered hplan, outcome_rendered hplan, outcome_generation, outcome_generation,
      warnings_indented hn, buildFiles_indented hn, baseFile_indented hn]
    cases (s.indented 4).settings.warnings with
    | error e => rfl
    | ok own =>
      cases ((s.indented 4).buildFiles categories).outcome with
      | error e => rfl
      | ok built =>
        cases (s.indented 4).baseFile with
        | error e => rfl
        | ok base =>
          have hfiles : (built.map fun b => (b.1, b.2.rescaled n)).map (·.2) ++ [base.rescaled n] =
              (built.map (·.2) ++ [base]).map (·.rescaled n) := by simp
          have hmodules : (built.map fun b => (b.1, b.2.rescaled n)).map (·.1) =
              built.map (·.1) := by simp
          show Except.ok (Generation.mk (List.map _ (List.map _ built) ++ [_]) _
            (some (.ofModules _ _ (List.map _ (List.map _ built)))) _) = _
          rw [hfiles, hmodules]
          rfl

end

end Session

/-! ## Generated files -/

namespace Source

/-- The lines of a laid-out file begin with whole steps of four spaces, and where the lines that
they come from end in code they do. -/
theorem forall_lines_file {t : Target} {ls : List Line} (hsound : AllSound t ls) (hne : ls ≠ [])
    (hsettled : ∀ l ∈ ls, Settled t (l.body t)) :
    ∀ l ∈ Text.lines (Layout.format 4 (text t ls)), 4 ∣ Layout.margin l ∧ Settled t l := by
  have hlines := filter_lines_file hsound.neat hne 4
  have hread := (read_part hlines hsound hsettled).1
  intro l hl
  refine ⟨?_, hread l hl⟩
  by_cases hempty : l = []
  · subst hempty
    exact Nat.dvd_zero 4
  · obtain ⟨k, hk, _, rfl⟩ := exists_line_of_mem hsound hne hl hempty
    exact ⟨k.level, (margin_reindent_render (hsound k hk) 4).trans (Nat.mul_comm _ _)⟩

/-- The base file in Python is a fixed text. Its lines begin with whole steps of four spaces, and
those that begin within a literal are those of the description after the first. -/
theorem pythonBase_facts :
    (∀ comments, ∀ l ∈ Text.lines (Layout.format 4 (text .python (pythonBase comments))),
      4 ∣ Layout.margin l) ∧
    (∀ comments,
      continued .python (Text.lines (Layout.format 4 (text .python (pythonBase comments)))) =
        (pythonBaseAbout comments).tail.map (·.render .python)) ∧
    literals .python .code (Layout.format 2 (text .python (pythonBase true))) ≠
      literals .python .code (Layout.format 4 (text .python (pythonBase true))) := by
  decide +kernel

/-- Two lines at whose beginning a reader stands in the same place, and which have the same literals
unless they begin within one. -/
structure Alike (t : Target) (p q : Mode × List Char) : Prop where
  place : p.1 = q.1
  literals : q.1.isLiteral = false →
    literals t p.1 (p.2 ++ ['\n']) = literals t q.1 (q.2 ++ ['\n'])

theorem begun_rescaled (n : Nat) {t : Target} {m : Mode} (hm : m.Rests t) (ls : List (List Char)) :
    List.Forall₂ (Alike t) (begun t m (ls.map (Layout.rescaled n))) (begun t m ls) := by
  induction ls generalizing m with
  | nil => exact .nil
  | cons l rest ih =>
    have hafter : m.after t (Layout.rescaled n l ++ ['\n']) = m.after t (l ++ ['\n']) := by
      conv_rhs => rw [Layout.eq_replicate_append l]
      rw [Layout.rescaled, List.append_assoc, List.append_assoc, hm.after_spaces,
        hm.after_spaces]
    have hliterals (hcode : m.isLiteral = false) :
        literals t m (Layout.rescaled n l ++ ['\n']) = literals t m (l ++ ['\n']) := by
      have hspace : (m.isLiteral || (m.next t ' ').isLiteral) = false := by
        rw [hm.stays, hcode]
        rfl
      conv_rhs => rw [Layout.eq_replicate_append l]
      rw [Layout.rescaled, List.append_assoc, List.append_assoc, literals, literals,
        hm.pick_spaces hspace, hm.pick_spaces hspace]
    rw [List.map_cons, begun, begun, hafter]
    exact .cons ⟨rfl, hliterals⟩ (ih (hm.after_line l))

theorem flatMap_literals_of_alike {t : Target} {ps qs : List (Mode × List Char)}
    (h : List.Forall₂ (Alike t) ps qs) (hcode : ∀ q ∈ qs, q.1.isLiteral = false) :
    (ps.flatMap fun p => literals t p.1 (p.2 ++ ['\n'])) =
      qs.flatMap fun q => literals t q.1 (q.2 ++ ['\n']) := by
  induction h with
  | nil => rfl
  | cons hpq _ ih =>
    obtain ⟨hq, hrest⟩ := List.forall_mem_cons.mp hcode
    rw [List.flatMap_cons, List.flatMap_cons, hpq.literals hq, ih hrest]

/-- No literal changes with the spaces before lines that do not begin within one. -/
theorem literals_rescaled {t : Target} (n : Nat) {f : GeneratedFile} {ls : List (List Char)}
    (hlines : Text.lines f.content.toList = ls ++ [[]])
    (h : continued t (Text.lines f.content.toList) = []) :
    literals t .code (f.rescaled n).content.toList = literals t .code f.content.toList := by
  have hrescaled : Text.lines (f.rescaled n).content.toList =
      ls.map (Layout.rescaled n) ++ [[]] := by
    rw [f.lines_rescaled n, hlines, List.map_append, List.map_singleton, Layout.rescaled_nil]
  have hcode : ∀ q ∈ begun t .code ls, q.1.isLiteral = false := by
    rw [hlines, continued, List.map_eq_nil_iff, begun_append, List.filter_append,
      List.append_eq_nil_iff] at h
    intro q hq
    exact Bool.eq_false_iff.mpr (List.filter_eq_nil_iff.mp h.1 q hq)
  rw [Text.eq_flatMap_of_lines hrescaled, Text.eq_flatMap_of_lines hlines, literals_lines,
    literals_lines]
  exact flatMap_literals_of_alike (begun_rescaled n (rests_code t) ls) hcode

end Source

/-- What other steps make of a file with steps of four spaces: all its lines begin with whole steps,
so the number of their leading spaces is multiplied. No literal changes, unless it goes over several
lines, as nothing does but the description of the base type: the literals in a line are the same if
it begins outside of any. -/
structure GeneratedFile.Scales (t : Target) (comments : Bool) (n : Nat) (f : GeneratedFile) :
    Prop where
  steps : ∀ l ∈ Text.lines f.content.toList, 4 ∣ Layout.margin l
  lines : Text.lines (f.rescaled n).content.toList =
    (Text.lines f.content.toList).map (Layout.stretched n)
  alike : List.Forall₂ (Source.Alike t)
    (Source.begun t .code (Text.lines (f.rescaled n).content.toList))
    (Source.begun t .code (Text.lines f.content.toList))
  continued : Source.continued t (Text.lines f.content.toList) =
    if f.kind = .base then (Source.pythonBaseAbout comments).tail.map (·.render .python) else []
  literals : Source.continued t (Text.lines f.content.toList) = [] →
    Source.literals t .code (f.rescaled n).content.toList =
      Source.literals t .code f.content.toList

theorem GeneratedFile.scales_format {t : Target} {comments : Bool} (n : Nat) {f : GeneratedFile}
    {s : List Char} (hcontent : f.content = String.ofList (Layout.format 4 s))
    (hsteps : ∀ l ∈ Text.lines (Layout.format 4 s), 4 ∣ Layout.margin l)
    (hcontinued : Source.continued t (Text.lines (Layout.format 4 s)) =
      if f.kind = .base then (Source.pythonBaseAbout comments).tail.map (·.render .python)
      else []) : f.Scales t comments n := by
  have hlines : Text.lines f.content.toList = Text.lines (Layout.format 4 s) := by
    rw [hcontent, String.toList_ofList]
  refine ⟨?steps, ?lines, ?alike, ?continued, ?literals⟩
  case steps =>
    rw [hlines]
    exact hsteps
  case lines =>
    rw [f.lines_rescaled n, hlines]
    exact List.map_congr_left fun l hl => Layout.rescaled_eq_stretched (hsteps l hl)
  case alike =>
    rw [f.lines_rescaled n]
    exact Source.begun_rescaled n (Source.rests_code t) _
  case continued =>
    rw [hlines]
    exact hcontinued
  case literals =>
    rw [Layout.lines_format] at hlines
    exact Source.literals_rescaled n hlines

namespace Session

/-- The file of a category scales, whatever the plan says. -/
theorem scales_categoryFile {s : Session} {m : CategoryModule} (hm : m.Proper)
    (hwidth : Indent.ofJson s.generator.settings.indentSize = .spaces 4)
    (hpackage : Naming.IsPackage s.settings.packageText) {f : GeneratedFile}
    (h : s.categoryFile m = .ok f) (n : Nat) :
    f.Scales s.target s.generator.settings.hasComments n := by
  rw [categoryFile_ok hwidth] at h
  cases h
  have hlines := Source.forall_lines_file
    (Source.allSound_categoryLines hm s.target s.generator.settings.hasComments hpackage)
    (Source.categoryLines_ne_nil _ _ _ _)
    (Source.wellNested_categoryLines hm s.target _ hpackage).settled
  have hsettled := fun l hl => (hlines l hl).2
  exact GeneratedFile.scales_format n rfl (fun l hl => (hlines l hl).1)
    (Source.continued_of_settled hsettled)

/-- The file of the base type is that of the language for the settings of comments and package. -/
theorem content_of_baseFile {s : Session} {n : Int}
    (hwidth : Indent.ofJson s.generator.settings.indentSize = .spaces n) {f : GeneratedFile}
    (h : s.baseFile = .ok f) : f.kind = .base ∧
      f.content = String.ofList (Layout.format n (Source.text s.target
        (Source.baseLines s.target s.generator.settings.hasComments s.settings.packageText))) := by
  unfold baseFile at h
  rw [laidOut_ok hwidth] at h
  cases hpackage : s.settings.package.text? with
  | none =>
    rw [hpackage] at h
    cases h
  | some package =>
    rw [hpackage] at h
    rw [← Except.ok.inj h]
    exact ⟨rfl, rfl⟩

theorem scales_baseFile {s : Session} (hpython : s.target = .python)
    (hwidth : Indent.ofJson s.generator.settings.indentSize = .spaces 4) {f : GeneratedFile}
    (h : s.baseFile = .ok f) (n : Nat) :
    f.Scales s.target s.generator.settings.hasComments n := by
  obtain ⟨hkind, hcontent⟩ := content_of_baseFile hwidth h
  obtain ⟨hsteps, hcontinued, _⟩ := Source.pythonBase_facts
  rw [hpython] at hcontent ⊢
  refine GeneratedFile.scales_format n hcontent (hsteps _) ?_
  rw [if_pos hkind]
  exact hcontinued _

/-- Steps of any width. A text laid out in steps of `n` spaces has the lines of the one laid out in
steps of four, each with `n` leading spaces for every four and those left over after them. A run
gives the same with steps of `n` spaces as with steps of four, but for the lines of its files, which
are rescaled like this. Below a package of identifiers the lines of all files but that of the base
type in Kotlin begin with whole steps, so the number of their leading spaces is multiplied, and no
literal changes unless it goes on in a further line, as only the description of the base type does
in Python. -/
theorem indentation_scales {n : Nat} (hn : 1 ≤ n) :
    (∀ text : List Char, ∃ four out, Layout.format? (.ofJson (.int 4)) text = some four ∧
      Layout.format? (.ofJson (.int n)) text = some out ∧
      Text.lines out = (Text.lines four).map (Layout.rescaled n)) ∧
    ∀ (s : Session) (text : String),
      ((s.indented n).rendered text).outcome =
        ((s.indented 4).rendered text).outcome.map (·.rescaled n) ∧
      ∀ g, Naming.IsPackage s.settings.packageText →
        ((s.indented 4).rendered text).outcome = .ok g →
        ∀ f ∈ g.files, f.kind = .category ∨ s.target = .python →
          f.Scales s.target s.generator.settings.hasComments n := by
  refine ⟨fun text => ⟨_, _, rfl, rfl, Layout.lines_format_eq hn text⟩, fun s text =>
    ⟨s.outcome_rendered_indented hn text, ?_⟩⟩
  intro g hpackage h f hf hkind
  obtain ⟨categories, _, hgeneration⟩ := rendered_ok h
  obtain ⟨built, base, hbuilt, hbase, hfiles⟩ := generation_ok hgeneration
  rw [hfiles, List.mem_append, List.mem_singleton] at hf
  rcases hf with hf | rfl
  · obtain ⟨b, hb, rfl⟩ := List.mem_map.mp hf
    obtain ⟨c, _, hmodule, hfile⟩ := exists_left_of_mem hbuilt hb
    have hm := CategoryModule.proper_of_ofCategory hpackage hmodule
    exact scales_categoryFile (s := s.indented 4) hm rfl hpackage hfile n
  · obtain ⟨hother, _⟩ := content_of_baseFile (s := s.indented 4) (n := 4) rfl hbase
    rcases hkind with hcategory | hpython
    · rw [hother] at hcategory
      cases hcategory
    · exact scales_baseFile (s := s.indented 4) hpython rfl hbase n

theorem indentation_scales_narrow : ∃ g f,
    (((standard .kotlin).indented 4).rendered shopPlan).outcome = .ok g ∧
    (((standard .kotlin).indented 2).rendered shopPlan).outcome = .ok (g.rescaled 2) ∧
    f ∈ g.files ∧ f.kind = .category ∧ f.Scales .kotlin true 2 := by
  have hok : (((standard .kotlin).indented 4).rendered shopPlan).outcome.toOption.any
      (·.files.any (·.kind = .category)) = true := by decide +kernel
  have hpackage : Naming.IsPackage (standard .kotlin).settings.packageText :=
    ⟨["com", "example", "analytics", "events"], by decide, by decide⟩
  have hwidth : 1 ≤ 2 := by decide
  obtain ⟨hsame, hscales⟩ := (indentation_scales hwidth).2 (standard .kotlin) shopPlan
  cases hrendered : (((standard .kotlin).indented 4).rendered shopPlan).outcome with
  | error e =>
    rw [hrendered] at hok
    cases hok
  | ok g =>
    rw [hrendered] at hok hsame
    obtain ⟨f, hf, hkind⟩ := List.any_eq_true.mp hok
    have hcategory := of_decide_eq_true hkind
    exact ⟨g, f, rfl, hsame, hf, hcategory, hscales g hpackage hrendered f hf (Or.inl hcategory)⟩

/-- With comments the description of the base type in Python goes over several lines, so as a
literal it is not the same with steps of two spaces as with steps of four. -/
theorem description_rescaled : ∃ g₂ g₄ f₂ f₄,
    (((standard .python).indented 2).rendered "[]").outcome = .ok g₂ ∧ g₂.files = [f₂] ∧
    (((standard .python).indented 4).rendered "[]").outcome = .ok g₄ ∧ g₄.files = [f₄] ∧
    Source.literals .python .code f₂.content.toList ≠
      Source.literals .python .code f₄.content.toList := by
  have hnone : (Plan.parse "[]").toOption.map (·.length) = some 0 := by decide +kernel
  have hok : ∀ k ∈ [2, 4],
      (((standard .python).indented k).rendered "[]").outcome.toOption.isSome := by decide +kernel
  have hrun : ∀ k ∈ [2, 4], ∃ g f,
      (((standard .python).indented k).rendered "[]").outcome = .ok g ∧ g.files = [f] ∧
      f.content.toList = Layout.format k (Source.text .python (Source.pythonBase true)) := by
    intro k hk
    have hsome := hok k hk
    cases hrendered : (((standard .python).indented k).rendered "[]").outcome with
    | error e =>
      rw [hrendered] at hsome
      cases hsome
    | ok g =>
      obtain ⟨categories, hplan, hgeneration⟩ := rendered_ok hrendered
      rw [hplan] at hnone
      obtain rfl := List.length_eq_zero_iff.mp (Option.some.inj hnone)
      obtain ⟨built, base, hbuilt, hbase, hfiles⟩ := generation_ok hgeneration
      cases hbuilt
      obtain ⟨_, hcontent⟩ := content_of_baseFile (n := k) rfl hbase
      exact ⟨g, base, rfl, hfiles, by rw [hcontent, String.toList_ofList]; rfl⟩
  obtain ⟨g₂, f₂, h₂, hfiles₂, hcontent₂⟩ := hrun 2 (by decide)
  obtain ⟨g₄, f₄, h₄, hfiles₄, hcontent₄⟩ := hrun 4 (by decide)
  refine ⟨g₂, g₄, f₂, f₄, h₂, hfiles₂, h₄, hfiles₄, ?_⟩
  rw [hcontent₂, hcontent₄]
  exact Source.pythonBase_facts.2.2

end Session

end EventCodegen
