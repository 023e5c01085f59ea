import EventCodegen.Proofs.Bodies
import EventCodegen.Proofs.Brackets
import EventCodegen.Proofs.Generations

/-! Generated files are well formed. In Python every line that ends in a colon has its block, one
step of indentation deeper, and the brackets in the code are balanced; in Kotlin they are as well,
and the container of the category stays open up to the last line (`files_well_formed`). What is read
of a laid-out file, or of a part of it, is what is read of the lines that it was laid out from
(`read_part`). -/
namespace EventCodegen

namespace Source

/-! ## Reading a laid-out file -/

/-- What is open after some lines of a file, innermost first. -/
def openAfter (t : Target) (lines : List (List Char)) : Option (List Char) :=
  nest [] (brackets t .code (Text.unlines lines))

theorem flatMap_filter_of_nil {α β : Type} {f : α → List β} {p : α → Bool} {as : List α}
    (h : ∀ a ∈ as, p a = false → f a = []) : (as.filter p).flatMap f = as.flatMap f := by
  induction as with
  | nil => rfl
  | cons a rest ih =>
    obtain ⟨ha, hrest⟩ := List.forall_mem_cons.mp h
    cases hp : p a with
    | true => rw [List.filter_cons_of_pos hp, List.flatMap_cons, List.flatMap_cons, ih hrest]
    | false =>
      rw [List.filter_cons_of_neg (by simp [hp]), List.flatMap_cons, ha hp, ih hrest,
        List.nil_append]

section
variable {t : Target} {l : Line} {ls : List Line}

theorem settled_reindent (h : l.Sound t) (hs : Settled t (l.body t)) (n : Int) :
    Settled t (Layout.reindent n (l.render t)) := by
  rw [reindent_render h, settled_spaces_append]
  exact hs

theorem brackets_reindent (h : l.Sound t) (n : Int) :
    brackets t .code (Layout.reindent n (l.render t)) = brackets t .code (l.body t) := by
  rw [reindent_render h]
  exact (rests_code t).pick_spaces rfl _ _

theorem bracketsOf_filter (ls : List Line) :
    bracketsOf t (ls.filter (!·.pieces.isEmpty)) = bracketsOf t ls := by
  refine flatMap_filter_of_nil fun l _ hl => ?_
  have hpieces : l.pieces = [] := by simpa using hl
  rw [Line.body, hpieces]
  rfl

/-- A line of a laid-out file that is not empty is one of those that it was laid out from. -/
theorem exists_line_of_mem (hsound : AllSound t ls) (hne : ls ≠ []) {n : Int} {s : List Char}
    (hs : s ∈ Text.lines (Layout.format n (text t ls))) (hsome : s ≠ []) :
    ∃ k ∈ ls, k.pieces ≠ [] ∧ s = Layout.reindent n (k.render t) := by
  have hmem : s ∈ (Text.lines (Layout.format n (text t ls))).filter (!·.isEmpty) :=
    List.mem_filter.mpr ⟨hs, by simpa using hsome⟩
  rw [filter_lines_file hsound.neat hne] at hmem
  obtain ⟨_, hshown, heq⟩ := List.mem_map.mp hmem
  obtain ⟨k, hk, rfl⟩ := List.mem_map.mp hshown
  obtain ⟨hk, hpieces⟩ := List.mem_filter.mp hk
  exact ⟨k, hk, by simpa using hpieces, heq.symm⟩

/-- Lines that are laid out, empty ones aside, as some lines are in code at their ends and show the
brackets of those. -/
theorem read_part {part : List (List Char)} {n : Int}
    (hpart : part.filter (!·.isEmpty) = (shown t ls).map (Layout.reindent n))
    (hsound : AllSound t ls) (hsettled : ∀ l ∈ ls, Settled t (l.body t)) :
    (∀ k ∈ part, Settled t k) ∧ part.flatMap (brackets t .code) = bracketsOf t ls := by
  have hempty : Settled t [] := by
    cases t with
    | python => rfl
    | kotlin => rfl
  constructor
  · intro k hk
    cases k with
    | nil => exact hempty
    | cons c cs =>
      have hmem : (c :: cs) ∈ part.filter (!·.isEmpty) := List.mem_filter.mpr ⟨hk, rfl⟩
      rw [hpart] at hmem
      obtain ⟨_, hshown, heq⟩ := List.mem_map.mp hmem
      obtain ⟨l, hl, rfl⟩ := List.mem_map.mp hshown
      have hmem := List.mem_of_mem_filter hl
      rw [← heq]
      exact settled_reindent (hsound l hmem) (hsettled l hmem) n
  · have hnil : ∀ k ∈ part, (!k.isEmpty) = false → brackets t .code k = [] := by
      intro k _ hk
      obtain rfl : k = [] := by simpa using hk
      rfl
    rw [← flatMap_filter_of_nil hnil, hpart, shown, List.map_map, List.flatMap_map,
      ← bracketsOf_filter]
    exact List.flatMap_congr fun l hl =>
      brackets_reindent (hsound l (List.mem_of_mem_filter hl)) n

theorem openAfter_part {part : List (List Char)} {n : Int}
    (hpart : part.filter (!·.isEmpty) = (shown t ls).map (Layout.reindent n))
    (hsound : AllSound t ls) (h : WellNested t ls) : openAfter t part = some [] := by
  obtain ⟨hsettled, hshows⟩ := read_part hpart hsound h.settled
  rw [openAfter, brackets_unlines hsettled, hshows]
  exact h.balanced

end

/-! ## Python -/

/-- Lines of a file in Python where every line that ends in a colon has a body, `n` spaces deeper,
and the brackets in the code are balanced. -/
structure WellFormedPython (n : Nat) (lines : List (List Char)) : Prop where
  bodied : Layout.Bodied n lines
  balanced : openAfter .python lines = some []

/-- In a laid-out file a line is blank only if it is empty. -/
theorem isBlankLine_eq {t : Target} {ls : List Line} (hsound : AllSound t ls) (hne : ls ≠ [])
    {n : Int} {l : List Char} (hl : l ∈ Text.lines (Layout.format n (text t ls))) :
    Layout.isBlankLine l = l.isEmpty := by
  by_cases hempty : l = []
  · subst hempty
    rfl
  · obtain ⟨k, hk, hpieces, rfl⟩ := exists_line_of_mem hsound hne hl hempty
    rw [isBlankLine_reindent (hsound k hk) hpieces]
    exact (List.isEmpty_eq_false_iff.mpr hempty).symm

section
variable {m : CategoryModule} (hm : m.Proper) (comments : Bool) {package : String}
  (hpackage : Naming.IsPackage package) (n : Nat)
include hm hpackage

theorem wellFormed_python : WellFormedPython n
    (Text.lines (Layout.format n (text .python (categoryLines .python comments package m)))) := by
  have hsound := allSound_categoryLines hm .python comments hpackage
  have hne := categoryLines_ne_nil .python comments package m
  have hlines := filter_lines_file hsound.neat hne n
  refine ⟨Layout.bodied_filter (fun _ hl => isBlankLine_eq hsound hne hl) ?_, ?_⟩
  · rw [hlines]
    exact bodied_of_blocks (blocks_pythonCategory hm comments package) hsound n
  · exact openAfter_part hlines hsound (wellNested_categoryLines hm .python comments hpackage)

end

/-! ## Kotlin -/

/-- Lines of a file in Kotlin where the brackets in the code are balanced and the bracket of the
container, the only one that its line leaves open, stays open until the last line closes it. -/
structure WellFormedKotlin (container : String) (lines : List (List Char)) : Prop where
  balanced : openAfter .kotlin lines = some []
  closed : ∃ above inside,
    lines = above ++ ("object " ++ container ++ " \x7b").toList :: (inside ++ [['\x7d'], []]) ∧
    openAfter .kotlin above = some [] ∧
    ∀ part, part <+: inside → ∃ opened, openAfter .kotlin
      (above ++ ("object " ++ container ++ " \x7b").toList :: part) = some (opened ++ ['\x7b'])

/-- Where not all lines are empty, the last line before the line feed at the end is not. -/
theorem lines_format_ends {n : Int} {s : List Char}
    (h : (Text.lines (Layout.format n s)).filter (!·.isEmpty) ≠ []) : ∃ lines,
      Text.lines (Layout.format n s) = lines ++ [[]] ∧ ∀ l ∈ lines.getLast?, l ≠ [] := by
  have hlines := Layout.lines_format n s
  by_cases hne : Text.dropOuterEmpty (Layout.formattedLines n s) = []
  · rw [hlines, hne] at h
    exact absurd rfl h
  · have hbreak : ∀ l ∈ Text.dropOuterEmpty (Layout.formattedLines n s), '\n' ∉ l :=
      fun _ hl => Layout.not_mem_formattedLines (Text.dropOuterEmpty_subset _ hl)
    rw [Text.lines_unlines hne hbreak] at hlines
    refine ⟨_, hlines, ?_⟩
    intro l hl
    have hlast : ¬((Text.dropOuterEmpty (Layout.formattedLines n s)).getLast hne).isEmpty = true :=
      List.rdropWhile_last_not _ _ hne
    rw [List.getLast?_eq_some_getLast hne] at hl
    cases hl
    simpa using hlast

/-- What is kept of a list splits as the list does. -/
theorem split_of_filter {α : Type} {p : α → Bool} {as front back : List α} {x : α}
    (h : as.filter p = front ++ x :: back) : ∃ before after,
      as = before ++ x :: after ∧ before.filter p = front ∧ after.filter p = back := by
  obtain ⟨before, rest, rfl, hbefore, hrest⟩ := List.filter_eq_append_iff.mp h
  obtain ⟨gap, after, rfl, hgap, _, hafter⟩ := List.filter_eq_cons_iff.mp hrest
  have hnone : gap.filter p = [] := List.filter_eq_nil_iff.mpr hgap
  refine ⟨before ++ gap, after, by rw [List.append_assoc], ?_, hafter⟩
  rw [List.filter_append, hbefore, hnone, List.append_nil]

theorem reindent_render_top {t : Target} (n : Int) {s : String} (hs : Opens s.toList) :
    Layout.reindent n ((Line.code 0 s).render t) = s.toList := by
  have hbody : (Line.code 0 s).render t = s.toList := List.append_nil _
  have hmargin := Line.Opens.takeWhile_eq_nil hs
  rw [hbody, Layout.reindent_eq, Layout.margin, hmargin, Layout.content_eq_self hmargin]
  simp [Layout.scaled]

section
variable {m : CategoryModule} (hm : m.Proper) (comments : Bool) {package : String}
  (hpackage : Naming.IsPackage package) (n : Nat)
include hm hpackage

/-- A file in Kotlin is what stands above the container, the container and what stands in it, each
laid out, and its last line closes the container. -/
theorem exists_container : ∃ above inside,
    Text.lines (Layout.format n (text .kotlin (categoryLines .kotlin comments package m))) =
      above ++ ("object " ++ m.containerName ++ " \x7b").toList :: (inside ++ [['\x7d'], []]) ∧
    above.filter (!·.isEmpty) =
      (shown .kotlin (kotlinTop comments package m)).map (Layout.reindent n) ∧
    inside.filter (!·.isEmpty) =
      (shown .kotlin (kotlinMembers comments m)).map (Layout.reindent n) := by
  have hsound := allSound_categoryLines hm .kotlin comments hpackage
  have hopens : Opens ("object " ++ m.containerName ++ " \x7b").toList := by
    rw [String.toList_append, String.toList_append, List.append_assoc]
    exact Opens.append (by decide) _
  have hopen := reindent_render_top (t := .kotlin) n hopens
  have hclose : Layout.reindent n ((Line.code 0 "\x7d").render .kotlin) = ['\x7d'] :=
    reindent_render_top n (by decide)
  have hshown : shown .kotlin (categoryLines .kotlin comments package m) =
      shown .kotlin (kotlinTop comments package m) ++
        (Line.code 0 ("object " ++ m.containerName ++ " \x7b")).render .kotlin ::
          (shown .kotlin (kotlinMembers comments m) ++ [(Line.code 0 "\x7d").render .kotlin]) := by
    show shown .kotlin (kotlinCategory comments package m) = _
    rw [kotlinCategory_split, shown_append, shown_code, shown_append]
    rfl
  have hlines := filter_lines_file hsound.neat (categoryLines_ne_nil .kotlin comments package m) n
  rw [hshown, List.map_append, List.map_cons, List.map_append, List.map_singleton, hopen,
    hclose] at hlines
  have hsome : (Text.lines (Layout.format n (text .kotlin
      (categoryLines .kotlin comments package m)))).filter (!·.isEmpty) ≠ [] := by
    rw [hlines]
    exact List.append_ne_nil_of_right_ne_nil _ (List.cons_ne_nil _ _)
  obtain ⟨lines, heq, hlast⟩ := lines_format_ends hsome
  rw [heq, List.filter_append] at hlines
  have hend : ([[]] : List (List Char)).filter (!·.isEmpty) = [] := rfl
  rw [hend, List.append_nil] at hlines
  obtain ⟨above, rest, rfl, habove, hrest⟩ := split_of_filter hlines
  obtain ⟨inside, more, rfl, hinside, hmore⟩ := split_of_filter hrest
  -- no line follows the last bracket, as it would be empty
  have hnone : more = [] := by
    rcases List.eq_nil_or_concat' more with hnil | ⟨init, l, rfl⟩
    · exact hnil
    · have hempty : l = [] := by simpa using List.filter_eq_nil_iff.mp hmore l (by simp)
      rw [← List.cons_append, ← List.append_assoc, ← List.cons_append, ← List.append_assoc] at hlast
      exact absurd hempty (hlast l List.getLast?_concat)
  subst hnone
  refine ⟨above, inside, ?_, habove, hinside⟩
  rw [heq]
  simp

theorem wellFormed_kotlin : WellFormedKotlin m.containerName
    (Text.lines (Layout.format n (text .kotlin (categoryLines .kotlin comments package m)))) := by
  have hsound := allSound_categoryLines hm .kotlin comments hpackage
  have hlines := filter_lines_file hsound.neat (categoryLines_ne_nil .kotlin comments package m) n
  have hnested := wellNested_categoryLines hm .kotlin comments hpackage
  have htop := wellNested_kotlinTop hm comments hpackage
  have hmembers := wellNested_kotlinMembers hm comments
  have hcontainer := allPass_kotlinContainer hm
  obtain ⟨above, inside, heq, habove, hinside⟩ := exists_container hm comments hpackage n
  have hparts : AllSound .kotlin (kotlinTop comments package m) ∧
      AllSound .kotlin (kotlinMembers comments m) := by
    change AllSound .kotlin (kotlinCategory comments package m) at hsound
    rw [kotlinCategory_split] at hsound
    obtain ⟨htop, hrest⟩ := List.forall_mem_append.mp hsound
    exact ⟨htop, (List.forall_mem_append.mp (List.forall_mem_cons.mp hrest).2).1⟩
  obtain ⟨hsettledAbove, hbracketsAbove⟩ := read_part habove hparts.1 htop.settled
  obtain ⟨hsettledInside, hbracketsInside⟩ := read_part hinside hparts.2 hmembers.settled
  refine ⟨openAfter_part hlines hsound hnested, above, inside, heq,
    openAfter_part habove hparts.1 htop, ?_⟩
  rintro part ⟨rest, rfl⟩
  have hsettledContainer : Settled .kotlin ("object " ++ m.containerName ++ " \x7b").toList := by
    have hline := List.forall_mem_singleton.mp hcontainer.settled
    rwa [body_code] at hline
  have hbracketsContainer :
      brackets .kotlin .code ("object " ++ m.containerName ++ " \x7b").toList = ['\x7b'] := by
    have hshows := hcontainer.shows
    rwa [bracketsOf, List.flatMap_singleton, body_code] at hshows
  have hsettled : ∀ l ∈ above ++ ("object " ++ m.containerName ++ " \x7b").toList :: part,
      Settled .kotlin l :=
    List.forall_mem_append.mpr ⟨hsettledAbove, List.forall_mem_cons.mpr
      ⟨hsettledContainer, (List.forall_mem_append.mp hsettledInside).1⟩⟩
  have hbalanced : Balanced (part.flatMap (brackets .kotlin .code) ++
      rest.flatMap (brackets .kotlin .code)) := by
    rw [← List.flatMap_append, hbracketsInside]
    exact hmembers.balanced
  rw [openAfter, brackets_unlines hsettled, List.flatMap_append, List.flatMap_cons, hbracketsAbove,
    hbracketsContainer, nest_append, htop.balanced]
  exact hbalanced.nest_prefix ['\x7b']

end

/-- A well-formed file of a category in a language. -/
def WellFormed (t : Target) (n : Nat) (container : String) (lines : List (List Char)) : Prop :=
  match t with
  | .python => WellFormedPython n lines
  | .kotlin => WellFormedKotlin container lines

theorem wellFormed_categoryLines {m : CategoryModule} (hm : m.Proper) (t : Target)
    (comments : Bool) {package : String} (hpackage : Naming.IsPackage package) (n : Nat) :
    WellFormed t n m.containerName
      (Text.lines (Layout.format n (text t (categoryLines t comments package m)))) := by
  cases t with
  | python => exact wellFormed_python hm comments hpackage n
  | kotlin => exact wellFormed_kotlin hm comments hpackage n

end Source

namespace Session

/-- A plan with an event that has a parameter and one that has none. -/
def shopPlan : String :=
  "[\x7b\"name\": \"Shop\", \"events\": [\x7b\"name\": \"open\", \"parameters\": [" ++
    "\x7b\"name\": \"from\", \"value\": \"home\"\x7d]\x7d, \x7b\"name\": \"close\"\x7d]\x7d]"

/-- The files of a plan below a package of identifiers, laid out in steps of `n` spaces: every
category has its file, and that file is well formed. -/
theorem files_well_formed {s : Session} {n : Nat}
    (hwidth : Indent.ofJson s.generator.settings.indentSize = .spaces n)
    (hpackage : Naming.IsPackage s.settings.packageText) {text : String} {g : Generation}
    (h : (s.rendered text).outcome = .ok g) : ∃ categories built base,
    Plan.parse text = .ok categories ∧ g.files = built.map (·.2) ++ [base] ∧
    List.Forall₂ (fun c b => s.Built c b ∧ Source.WellFormed s.target n b.1.containerName
      (Text.lines b.2.content.toList)) categories built := by
  obtain ⟨categories, hplan, hgeneration⟩ := rendered_ok h
  obtain ⟨built, base, hbuilt, _, hfiles⟩ := generation_ok hgeneration
  refine ⟨categories, built, base, hplan, hfiles, hbuilt.imp fun c b hb => ⟨hb, ?_⟩⟩
  have hm := CategoryModule.proper_of_ofCategory hpackage hb.1
  have hfile := hb.2
  rw [categoryFile_ok hwidth] at hfile
  rw [← Except.ok.inj hfile, String.toList_ofList]
  exact Source.wellFormed_categoryLines hm s.target _ hpackage n

/-- A session with steps of `n` spaces. -/
def indented (s : Session) (n : Nat) : Session where
  settings := { s.settings with indentSize := .int n }
  generator := { s.generator with
    settings := { s.generator.settings with indentSize := .int n } }

theorem files_well_formed_narrow : ∃ (g : Generation) (c : Category) (file : GeneratedFile),
    (((standard .python).indented 2).rendered shopPlan).outcome = .ok g ∧
    Plan.parse shopPlan = .ok [c] ∧ file ∈ g.files ∧
    Source.WellFormedPython 2 (Text.lines file.content.toList) := by
  have hcount : (Plan.parse shopPlan).toOption.map (·.length) = some 1 := by decide +kernel
  have hok : (((standard .python).indented 2).rendered shopPlan).outcome.toOption.isSome := by
    decide +kernel
  have hpackage : Naming.IsPackage ((standard .python).indented 2).settings.packageText :=
    ⟨["analytics", "events"], by decide, by decide⟩
  cases hrendered : (((standard .python).indented 2).rendered shopPlan).outcome with
  | error e =>
    rw [hrendered] at hok
    cases hok
  | ok g =>
    obtain ⟨categories, built, base, hplan, hfiles, hbuilt⟩ :=
      files_well_formed (n := 2) rfl hpackage hrendered
    rw [hplan] at hcount
    obtain ⟨c, rfl⟩ := List.length_eq_one_iff.mp (Option.some.inj hcount)
    obtain ⟨b, rest, ⟨_, hwell⟩, _, rfl⟩ := List.forall₂_cons_left_iff.mp hbuilt
    refine ⟨g, c, b.2, rfl, hplan, ?_, hwell⟩
    rw [hfiles]
    exact List.mem_append_left _ List.mem_cons_self

end Session
end EventCodegen
