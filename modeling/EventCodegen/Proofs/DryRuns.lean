import EventCodegen.Proofs.GeneratedPaths
import EventCodegen.Proofs.WrittenFiles

/-! A run that only holds its files in memory foretells the run that writes them. Each file that is
written puts on top of the tree what holding it puts into memory (`overlaid_hold`), so after a run
of writes the tree is the one before, overlaid with the memory (`overlaid_of_writes`). All its files
can then be written once more (`settled_of_writes`), and that changes nothing (`overlaid_again`). -/
namespace EventCodegen

namespace FileTree

/-! ## A tree under a memory -/

/-- What stands at a place once everything that is held in memory has been put below a destination:
the files with what they hold, directories above them, and else what stood there before. -/
def overlaid (t : FileTree) (d : Path) (held : List (String × String)) (q : Place) :
    Option Entry :=
  match held.find? fun m => t.placeOf (d.join (.ofString m.1)) = q with
  | some m => some (.file (Text.encode m.2.toList))
  | none =>
    if held.any fun m => q ∈ t.stepsOf (d.join (.ofString m.1)).parent then some .directory
    else t.get? q

end FileTree

namespace Output

open FileTree

/-- Holding a text under a location changes what is found for the place of that location, and
nothing else, if no two locations have one place. -/
theorem find?_hold (place : String → Place) {location : String} (content : String) :
    ∀ {held : List (String × String)},
      (∀ m ∈ held, place m.1 = place location → m.1 = location) → ∀ q,
      (hold location content held).find? (fun m => place m.1 = q) =
        if q = place location then some (location, content)
        else held.find? (fun m => place m.1 = q)
  | [], _, q => by
    by_cases hq : q = place location
    · simp [hold, hq]
    · simp [hold, hq, Ne.symm hq]
  | (l, c) :: rest, hinj, q => by
    have hrest := find?_hold place content (fun m hm => hinj m (List.mem_cons_of_mem _ hm)) q
    unfold hold
    by_cases hl : l = location
    · subst hl
      by_cases hq : q = place l
      · simp [hq]
      · simp [hq, Ne.symm hq]
    · have hplace : place l ≠ place location := fun h => hl (hinj (l, c) List.mem_cons_self h)
      rw [if_neg hl, List.find?_cons, List.find?_cons, hrest]
      by_cases hq : place l = q
      · subst hq
        simp [hplace]
      · simp [hq]

theorem any_hold (f : String → Bool) (location content : String) :
    ∀ held : List (String × String), (hold location content held).any (fun m => f m.1) =
      (f location || held.any fun m => f m.1)
  | [] => by simp [hold]
  | (l, c) :: rest => by
    unfold hold
    by_cases hl : l = location
    · subst hl
      simp
    · rw [if_neg hl, List.any_cons, List.any_cons, any_hold f location content rest,
        Bool.or_left_comm]

theorem mem_hold {location content : String} {m : String × String} :
    ∀ {held : List (String × String)}, m ∈ hold location content held →
      m.1 = location ∨ m ∈ held
  | [], h => Or.inl (congrArg Prod.fst (List.mem_singleton.mp h))
  | (l, c) :: rest, h => by
    unfold hold at h
    split at h
    · next hl =>
      rcases List.mem_cons.mp h with rfl | h
      · exact Or.inl hl
      · exact Or.inr (List.mem_cons_of_mem _ h)
    · rcases List.mem_cons.mp h with rfl | h
      · exact Or.inr List.mem_cons_self
      · rcases mem_hold h with h | h
        · exact Or.inl h
        · exact Or.inr (List.mem_cons_of_mem _ h)

/-- Everything that is held lies under the location of a file. -/
def HoldsFiles (held : List (String × String)) : Prop :=
  ∀ m ∈ held, ∃ path, Path.Filed path ∧ m.1 = path.text

theorem HoldsFiles.hold {held : List (String × String)} (h : HoldsFiles held) {path : Path}
    (hpath : Path.Filed path) (content : String) : HoldsFiles (hold path.text content held) := by
  intro m hm
  rcases mem_hold hm with hlocation | hm
  · exact ⟨path, hpath, hlocation⟩
  · exact h m hm

theorem holdsFiles_remembered {files : List GeneratedFile} (hfiles : ∀ f ∈ files, Path.Filed f.path)
    {held : List (String × String)} (h : HoldsFiles held) : HoldsFiles (remembered files held) := by
  induction files generalizing held with
  | nil => exact h
  | cons f rest ih =>
    obtain ⟨hf, hothers⟩ := List.forall_mem_cons.mp hfiles
    exact ih hothers (h.hold hf f.content)

/-- One more file in memory is one more file in the tree. -/
theorem overlaid_hold {t : FileTree} {d path : Path} {held : List (String × String)}
    (hheld : HoldsFiles held) (hpath : Path.Filed path) (content : String)
    (hfree : ∀ q ∈ t.stepsOf (d.join path).parent,
      t.overlaid d held q = none ∨ t.overlaid d held q = some .directory) (q : Place) :
    t.overlaid d (hold path.text content held) q =
      if q = t.placeOf (d.join path) then some (.file (Text.encode content.toList))
      else if q ∈ t.stepsOf (d.join path).parent then some .directory
      else t.overlaid d held q := by
  have hinj : ∀ m ∈ held, t.placeOf (d.join (.ofString m.1)) =
      t.placeOf (d.join (.ofString path.text)) → m.1 = path.text := by
    intro m hm hplaces
    obtain ⟨other, hother, hlocation⟩ := hheld m hm
    rw [hlocation, hother.ofString_text, hpath.ofString_text, placeOf_join t d hother.isBelow,
      placeOf_join t d hpath.isBelow] at hplaces
    have hparts := List.reverse_injective (List.append_cancel_right hplaces)
    rw [hlocation, hother.eq, hpath.eq, hparts]
  have hfound := find?_hold (fun l => t.placeOf (d.join (.ofString l))) content hinj q
  have hany := any_hold (fun l => decide (q ∈ t.stepsOf (d.join (.ofString l)).parent)) path.text
    content held
  rw [hpath.ofString_text] at hfound hany
  unfold overlaid
  rw [hfound, hany]
  by_cases hq : q = t.placeOf (d.join path)
  · rw [if_pos hq, if_pos hq]
  · rw [if_neg hq, if_neg hq]
    by_cases hmem : q ∈ t.stepsOf (d.join path).parent
    · -- no file is held at a place on the way
      have hnone := hfree q hmem
      unfold overlaid at hnone
      rw [if_pos hmem]
      cases hfind : held.find? fun m => t.placeOf (d.join (.ofString m.1)) = q with
      | some m =>
        rw [hfind] at hnone
        simp at hnone
      | none => simp [hmem]
    · rw [if_neg hmem, decide_eq_false hmem, Bool.false_or]

/-! ## Runs of writes -/

section
variable {d path : Path} {w w' : World} {files : List GeneratedFile} {location content : String}
  {locations : List String}

theorem onFiles_eq_ok {α : Type} {f : FileTree → Except FileError α × FileTree} {a : α} :
    (Run.onFiles f).apply w = (.ok a, w') ↔
      ∃ t, f w.files = (.ok a, t) ∧ w' = { w with files := t } := by
  rw [Run.apply_onFiles]
  rcases f w.files with ⟨e | b, t⟩
  · simp [Except.mapError]
  · simp [Except.mapError, eq_comm]

theorem wrote_of_write {f : GeneratedFile}
    (h : ((directory d).write f).apply w = (.ok location, w')) :
    Wrote w.files (d.join f.path) (Text.encode f.content.toList) w'.files := by
  obtain ⟨_, w₁, hfirst, h⟩ := Run.ok_of_bind h
  obtain ⟨t₁, hmade, rfl⟩ := onFiles_eq_ok.mp hfirst
  by_cases hparts : (d.join f.path).parts = []
  · have hnone : (d.join f.path).extended temporaryEnding = none := if_pos hparts
    rw [hnone] at h
    cases h
  · rw [extended_eq hparts] at h
    obtain ⟨_, w₂, hsecond, h⟩ := Run.ok_of_bind h
    obtain ⟨t₂, hreplaced, rfl⟩ := onFiles_eq_ok.mp hsecond
    cases h
    exact ⟨t₁, hmade, hreplaced⟩

theorem write_of_wrote {f : GeneratedFile} {t' : FileTree}
    (h : Wrote w.files (d.join f.path) (Text.encode f.content.toList) t') :
    ∃ w', ((directory d).write f).apply w = (.ok ((directory d).location f), w') ∧
      w'.files = t' := by
  have hparts := parts_ne_nil_of_endsInName h.named
  obtain ⟨t₁, hmade, hreplaced⟩ := h
  simp only [write, writeBelow]
  rw [Run.apply_bind, onFiles_eq_ok.mpr ⟨t₁, hmade, rfl⟩, extended_eq hparts]
  dsimp only
  rw [Run.apply_bind, onFiles_eq_ok.mpr ⟨t', hreplaced, rfl⟩]
  exact ⟨_, rfl, rfl⟩

/-- A run of writes puts its files on top of what stood there before, as it would hold them in
memory. -/
theorem overlaid_of_writes (h : Writes (directory d).write files w locations w')
    (hfiles : ∀ f ∈ files, Path.Filed f.path) {t : FileTree} {held : List (String × String)}
    (hheld : HoldsFiles held) (hhome : w.files.home = t.home) (hclean : NoTemporaryFile w.files)
    (hbefore : ∀ q, w.files.get? q = t.overlaid d held q) :
    w'.files.home = t.home ∧ ∀ q, w'.files.get? q = t.overlaid d (remembered files held) q := by
  induction h generalizing held with
  | done => exact ⟨hhome, hbefore⟩
  | @file f rest _ _ w w₁ _ hwrite _ ih =>
    obtain ⟨hf, hothers⟩ := List.forall_mem_cons.mp hfiles
    have hwrote := wrote_of_write hwrite
    refine ih hothers (hheld.hold hf f.content) (hwrote.home.trans hhome)
      (hclean.wrote hf hwrote) fun q => ?_
    have hfree := hwrote.free
    simp only [hbefore, stepsOf_congr hhome] at hfree
    rw [hwrote.get? (hclean.beside _), overlaid_hold hheld hf f.content hfree, hbefore,
      placeOf_congr hhome, stepsOf_congr hhome]

theorem noTemporaryFile_of_writes (h : Writes (directory d).write files w locations w')
    (hfiles : ∀ f ∈ files, Path.Filed f.path) (hclean : NoTemporaryFile w.files) :
    NoTemporaryFile w'.files := by
  induction h with
  | done => exact hclean
  | @file f rest _ _ _ _ _ hwrite _ ih =>
    obtain ⟨hf, hothers⟩ := List.forall_mem_cons.mp hfiles
    exact ih hothers (hclean.wrote hf (wrote_of_write hwrite))

/-- What could be written before a run of writes can be written after it. -/
theorem settled_after_writes (h : Writes (directory d).write files w locations w')
    (hfiles : ∀ f ∈ files, Path.Filed f.path) (hpath : Path.Filed path)
    (hsettled : Settled w.files (d.join path)) : Settled w'.files (d.join path) := by
  induction h with
  | done => exact hsettled
  | @file f rest _ _ _ _ _ hwrite _ ih =>
    obtain ⟨hf, hothers⟩ := List.forall_mem_cons.mp hfiles
    exact ih hothers (hsettled.wrote_below hpath hf (wrote_of_write hwrite))

/-- After a run of writes each of its files can be written again. -/
theorem settled_of_writes (h : Writes (directory d).write files w locations w')
    (hfiles : ∀ f ∈ files, Path.Filed f.path) :
    ∀ f ∈ files, Settled w'.files (d.join f.path) := by
  induction h with
  | done => exact fun f hf => absurd hf List.not_mem_nil
  | @file f rest _ _ _ _ _ hwrite hrest ih =>
    obtain ⟨hf, hothers⟩ := List.forall_mem_cons.mp hfiles
    intro g hg
    rcases List.mem_cons.mp hg with rfl | hg
    · exact settled_after_writes hrest hothers hf (wrote_of_write hwrite).settled
    · exact ih hothers g hg

/-- Files that can be written one by one can be written in a run. -/
theorem writes_of_settled : ∀ {files : List GeneratedFile} {w : World},
    (∀ f ∈ files, Path.Filed f.path) → (∀ f ∈ files, Settled w.files (d.join f.path)) →
    ∃ w', Writes (directory d).write files w (files.map (directory d).location) w'
  | [], w, _, _ => ⟨w, .done⟩
  | f :: rest, w, hfiles, hsettled => by
    obtain ⟨hf, hothers⟩ := List.forall_mem_cons.mp hfiles
    obtain ⟨hfirst, hrestSettled⟩ := List.forall_mem_cons.mp hsettled
    have hwrote := hfirst.rewrite (Text.encode f.content.toList)
    obtain ⟨w₁, hwrite, hw₁⟩ := write_of_wrote hwrote
    obtain ⟨w', hrest⟩ := writes_of_settled (w := w₁) hothers fun g hg => by
      rw [hw₁]
      exact (hrestSettled g hg).wrote_below (hothers g hg) hf hwrote
    exact ⟨w', .file hwrite hrest⟩

end

/-- Putting the same files on top again changes nothing. -/
theorem overlaid_again {t t' : FileTree} {d : Path} {held : List (String × String)}
    (hhome : t'.home = t.home) (h : ∀ q, t'.get? q = t.overlaid d held q) (q : Place) :
    t'.overlaid d held q = t'.get? q := by
  have hq := h q
  unfold overlaid at hq ⊢
  simp only [placeOf_congr hhome, stepsOf_congr hhome]
  cases hfind : held.find? fun m => t.placeOf (d.join (.ofString m.1)) = q with
  | some m => rw [hq, hfind]
  | none =>
    dsimp only
    split
    · next hmem => rw [hq, hfind, if_pos hmem]
    · rfl

end Output

/-! ## Runs -/

namespace Session

open FileTree Output

/-- A dry run agrees with the real one. On a tree without temporary files a run that writes its
files leaves the tree as it was, overlaid below the destination with exactly the files that the same
run holds in memory and the directories above them; and running again changes nothing. -/
theorem dry_run_agrees {s : Session} {parts : List String}
    (hparts : ∀ p ∈ parts, Naming.isIdentifier p.toList = true)
    (hpackage : s.settings.package = .text (Text.joined "." parts)) {text : String} {d : Path}
    {w w' : World} {g : Generation} (hclean : NoTemporaryFile w.files)
    (hrun : (s.generate (.directory d) text).apply w = (.ok g, w')) :
    (∃ dry w₀, (s.generate .memory text).apply { w with held := [] } = (.ok dry, w₀) ∧
      dry.files = g.files ∧ w₀.files = w.files ∧
      (∀ m ∈ w₀.held, (Path.ofString m.1).isBelow = true) ∧
      w'.files.home = w.files.home ∧ ∀ q, w'.files.get? q = w.files.overlaid d w₀.held q) ∧
    ∃ w'', (s.generate (.directory d) text).apply w' = (.ok g, w'') ∧
      w''.files.home = w'.files.home ∧ ∀ q, w''.files.get? q = w'.files.get? q := by
  obtain ⟨rendered, w₁, last, hrendered, rfl, hwrites, rfl⟩ := writes_of_generate hrun
  obtain ⟨categories, _, hgeneration⟩ := rendered_ok hrendered
  have hfiles := filed_of_generation hparts hpackage hgeneration
  have hempty : HoldsFiles [] := fun m hm => absurd hm List.not_mem_nil
  obtain ⟨hhome, hoverlaid⟩ := overlaid_of_writes hwrites hfiles hempty rfl hclean fun q => rfl
  refine ⟨?_, ?_⟩
  · obtain ⟨last', hdry⟩ := generate_of_writes (w := { w with held := [] }) hrendered
      (writes_memory rendered.files _)
    refine ⟨_, _, hdry, rfl, rfl, fun m hm => ?_, hhome, hoverlaid⟩
    obtain ⟨path, hpath, hlocation⟩ := holdsFiles_remembered hfiles hempty m hm
    rw [hlocation, hpath.ofString_text]
    exact hpath.isBelow
  · -- every file can be written once more, and then the tree is overlaid with the same files
    have hsettled := settled_of_writes hwrites hfiles
    obtain ⟨w₂, hagain⟩ := writes_of_settled (w := (w₁.noting [last]).noting
      (s.rendered text).notes) hfiles hsettled
    obtain ⟨last', hrerun⟩ := generate_of_writes hrendered hagain
    have hstillClean := noTemporaryFile_of_writes hwrites hfiles hclean
    obtain ⟨hhome', hoverlaid'⟩ := overlaid_of_writes (t := w₁.files) hagain hfiles hempty rfl
      hstillClean fun q => rfl
    exact ⟨_, hrerun, hhome', fun q => (hoverlaid' q).trans (overlaid_again hhome hoverlaid q)⟩

/-- A plan of two categories that share a path. -/
def sharedPlan : String := "[\x7b\"name\": \"Shop\"\x7d, \x7b\"name\": \"shop\"\x7d]"

/-- Two of three files go to one path: only the later one is held, and only it stands in the
tree. -/
theorem dry_run_agrees_shared : ∃ g w' dry w₀,
    NoTemporaryFile {} ∧
    ((standard .python).generate (.directory ⟨.here, ["out"]⟩) sharedPlan).apply {} = (.ok g, w') ∧
    ((standard .python).generate .memory sharedPlan).apply {} = (.ok dry, w₀) ∧
    g.files.length = 3 ∧ w₀.held.length = 2 ∧
    ∀ q, w'.files.get? q = FileTree.overlaid {} ⟨.here, ["out"]⟩ w₀.held q := by
  have hclean : NoTemporaryFile {} := by
    intro name above bytes _ hfile
    change (match (name :: above) == ["home"] with
      | true => some Entry.directory
      | false => none) = some (.file bytes) at hfile
    split at hfile <;> cases hfile
  have hcount : (((standard .python).generate (.directory ⟨.here, ["out"]⟩) sharedPlan).apply
      {}).1.toOption.map (·.files.length) = some 3 := by decide +kernel
  have hheld : (((standard .python).generate .memory sharedPlan).apply {}).2.held.length = 2 := by
    decide +kernel
  rcases hrun : ((standard .python).generate (.directory ⟨.here, ["out"]⟩) sharedPlan).apply {}
    with ⟨e | g, w'⟩
  · rw [hrun] at hcount
    cases hcount
  · have hparts : ∀ p ∈ ["analytics", "events"], Naming.isIdentifier p.toList = true := by decide
    obtain ⟨⟨dry, w₀, hdry, _, _, _, _, hoverlaid⟩, _⟩ := dry_run_agrees hparts rfl hclean hrun
    have hdry : ((standard .python).generate .memory sharedPlan).apply {} = (.ok dry, w₀) := hdry
    rw [hrun] at hcount
    rw [hdry] at hheld
    exact ⟨g, w', dry, w₀, hclean, rfl, hdry, Option.some.inj hcount, hheld, hoverlaid⟩

end Session
end EventCodegen
