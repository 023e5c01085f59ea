import EventCodegen.Proofs.GeneratedPaths
import EventCodegen.Proofs.ImportLines

/-! The layout of a package and what its files say of it. The path of a file, the package of a
module and the imports in the text of a file are made independently of one another; they agree, for
every package of identifiers and whatever the categories are called (`layout_agrees`). -/
namespace EventCodegen

namespace Text

/-- Joined texts with one separator become joined texts with another one. -/
theorem map_joined {a b : Char} {texts : List String} (h : ∀ s ∈ texts, a ∉ s.toList) :
    (joined (String.singleton a) texts).toList.map (fun c => if c = a then b else c) =
      (joined (String.singleton b) texts).toList := by
  have hkept : ∀ s ∈ texts, s.toList.map (fun c => if c = a then b else c) = s.toList := by
    intro s hs
    refine (List.map_congr_left fun c hc => if_neg ?_).trans (List.map_id _)
    rintro rfl
    exact h s hs hc
  simp only [joined, String.toList_intercalate, String.toList_singleton]
  induction texts with
  | nil => rfl
  | cons first rest ih =>
    have hfirst := hkept first List.mem_cons_self
    have hrest := ih (fun s hs => h s (List.mem_cons_of_mem _ hs))
      fun s hs => hkept s (List.mem_cons_of_mem _ hs)
    by_cases hne : rest = []
    · subst hne
      simpa using hfirst
    · rw [List.map_cons, List.intercalate_cons_of_ne_nil (by simpa using hne),
        List.intercalate_cons_of_ne_nil (by simpa using hne), List.map_append, List.map_append,
        hfirst, hrest]
      simp

end Text

namespace Session

open Source

/-- The file in which a language looks for the module of a dotted name. -/
def fileOf (t : Target) (name : String) : String :=
  String.ofList (name.toList.map fun c => if c = '.' then '/' else c) ++ t.extension

/-- The dotted name of the module of the base type. -/
def baseModule (parts : List String) : String := Text.joined "." (parts ++ [baseTypeName])

theorem fileOf_joined (t : Target) {dirs : List String}
    (hdirs : ∀ n ∈ dirs, Naming.isIdentifier n.toList = true) {stem : String}
    (hstem : Naming.isIdentifier stem.toList = true) :
    fileOf t (Text.joined "." (dirs ++ [stem])) =
      Path.text ⟨.here, dirs ++ [stem ++ t.extension]⟩ := by
  have hdots : ∀ n ∈ dirs ++ [stem], '.' ∉ n.toList := by
    rw [List.forall_mem_append, List.forall_mem_singleton]
    exact ⟨fun n hn => Naming.not_mem_of_isIdentifier (hdirs n hn) (by decide),
      Naming.not_mem_of_isIdentifier hstem (by decide)⟩
  have hslashes : fileOf t (Text.joined "." (dirs ++ [stem])) =
      Text.joined "/" (dirs ++ [stem]) ++ t.extension := by
    show String.ofList ((Text.joined (String.singleton '.') _).toList.map _) ++ _ = _
    rw [Text.map_joined hdots, String.ofList_toList]
    rfl
  rw [hslashes, Path.text_here (by simp)]
  by_cases hne : dirs = []
  · subst hne
    simp [Text.joined]
  · rw [Text.joined_concat "/" hne, Text.joined_concat "/" hne, String.append_assoc]

/-- How the file of a category lies in a package and what it says of that. -/
structure Placed (s : Session) (parts : List String) (c : Category) (m : CategoryModule)
    (f : GeneratedFile) : Prop where
  module : s.moduleOf c = .ok m
  file : s.categoryFile m = .ok f
  kind : f.kind = .category
  path : f.path = ⟨.here,
    parts ++ [s.rules.moduleName c.name, m.containerName ++ s.target.extension]⟩
  modulePath : m.path = Text.joined "." f.path.parent.parts
  python : s.target = .python → mentions "from " f.content =
    (if m.hasRecords then ["dataclasses import dataclass"] else []) ++
    (if m.hasConstants then ["typing import Final"] else []) ++
    [baseModule parts ++ " import " ++ baseTypeName ++
      if m.hasSingletons then ", singleton" else ""]
  kotlin : s.target = .kotlin → mentions "package " f.content = [m.path] ∧
    mentions "import " f.content = if parts = [] then [] else [baseModule parts]

section
variable {s : Session} {parts : List String}
  (hparts : ∀ p ∈ parts, Naming.isIdentifier p.toList = true)
include hparts

theorem placed {c : Category} (hs : s.Usable (Text.joined "." parts)) {m : CategoryModule}
    {f : GeneratedFile} (hm : s.moduleOf c = .ok m) (hf : s.categoryFile m = .ok f) :
    s.Placed parts c m f := by
  obtain ⟨n, hwidth⟩ := hs.width
  obtain ⟨hmodule, hkind, hpath⟩ := categoryFile_path hparts hs.package hm hf
  have htext := packageText_eq hs.package
  have hpackage : Naming.IsPackage s.settings.packageText := ⟨parts, hparts, htext⟩
  have hproper := CategoryModule.proper_of_ofCategory hpackage hm
  have hbase : Naming.below s.settings.packageText baseTypeName = baseModule parts := by
    rw [htext, Naming.below_joined hparts]
    rfl
  have hcontent : f.content = String.ofList (Layout.format n (text s.target
      (categoryLines s.target s.generator.settings.hasComments s.settings.packageText m))) := by
    rw [categoryFile_ok hwidth] at hf
    cases hf
    rfl
  refine ⟨hm, hf, hkind, ?_, ?_, fun htarget => ?_, fun htarget => ⟨?_, ?_⟩⟩
  · rw [hpath, List.append_assoc]
    rfl
  · rw [hmodule, hpath]
    simp [Path.parent]
  · rw [hcontent, htarget]
    exact (mentions_pythonCategory hproper hpackage n).trans
      (by rw [bodyMentions_from, hbase])
  · have hne : m.path.isEmpty = false := by
      rw [hmodule, Naming.isEmpty_joined]
      · simp
      · rw [List.forall_mem_append, List.forall_mem_singleton]
        exact ⟨hparts, (s.target.apart_scope.allows_moduleName c.name).1⟩
    rw [hcontent, htarget]
    refine (mentions_kotlinCategory (Or.inr rfl) hproper hpackage n).trans ?_
    rw [bodyMentions_package, hne]
    rfl
  · rw [hcontent, htarget]
    refine (mentions_kotlinCategory (Or.inl rfl) hproper hpackage n).trans ?_
    rw [bodyMentions_import, htext, Naming.isEmpty_joined hparts]
    cases parts with
    | nil => rfl
    | cons first rest =>
      have hbase := Text.joined_concat "." (List.cons_ne_nil first rest) baseTypeName
      rw [baseModule, hbase]
      rfl

/-- The layout of a package, its module paths and its imports agree. Settings that can be used and a
plan lead to a result unless a screen is missing; and any result has the file of each category in
the order of the plan and then the file of the base type, whose path is what the category files
import. No file has the path of the base file, and no path leads through another one. -/
theorem layout_agrees (hs : s.Usable (Text.joined "." parts)) {text : String}
    {categories : List Category} (hplan : Plan.parse text = .ok categories) :
    (∀ w, (∃ g w', (s.generate .memory text).apply w = (.ok g, w')) ∨ s.LacksScreen categories) ∧
    ∀ output w g w', (s.generate output text).apply w = (.ok g, w') →
      ∃ files base, g.files = files ++ [base] ∧
        List.Forall₂ (fun c f => ∃ m, s.Placed parts c m f) categories files ∧
        base.kind = .base ∧
        base.path = ⟨.here, parts ++ [baseTypeName ++ s.target.extension]⟩ ∧
        fileOf s.target (baseModule parts) = base.path.text ∧
        (∀ f ∈ files, f.path ≠ base.path) ∧
        ∀ f ∈ g.files, ∀ f' ∈ g.files, f.path.parts <+: f'.path.parts → f.path = f'.path := by
  refine ⟨fun w => ?_, fun output w g w' hrun => ?_⟩
  · have houtcome := outcome_rendered (s := s) hplan
    cases hgeneration : (s.generation categories).outcome with
    | error e => exact Or.inr (generation_error hs hgeneration)
    | ok g =>
      rw [hgeneration] at houtcome
      obtain ⟨last, hrun⟩ := generate_of_writes (w := w) houtcome (Output.writes_memory g.files _)
      exact Or.inl ⟨_, _, hrun⟩
  · obtain ⟨g', w₁, last, hrendered, rfl, _, _⟩ := writes_of_generate hrun
    rw [outcome_rendered hplan] at hrendered
    have hfiled := filed_of_generation hparts hs.package hrendered
    obtain ⟨built, base, hbuilt, hbase, hfiles⟩ := generation_ok hrendered
    obtain ⟨hkind, hpath⟩ := baseFile_path hparts hs.package hbase
    have hplaced : List.Forall₂ (fun c f => ∃ m, s.Placed parts c m f) categories
        (built.map (·.2)) := by
      rw [List.forall₂_map_right_iff]
      exact hbuilt.imp fun c b hb => ⟨b.1, placed hparts hs hb.1 hb.2⟩
    refine ⟨built.map (·.2), base, hfiles, hplaced, hkind, hpath, ?_, ?_, ?_⟩
    · rw [hpath]
      exact fileOf_joined s.target hparts (by decide)
    · intro f hf heq
      obtain ⟨c, _, m, hm⟩ := exists_left_of_mem hplaced hf
      -- the file of a category lies one directory further down
      have hlengths := congrArg (·.parts.length) (hm.path.symm.trans (heq.trans hpath))
      simp at hlengths
    · exact fun f hf f' hf' hprefix => (hfiled f hf).eq_of_prefix_parts (hfiled f' hf') hprefix

end

/-- A category whose name is a keyword gets another directory, and its file still imports the base
type from where it lies. -/
theorem layout_agrees_keyword : ∃ g w' f base,
    ((standard .python).generate .memory "[\x7b\"name\": \"class\"\x7d]").apply {} = (.ok g, w') ∧
    g.files = [f, base] ∧
    f.path = ⟨.here, ["analytics", "events", "class_", "ClassEvents.py"]⟩ ∧
    mentions "from " f.content = ["analytics.events.BaseEvent import BaseEvent"] ∧
    base.path = ⟨.here, ["analytics", "events", "BaseEvent.py"]⟩ := by
  have hplan : Plan.parse "[\x7b\"name\": \"class\"\x7d]" = .ok [⟨"class", []⟩] := by decide +kernel
  have husable : (standard .python).Usable (Text.joined "." ["analytics", "events"]) :=
    ⟨⟨"python", rfl⟩, rfl, by decide, ⟨4, rfl⟩⟩
  have hparts : ∀ p ∈ ["analytics", "events"], Naming.isIdentifier p.toList = true := by decide
  obtain ⟨hcompletes, hplaced⟩ := layout_agrees hparts husable hplan
  rcases hcompletes {} with ⟨g, w', hrun⟩ | hlacks
  · obtain ⟨files, base, hfiles, hcategories, _, hbase, _⟩ := hplaced .memory {} g w' hrun
    obtain ⟨f, rest, ⟨m, hf⟩, hrest, rfl⟩ := List.forall₂_cons_left_iff.mp hcategories
    obtain rfl := List.forall₂_nil_left_iff.mp hrest
    have hmodule : (standard .python).moduleOf ⟨"class", []⟩ =
        .ok ⟨"class", "ClassEvents", "analytics.events.class_", [], []⟩ := rfl
    obtain rfl := Except.ok.inj (hf.module.symm.trans hmodule)
    exact ⟨g, w', f, base, hrun, hfiles, hf.path, hf.python rfl, hbase⟩
  · exact absurd hlacks.1 (by decide)

end Session
end EventCodegen
