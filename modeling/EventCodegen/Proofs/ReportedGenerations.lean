import EventCodegen.Proofs.ReportedFailures

/-! Generating files where the settings can be used and the names that the files get are harmless.
Everything that stands in the way then is reported (`Session.reports_generate`,
`Session.reports_generateBase`): an event without its screen before the first write, a fault of the
system after it. What is left to show of the files can be shown (`Generation.Showable`). -/
namespace EventCodegen

open Display

/-! ## Names of files -/

namespace Path

theorem parts_ofStrings_concat {name : String} (h : IsPlain name) (texts : List String) :
    (ofStrings (texts ++ [name])).parts = (ofStrings texts).parts ++ [name] := by
  rw [ofStrings_concat, ofString_plain h, join_here]

theorem parts_join_ne_nil {p : Path} (h : p.parts ≠ []) (d : Path) : (d.join p).parts ≠ [] := by
  unfold join
  split
  · exact List.append_ne_nil_of_right_ne_nil _ h
  · exact h

end Path

namespace Session

theorem parts_filePath_ne_nil (t : Target) (package : String) {stem : String}
    (hstem : Naming.isIdentifier stem.toList = true) : (filePath t package stem).parts ≠ [] := by
  rw [filePath, Path.parts_ofStrings_concat (Path.isPlain_fileName t hstem)]
  exact List.append_ne_nil_of_right_ne_nil _ (List.cons_ne_nil _ _)

theorem FromPackage.nulFree {package part : String} (hpackage : Char.ofNat 0 ∉ package.toList)
    (h : FromPackage package part) : Char.ofNat 0 ∉ part.toList := by
  rcases h with ⟨segment, hsegment, hpart⟩ | htame
  · intro hnul
    obtain ⟨l, hl, rfl⟩ := List.mem_map.mp hsegment
    have hmem := Path.mem_of_mem_parts hpart hnul
    rw [String.toList_ofList] at hmem
    exact hpackage (Text.subset_of_mem_splitOn hl hmem)
  · exact htame.not_mem (by decide) (by decide)

/-- Every file of a generation has a name. -/
theorem named_of_generation {s : Session} {package : String}
    (hpackage : s.settings.package = .text package) {categories : List Category} {g : Generation}
    (h : (s.generation categories).outcome = .ok g) : ∀ f ∈ g.files, f.path.parts ≠ [] := by
  intro f hf
  obtain ⟨inner, stem, hpath, hstem, _⟩ := filePath_of_generation hpackage h f hf
  rw [hpath]
  exact parts_filePath_ne_nil s.target inner hstem

end Session

/-! ## Outputs -/

/-- A package and an output that go together: the segments of the package are harmless, and if the
output is a directory, so are the names on the way to it, and there is no NUL in any name. -/
structure Output.Accepts (output : Output) (package : String) : Prop where
  segments : HarmlessPackage package
  directory : ∀ d, output = .directory d → (∀ part ∈ d.parts, Harmless part.toList) ∧
    d.NulFree ∧ Char.ofNat 0 ∉ package.toList

namespace Output.Accepts

variable {output : Output} {package : String} {f : GeneratedFile}

theorem opening_path (h : output.Accepts package)
    (hf : ∀ part ∈ f.path.parts, Session.FromPackage package part) :
    Opening f.path.text.toList :=
  Path.opening_text fun part hpart => h.segments.harmless (hf part hpart)

theorem opening_location (h : output.Accepts package)
    (hf : ∀ part ∈ f.path.parts, Session.FromPackage package part) :
    Opening (output.location f).toList := by
  cases output with
  | memory => exact h.opening_path hf
  | directory d =>
    refine Path.opening_text (Path.forall_parts_join (h.directory d rfl).1 fun part hpart => ?_)
    exact h.segments.harmless (hf part hpart)

/-- A file with a name is written, or a fault of the system is in its way. -/
theorem reports_write (h : output.Accepts package)
    (hf : ∀ part ∈ f.path.parts, Session.FromPackage package part) (hname : f.path.parts ≠ [])
    (w : World) : (output.write f).Reports (fun _ _ => True) w := by
  refine Output.reports_write (fun d hd => ?_) w
  obtain ⟨_, hnul, hpackage⟩ := h.directory d hd
  exact ⟨hnul.join fun part hpart => (hf part hpart).nulFree hpackage,
    Path.parts_join_ne_nil hname d⟩

end Output.Accepts

/-! ## Generations -/

/-- What is shown of a generation can be shown: paths, locations and the package. -/
structure Generation.Showable (g : Generation) : Prop where
  files : ∀ f ∈ g.files, Opening f.path.text.toList
  locations : ∀ location ∈ g.locations, Opening location.toList
  package : ∀ m, g.metadata = some m → Opening m.package.display.toList

namespace Session

variable {s : Session} {package : String} {output : Output}

theorem reported_readPlan {text : String} (h : ¬Json.MeetsOversized text.toList) :
    Reported (fun _ => True) (readPlan text).outcome := by
  rw [← Plan.parse_eq_hugeInteger_iff] at h
  rw [outcome_readPlan_eq]
  have hread : ∀ e, Plan.parse text = .error e → (Failure.ofReadFault e).isReported = true := by
    intro e he
    cases e with
    | plan e => rfl
    | hugeInteger => exact absurd he h
  exact (Reported.of_mapError hread).mono fun _ _ => trivial

theorem reported_buildModule (s : Session) (c : Category) :
    Reported (fun m => s.moduleOf c = .ok m) (s.buildModule c).outcome := by
  rw [outcome_buildModule]
  exact .of_mapError fun _ _ => rfl

theorem reported_buildFiles {n : Int}
    (hwidth : Indent.ofJson s.generator.settings.indentSize = .spaces n) :
    ∀ categories : List Category, Reported (fun _ => True) (s.buildFiles categories).outcome
  | [] => .ok trivial
  | c :: rest => by
    have hmodule := s.reported_buildModule c
    rw [outcome_buildModule] at hmodule
    rw [outcome_buildFiles_cons]
    refine hmodule.bind fun m _ => ?_
    rw [categoryFile_ok hwidth]
    exact (reported_buildFiles hwidth rest).bind fun _ _ => .ok trivial

/-- All files are completed, or it is told why not. -/
theorem reported_generation (hs : s.Usable package) (categories : List Category) :
    Reported (fun _ => True) (s.generation categories).outcome := by
  obtain ⟨own, hown⟩ := hs.warnings_ok
  obtain ⟨n, hwidth⟩ := hs.width
  rw [outcome_generation, hown, baseFile_ok hs.package hwidth]
  exact (reported_buildFiles hwidth categories).bind fun _ _ => .ok trivial

theorem reported_rendered (hs : s.Usable package) {text : String}
    (h : ¬Json.MeetsOversized text.toList) :
    Reported (fun _ => True) (s.rendered text).outcome := by
  rw [rendered, Traced.outcome_bind]
  exact (reported_readPlan h).bind fun categories _ => reported_generation hs categories

theorem package_of_generation {categories : List Category} {g : Generation}
    (h : (s.generation categories).outcome = .ok g) {m : Metadata} (hm : g.metadata = some m) :
    m.package = s.settings.package := by
  rw [outcome_generation] at h
  obtain ⟨own, _, h⟩ := bind_eq_ok.mp h
  obtain ⟨built, _, h⟩ := bind_eq_ok.mp h
  obtain ⟨base, _, h⟩ := bind_eq_ok.mp h
  cases h
  cases hm
  rfl

theorem showable_of_rendered (hpackage : s.settings.package = .text package)
    (houtput : output.Accepts package) {text : String} {g : Generation}
    (h : (s.rendered text).outcome = .ok g) :
    Generation.Showable { g with locations := g.files.map output.location } := by
  obtain ⟨categories, _, hgeneration⟩ := rendered_ok h
  have hfiles := fromPackage_of_generation hpackage hgeneration
  refine ⟨fun f hf => houtput.opening_path (hfiles f hf), ?_, fun m hm => ?_⟩
  · exact List.forall_mem_map.mpr fun f hf => houtput.opening_location (hfiles f hf)
  · rw [package_of_generation hgeneration hm, hpackage]
    exact houtput.segments.opening

/-- Files are generated and handed on, and can be shown, or it is told why not. -/
theorem reports_generate (hs : s.Usable package) (houtput : output.Accepts package)
    {text : String} (htext : ¬Json.MeetsOversized text.toList) (w : World) :
    (s.generate output text).Reports (fun g _ => g.Showable) w := by
  have hends := s.ends_generate output text w
  constructor
  · intro g w' hrun
    rw [hrun] at hends
    cases hends with
    | written hrendered _ => exact showable_of_rendered hs.package houtput hrendered
  · intro e w' hrun
    rw [hrun] at hends
    cases hends with
    | unwritten hrendered _ =>
      have hreported := reported_rendered hs htext
      rw [hrendered] at hreported
      cases hreported with
      | error he => exact he
    | @stopped g _ _ hrendered hfails =>
      obtain ⟨categories, _, hgeneration⟩ := rendered_ok hrendered
      obtain ⟨before, f, after, _, w₁, hfiles, _, hwrite⟩ := hfails
      have hf : f ∈ g.files := by
        rw [hfiles]
        exact List.mem_append_right _ List.mem_cons_self
      have hfrom := fromPackage_of_generation hs.package hgeneration f hf
      have hname := named_of_generation hs.package hgeneration f hf
      exact (houtput.reports_write hfrom hname w₁).failure e w' hwrite

/-- The file of the base type is generated and written, or it is told why not. -/
theorem reports_generateBase (hpackage : s.settings.package = .text package) {n : Int}
    (hwidth : Indent.ofJson s.generator.settings.indentSize = .spaces n)
    (houtput : output.Accepts package) (w : World) :
    (s.generateBase output).Reports (fun f _ => Opening f.path.text.toList) w := by
  have hbuilt : s.buildBase.outcome = s.baseFile := rfl
  have hbase := baseFile_ok hpackage hwidth
  unfold generateBase
  refine .bind (P := fun f _ => s.baseFile = .ok f)
    (.ofTraced (.of_ok (hbuilt.trans hbase) hbase) fun _ hf => hf) fun f w₁ hf => ?_
  have hpath := (path_of_baseFile hpackage hf).2
  have hfrom : ∀ part ∈ f.path.parts, FromPackage package part := by
    rw [hpath]
    exact fun part hpart => fromPackage_filePath (by decide) hpart
  have hname : f.path.parts ≠ [] := by
    rw [hpath]
    exact parts_filePath_ne_nil _ _ (by decide)
  have hwrite : discard (output.write f) = output.write f >>= fun _ => pure () := rfl
  rw [hwrite]
  refine .bind (P := fun _ _ => True) ?_ fun _ _ _ => .pure (houtput.opening_path hfrom)
  exact .bind (houtput.reports_write hfrom hname w₁) fun _ _ _ => .pure trivial

end Session
end EventCodegen
