import EventCodegen.Proofs.GeneratedPaths
import EventCodegen.Proofs.WrittenFiles

/-! Where generated files may lie, for every package text whatever. A package is only taken apart at
its dots, so no part of a path is two dots and no file lies above the destination; but a segment may
begin with a slash, and then the path starts again at the root and the destination is left
(`below_iff_no_rooted_segment`). -/
namespace EventCodegen.Session

section
variable (t : Target) {stem : String} (hstem : Naming.isIdentifier stem.toList = true)
include hstem

/-- No part of the path of a file leads upwards. -/
theorem dots_not_mem_filePath (package : String) : ".." ∉ (filePath t package stem).parts := by
  intro hmem
  obtain ⟨s, hs, hpart⟩ := Path.exists_of_mem_ofStrings hmem
  rcases List.mem_append.mp hs with hs | hs
  · -- a segment has no dot at all
    have hdot : '.' ∈ s.toList := Path.mem_of_mem_parts hpart (by decide)
    exact Text.not_mem_of_mem_parts (List.mem_of_mem_filter hs) hdot
  · rw [List.mem_singleton.mp hs, Path.ofString_plain (Path.isPlain_fileName t hstem)] at hpart
    exact (Path.isPlain_fileName t hstem).ne_dots (List.mem_singleton.mp hpart).symm

/-- The path of a file starts at a root exactly if a segment of the package begins with a slash. -/
theorem start_filePath_iff (package : String) : (filePath t package stem).start = .here ↔
    ∀ segment ∈ Text.parts '.' package, ¬Path.Rooted segment := by
  have hfile : ¬Path.Rooted (stem ++ t.extension) := by
    rw [← Path.start_ofString_iff]
    exact Path.start_of_no_slash (Path.isPlain_fileName t hstem).no_slash
  rw [filePath, Path.start_ofStrings_iff, List.forall_mem_append, List.forall_mem_singleton]
  constructor
  · intro h segment hsegment hrooted
    refine h.1 segment (List.mem_filter.mpr ⟨hsegment, ?_⟩) hrooted
    rw [bne_iff_ne]
    rintro rfl
    exact absurd hrooted (by decide)
  · exact fun h => ⟨fun segment hsegment => h segment (List.mem_of_mem_filter hsegment), hfile⟩

theorem isBelow_filePath_iff (package : String) : (filePath t package stem).isBelow = true ↔
    ∀ segment ∈ Text.parts '.' package, ¬Path.Rooted segment := by
  rw [Path.isBelow_iff, start_filePath_iff t hstem]
  exact and_iff_left (dots_not_mem_filePath t hstem package)

end

/-- The segment of a category does not begin with a slash, so only the package decides. -/
theorem forall_parts_below {package segment : String}
    (hsegment : Naming.isIdentifier segment.toList = true) :
    (∀ part ∈ Text.parts '.' (Naming.below package segment), ¬Path.Rooted part) ↔
      ∀ part ∈ Text.parts '.' package, ¬Path.Rooted part := by
  have hplain := Path.isPlain_of_isIdentifier hsegment
  have hrooted : ¬Path.Rooted segment := by
    rw [← Path.start_ofString_iff]
    exact Path.start_of_no_slash hplain.no_slash
  have hparts : Text.parts '.' segment = [segment] :=
    Text.parts_of_not_mem (Naming.not_mem_of_isIdentifier hsegment (by decide))
  unfold Naming.below
  split
  · next hempty =>
    rw [String.isEmpty_iff] at hempty
    subst hempty
    rw [hparts, List.forall_mem_singleton]
    exact iff_of_true hrooted (by decide)
  · show (∀ part ∈ Text.parts '.' (package ++ String.singleton '.' ++ segment), _) ↔ _
    rw [Text.parts_append, hparts, List.forall_mem_append, List.forall_mem_singleton]
    exact and_iff_left hrooted

/-- A generated file lies below the destination exactly if no segment of the package begins with a
slash. A path that does not stay below is the same for every destination; none leads upwards. -/
theorem below_iff_no_rooted_segment {s : Session} {package : String}
    (hpackage : s.settings.package = .text package) {output : Output} {text : String}
    {w w' : World} {g : Generation} (hrun : (s.generate output text).apply w = (.ok g, w')) :
    ∀ f ∈ g.files,
      ".." ∉ f.path.parts ∧
      (f.path.isBelow = true ↔ ∀ segment ∈ Text.parts '.' package, ¬Path.Rooted segment) ∧
      (f.path.isBelow = true → ∀ (t : FileTree) (d : Path),
        t.placeOf (d.join f.path) = f.path.parts.reverse ++ t.placeOf d) ∧
      (f.path.isBelow = false → ∀ d : Path, d.join f.path = f.path) := by
  obtain ⟨g', w₁, last, hrendered, rfl, _, _⟩ := writes_of_generate hrun
  obtain ⟨categories, _, hgeneration⟩ := rendered_ok hrendered
  obtain ⟨built, base, hbuilt, hbase, hfiles⟩ := generation_ok hgeneration
  intro f hf
  obtain ⟨hup, hbelow⟩ : ".." ∉ f.path.parts ∧ (f.path.isBelow = true ↔
      ∀ segment ∈ Text.parts '.' package, ¬Path.Rooted segment) := by
    rw [hfiles] at hf
    rcases List.mem_append.mp hf with hf | hf
    · obtain ⟨⟨m, f⟩, hmem, rfl⟩ := List.mem_map.mp hf
      obtain ⟨c, _, hm, hfile⟩ := exists_left_of_mem hbuilt hmem
      have hsegment := (s.target.apart_scope.allows_moduleName c.name).1
      have hcontainer := (CategoryModule.allows_containerName hm).1
      rw [(path_of_categoryFile hfile).2, CategoryModule.path_eq hm, packageText_eq hpackage]
      refine ⟨dots_not_mem_filePath _ hcontainer _, ?_⟩
      rw [isBelow_filePath_iff _ hcontainer]
      exact forall_parts_below hsegment
    · obtain rfl := List.mem_singleton.mp hf
      rw [(path_of_baseFile hpackage hbase).2]
      exact ⟨dots_not_mem_filePath _ (by decide) _, isBelow_filePath_iff _ (by decide) _⟩
  refine ⟨hup, hbelow, fun h t d => FileTree.placeOf_join t d h, fun h d => ?_⟩
  apply Path.join_of_start_ne
  intro hstart
  rw [Path.isBelow_iff.mpr ⟨hstart, hup⟩] at h
  cases h

/-- A session for a package. -/
def inPackage (t : Target) (package : String) : Session :=
  ⟨{ Generator.ownSettings t with package := .text package },
    ⟨t, { Generator.ownSettings t with package := .text package }⟩⟩

/-- Slashes within a segment do no harm. -/
theorem below_iff_no_rooted_segment_inner : ∃ g w',
    ((inPackage .python "shop/v1.events").generate .memory "[]").apply {} = (.ok g, w') ∧
    g.files.length = 1 ∧ ∀ f ∈ g.files, f.path.isBelow = true := by
  have hcount : (((inPackage .python "shop/v1.events").generate .memory "[]").apply
      {}).1.toOption.map (·.files.length) = some 1 := by decide +kernel
  rcases hrun : ((inPackage .python "shop/v1.events").generate .memory "[]").apply {}
    with ⟨e | g, w'⟩
  · rw [hrun] at hcount
    cases hcount
  · have hpackage : (inPackage .python "shop/v1.events").settings.package =
        .text "shop/v1.events" := rfl
    have hfiles := below_iff_no_rooted_segment hpackage hrun
    rw [hrun] at hcount
    refine ⟨g, w', rfl, Option.some.inj hcount, fun f hf => (hfiles f hf).2.1.mpr ?_⟩
    decide

/-- A package that begins with a slash takes the files to the root, away from the destination. -/
theorem rooted_package_leaves_destination :
    (((inPackage .python "/etc").generate (.directory ⟨.here, ["generated"]⟩) "[]").apply
      {}).1.toOption.map (·.files.map fun f => (f.path, f.path.isBelow)) =
        some [(⟨.root, ["etc", "BaseEvent.py"]⟩, false)] ∧
    ((((inPackage .python "/etc").generate (.directory ⟨.here, ["generated"]⟩) "[]").apply
      {}).2.files.get? ["BaseEvent.py", "etc"]).isSome = true ∧
    (((inPackage .python "/etc").generate (.directory ⟨.here, ["generated"]⟩) "[]").apply
      {}).2.files.get? ["generated", "home"] = none := by
  refine ⟨by decide +kernel, by decide +kernel, by decide +kernel⟩

end EventCodegen.Session
