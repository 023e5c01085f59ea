import EventCodegen.Proofs.FilePaths
import EventCodegen.Proofs.Generations

/-! Where the files of a generation lie. Below a package of identifiers the path of a file is a
directory for each identifier and a name with the extension of the language (`filePath_joined`), so
all files of a generation are laid out in directories and none is in the way of another
(`filed_of_generation`). -/
namespace EventCodegen

/-! ## Identifiers in paths -/

theorem Naming.not_mem_of_isIdentifier {name : String} (h : isIdentifier name.toList = true)
    {c : Char} (hc : isIdentifierChar c = false) : c ∉ name.toList := by
  intro hmem
  rw [isIdentifierChar_of_mem h hmem] at hc
  cases hc

theorem Naming.ne_empty_of_isIdentifier {name : String} (h : isIdentifier name.toList = true) :
    name ≠ "" := by
  rintro rfl
  cases h

/-- Only no identifiers at all are joined to nothing. -/
theorem Naming.isEmpty_joined {parts : List String}
    (hparts : ∀ p ∈ parts, isIdentifier p.toList = true) :
    (Text.joined "." parts).isEmpty = parts.isEmpty := by
  cases parts with
  | nil => rfl
  | cons first rest =>
    have hfirst := ne_empty_of_isIdentifier (hparts first List.mem_cons_self)
    rw [List.isEmpty_cons, String.isEmpty_eq_false_iff]
    intro h
    by_cases hne : rest = []
    · subst hne
      exact hfirst (String.intercalate_singleton.symm.trans h)
    · rw [Text.joined, String.intercalate_cons_of_ne_nil hne] at h
      simp at h

theorem Text.joined_concat (separator : String) {texts : List String} (hne : texts ≠ [])
    (s : String) : joined separator (texts ++ [s]) = joined separator texts ++ separator ++ s :=
  (String.intercalate_append_of_ne_nil hne (List.cons_ne_nil s [])).trans
    (congrArg _ String.intercalate_singleton)

/-- A module below a package is one name more in the package. -/
theorem Naming.below_joined {parts : List String}
    (hparts : ∀ p ∈ parts, isIdentifier p.toList = true) (name : String) :
    below (Text.joined "." parts) name = Text.joined "." (parts ++ [name]) := by
  unfold below
  rw [isEmpty_joined hparts]
  cases parts with
  | nil => exact String.intercalate_singleton.symm
  | cons first rest => exact (Text.joined_concat "." (List.cons_ne_nil first rest) name).symm

theorem Path.isPlain_of_isIdentifier {name : String}
    (h : Naming.isIdentifier name.toList = true) : IsPlain name where
  ne_empty := Naming.ne_empty_of_isIdentifier h
  ne_dot := by
    rintro rfl
    exact absurd h (by decide)
  ne_dots := by
    rintro rfl
    exact absurd h (by decide)
  no_slash := Naming.not_mem_of_isIdentifier h (by decide)

/-- The name of a file of a language: an identifier with the extension. -/
theorem Path.isPlain_fileName (t : Target) {stem : String}
    (h : Naming.isIdentifier stem.toList = true) : IsPlain (stem ++ t.extension) := by
  have hlength : 1 < (stem ++ t.extension).toList.length := by
    rw [String.toList_append, List.length_append]
    have hextension : t.extension.toList.length = 3 := by cases t <;> rfl
    omega
  refine ⟨?_, ?_, ?_, ?_⟩
  · intro heq
    rw [heq] at hlength
    exact absurd hlength (by decide)
  · intro heq
    rw [heq] at hlength
    exact absurd hlength (by decide)
  · intro heq
    -- what stands before the extension is not a dot
    have hmem : '.' ∈ stem.toList := by
      have hlist := congrArg String.toList heq
      rw [String.toList_append] at hlist
      cases hstem : stem.toList with
      | nil => exact absurd hstem (Naming.ne_nil_of_isIdentifier h)
      | cons c rest =>
        rw [hstem] at hlist
        rw [(List.cons.inj hlist).1]
        exact List.mem_cons_self
    exact Naming.not_mem_of_isIdentifier h (by decide) hmem
  · rw [String.toList_append, List.mem_append, not_or]
    refine ⟨Naming.not_mem_of_isIdentifier h (by decide), ?_⟩
    cases t <;> decide

theorem Path.filed {t : Target} {dirs : List String} {stem : String}
    (hdirs : ∀ n ∈ dirs, Naming.isIdentifier n.toList = true)
    (hstem : Naming.isIdentifier stem.toList = true) :
    Filed ⟨.here, dirs ++ [stem ++ t.extension]⟩ := by
  have hname : name ⟨.here, dirs ++ [stem ++ t.extension]⟩ = stem ++ t.extension := by
    simp [name]
  have hparent : (parent ⟨.here, dirs ++ [stem ++ t.extension]⟩).parts = dirs := by
    simp [parent]
  have hsuffix : t.extension.toList <:+ (stem ++ t.extension).toList := by
    rw [String.toList_append]
    exact List.suffix_append _ _
  refine ⟨rfl, by simp, ?_, ?_, ?_, ?_⟩
  · rw [List.forall_mem_append, List.forall_mem_singleton]
    exact ⟨fun n hn => isPlain_of_isIdentifier (hdirs n hn), isPlain_fileName t hstem⟩
  · rw [hparent]
    exact fun n hn => Naming.not_mem_of_isIdentifier (hdirs n hn) (by decide)
  · rw [hname]
    exact hsuffix.subset (by cases t <;> decide)
  · rw [hname]
    intro htemporary
    -- the two endings have different last characters
    have hlast := (List.suffix_of_suffix_length_le hsuffix htemporary (by cases t <;> decide))
    revert hlast
    cases t <;> decide

namespace Session

/-! ## Paths of generated files -/

theorem path_of_categoryFile {s : Session} {m : CategoryModule} {f : GeneratedFile}
    (h : s.categoryFile m = .ok f) :
    f.kind = .category ∧ f.path = filePath s.target m.path m.containerName := by
  obtain ⟨content, _, h⟩ := bind_eq_ok.mp h
  cases h
  exact ⟨rfl, rfl⟩

theorem path_of_baseFile {s : Session} {package : String}
    (hpackage : s.settings.package = .text package) {base : GeneratedFile}
    (h : s.baseFile = .ok base) :
    base.kind = .base ∧ base.path = filePath s.target package baseTypeName := by
  unfold baseFile at h
  obtain ⟨content, _, h⟩ := bind_eq_ok.mp h
  rw [hpackage] at h
  cases h
  exact ⟨rfl, rfl⟩

/-- A file in a package of identifiers lies in a directory for each of them. -/
theorem filePath_joined (t : Target) {parts : List String}
    (hparts : ∀ p ∈ parts, Naming.isIdentifier p.toList = true) {stem : String}
    (hstem : Naming.isIdentifier stem.toList = true) :
    filePath t (Text.joined "." parts) stem = ⟨.here, parts ++ [stem ++ t.extension]⟩ := by
  have hsplit : (Text.parts '.' (Text.joined "." parts)).filter (· != "") = parts := by
    by_cases hne : parts = []
    · subst hne
      decide
    · have hdots := Text.parts_joined (c := '.') hne fun p hp =>
        Naming.not_mem_of_isIdentifier (hparts p hp) (by decide)
      show (Text.parts '.' (Text.joined (String.singleton '.') parts)).filter _ = parts
      rw [hdots, List.filter_eq_self]
      intro p hp
      simpa using Naming.ne_empty_of_isIdentifier (hparts p hp)
  rw [filePath, hsplit]
  apply Path.ofStrings_plain
  rw [List.forall_mem_append, List.forall_mem_singleton]
  exact ⟨fun p hp => Path.isPlain_of_isIdentifier (hparts p hp), Path.isPlain_fileName t hstem⟩

section
variable {s : Session} {parts : List String}
  (hparts : ∀ p ∈ parts, Naming.isIdentifier p.toList = true)
  (hpackage : s.settings.package = .text (Text.joined "." parts))
include hparts hpackage

/-- The file of a category lies in the directory of the category below those of the package, under
the name of its container. -/
theorem categoryFile_path {c : Category} {m : CategoryModule} {f : GeneratedFile}
    (hm : s.moduleOf c = .ok m) (hf : s.categoryFile m = .ok f) :
    m.path = Text.joined "." (parts ++ [s.rules.moduleName c.name]) ∧ f.kind = .category ∧
      f.path = ⟨.here, parts ++ [s.rules.moduleName c.name] ++
        [m.containerName ++ s.target.extension]⟩ := by
  have hmodule := CategoryModule.path_eq hm
  rw [packageText_eq hpackage, Naming.below_joined hparts] at hmodule
  have hsegment := (s.target.apart_scope.allows_moduleName c.name).1
  have hcontainer := (CategoryModule.allows_containerName hm).1
  have hnames : ∀ p ∈ parts ++ [s.rules.moduleName c.name],
      Naming.isIdentifier p.toList = true := by
    rw [List.forall_mem_append, List.forall_mem_singleton]
    exact ⟨hparts, hsegment⟩
  obtain ⟨hkind, hpath⟩ := path_of_categoryFile hf
  refine ⟨hmodule, hkind, ?_⟩
  rw [hpath, hmodule]
  exact filePath_joined s.target hnames hcontainer

theorem baseFile_path {base : GeneratedFile} (h : s.baseFile = .ok base) : base.kind = .base ∧
    base.path = ⟨.here, parts ++ [baseTypeName ++ s.target.extension]⟩ := by
  obtain ⟨hkind, hpath⟩ := path_of_baseFile hpackage h
  refine ⟨hkind, ?_⟩
  rw [hpath]
  exact filePath_joined s.target hparts (by decide)

theorem filed_categoryFile {c : Category} {m : CategoryModule} {f : GeneratedFile}
    (hm : s.moduleOf c = .ok m) (hf : s.categoryFile m = .ok f) : Path.Filed f.path := by
  rw [(categoryFile_path hparts hpackage hm hf).2.2]
  refine Path.filed ?_ (CategoryModule.allows_containerName hm).1
  rw [List.forall_mem_append, List.forall_mem_singleton]
  exact ⟨hparts, (s.target.apart_scope.allows_moduleName c.name).1⟩

theorem filed_baseFile {base : GeneratedFile} (h : s.baseFile = .ok base) :
    Path.Filed base.path := by
  rw [(baseFile_path hparts hpackage h).2]
  exact Path.filed hparts (by decide)

/-- All files of a generation lie in directories of their own names. -/
theorem filed_of_generation {categories : List Category} {g : Generation}
    (h : (s.generation categories).outcome = .ok g) : ∀ f ∈ g.files, Path.Filed f.path := by
  obtain ⟨built, base, hbuilt, hbase, hfiles⟩ := generation_ok h
  rw [hfiles, List.forall_mem_append, List.forall_mem_singleton]
  refine ⟨fun f hf => ?_, filed_baseFile hparts hpackage hbase⟩
  obtain ⟨⟨m, f⟩, hmem, rfl⟩ := List.mem_map.mp hf
  obtain ⟨c, _, hc⟩ := exists_left_of_mem hbuilt hmem
  exact filed_categoryFile hparts hpackage hc.1 hc.2

end

end Session
end EventCodegen
