import EventCodegen.Proofs.GeneratedPaths
import EventCodegen.Proofs.ShownMarkup

/-! Paths in what is shown. A path is shown without escapes, so a bracket in it may begin a tag, and
one that closes a style needs a slash after the bracket. That slash may come from the path itself:
a name that ends in a bracket has one after it. So the texts that a path is made of are harmless if
no bracket in them has a slash after it or stands at the end (`Harmless`), and then the path of
every generated file can be shown (`Session.fromPackage_of_generation`,
`HarmlessPackage.harmless`). -/
namespace EventCodegen

namespace Display

variable {s t l : List Char}

/-! ## Texts put together -/

theorem opening_nil : Opening [] := opening_of_no_bracket List.not_mem_nil

theorem opening_cons {c : Char} :
    Opening (c :: s) ↔ ¬(c = '[' ∧ s.head? = some '/') ∧ Opening s := by
  have hpair : ['[', '/'] <+: c :: s ↔ c = '[' ∧ s.head? = some '/' := by
    cases s with
    | nil => simp [List.cons_prefix_cons]
    | cons d rest => simp [List.cons_prefix_cons, eq_comm]
  rw [Opening, Opening, List.infix_cons_iff, hpair, not_or]

/-- Between two texts a tag can only come about from a bracket and the slash after it. -/
theorem Opening.append (hs : Opening s) (ht : Opening t)
    (h : s.getLast? ≠ some '[' ∨ t.head? ≠ some '/') : Opening (s ++ t) := by
  induction s with
  | nil => exact ht
  | cons c rest ih =>
    obtain ⟨hc, hrest⟩ := opening_cons.mp hs
    rw [List.cons_append, opening_cons]
    cases rest with
    | nil =>
      refine ⟨fun hpair => ?_, ht⟩
      obtain ⟨rfl, hhead⟩ := hpair
      rcases h with h | h
      · exact h rfl
      · exact h hhead
    | cons d more => exact ⟨hc, ih hrest (by simpa using h)⟩

theorem Opening.within (hs : Opening s) (h : l <:+: s) : Opening l :=
  fun hpair => hs (hpair.trans h)

/-- A text that closes nothing wherever it stands in a path: no bracket in it has a slash after it
or stands at its end. -/
structure Harmless (s : List Char) : Prop where
  opening : Opening s
  last : s.getLast? ≠ some '['

theorem harmless_of_no_bracket (h : '[' ∉ s) : Harmless s :=
  ⟨opening_of_no_bracket h, fun hlast => h (List.mem_of_getLast? hlast)⟩

theorem harmless_iff : Harmless s ↔ Opening (s ++ ['/']) := by
  constructor
  · intro h
    exact h.opening.append (opening_of_no_bracket (by decide)) (Or.inl h.last)
  · intro h
    refine ⟨h.within (List.prefix_append s ['/']).isInfix, fun hlast => ?_⟩
    obtain ⟨front, rfl⟩ := List.getLast?_eq_some_iff.mp hlast
    rw [List.append_assoc] at h
    exact h (List.suffix_append front ['[', '/']).isInfix

/-- The names in a path are harmless if its text is. -/
theorem Harmless.of_mem_splitOn (hs : Harmless s) (h : l ∈ s.splitOn '/') : Harmless l :=
  harmless_iff.mpr ((harmless_iff.mp hs).within (Text.infix_of_mem_splitOn h))

theorem opening_intercalate {c : Char} {ls : List (List Char)} (h : ∀ l ∈ ls, Harmless l)
    (hc : c ≠ '[') : Opening ([c].intercalate ls) := by
  induction ls with
  | nil => exact opening_nil
  | cons l rest ih =>
    rw [List.forall_mem_cons] at h
    by_cases hrest : rest = []
    · subst hrest
      rw [List.intercalate_singleton]
      exact h.1.opening
    · rw [List.intercalate_cons_of_ne_nil hrest, List.append_assoc, List.singleton_append]
      have hrest := opening_cons.mpr ⟨fun hpair => hc hpair.1, ih h.2⟩
      exact h.1.opening.append hrest (Or.inl h.1.last)

end Display

open Display

/-! ## Paths -/

theorem Text.opening_joined {c : Char} (hc : c ≠ '[') {texts : List String}
    (h : ∀ s ∈ texts, Harmless s.toList) : Opening (joined (String.singleton c) texts).toList := by
  rw [joined, String.toList_intercalate, String.toList_singleton]
  exact opening_intercalate (List.forall_mem_map.mpr h) hc

/-- A text whose parts are harmless can be shown. -/
theorem Text.opening_of_parts {c : Char} (hc : c ≠ '[') {s : String}
    (h : ∀ part ∈ parts c s, Harmless part.toList) : Opening s.toList := by
  have hsplit : ∀ l ∈ s.toList.splitOn c, Harmless l := by
    intro l hl
    have hpart := h _ (List.mem_map_of_mem hl)
    rwa [String.toList_ofList] at hpart
  have hjoined := opening_intercalate hsplit hc
  rwa [List.intercalate_splitOn] at hjoined

namespace Path

theorem harmless_of_mem_parts {s part : String} (hs : Harmless s.toList)
    (h : part ∈ (ofString s).parts) : Harmless part.toList := by
  obtain ⟨hpart, _⟩ := List.mem_filter.mp h
  obtain ⟨l, hl, rfl⟩ := List.mem_map.mp hpart
  rw [String.toList_ofList]
  exact hs.of_mem_splitOn hl

/-- The text of a path can be shown if its names are harmless. -/
theorem opening_text {p : Path} (h : ∀ part ∈ p.parts, Harmless part.toList) :
    Opening p.text.toList := by
  unfold text
  split
  · exact opening_of_no_bracket (by decide)
  · have hstart : Harmless (Start.text p.start).toList := by
      cases p.start with
      | here => exact harmless_of_no_bracket (by decide)
      | root => exact harmless_of_no_bracket (by decide)
      | doubleRoot => exact harmless_of_no_bracket (by decide)
    rw [String.toList_append]
    exact hstart.opening.append (Text.opening_joined (c := '/') (by decide) h) (Or.inl hstart.last)

end Path

/-! ## Paths of generated files -/

namespace Session

/-- A name that consists of characters of identifiers and dots. -/
def IsTame (name : String) : Prop :=
  ∀ c ∈ name.toList, Naming.isIdentifierChar c = true ∨ c = '.'

theorem isTame_of_isIdentifier {name : String} (h : Naming.isIdentifier name.toList = true) :
    IsTame name := fun _ hc => Or.inl (Naming.isIdentifierChar_of_mem h hc)

theorem IsTame.not_mem {name : String} (h : IsTame name) {c : Char}
    (hc : Naming.isIdentifierChar c = false) (hdot : c ≠ '.') : c ∉ name.toList := by
  intro hmem
  rcases h c hmem with hchar | heq
  · rw [hc] at hchar
    cases hchar
  · exact hdot heq

/-- A name in the path of a generated file is part of a segment of the package, or tame. -/
def FromPackage (package part : String) : Prop :=
  (∃ segment ∈ Text.parts '.' package, part ∈ (Path.ofString segment).parts) ∨ IsTame part

theorem fromPackage_filePath {t : Target} {package stem part : String}
    (hstem : Naming.isIdentifier stem.toList = true)
    (h : part ∈ (filePath t package stem).parts) : FromPackage package part := by
  obtain ⟨s, hs, hpart⟩ := Path.exists_of_mem_ofStrings h
  rcases List.mem_append.mp hs with hs | hs
  · exact Or.inl ⟨s, (List.mem_filter.mp hs).1, hpart⟩
  · obtain rfl := List.mem_singleton.mp hs
    rw [Path.ofString_plain (Path.isPlain_fileName t hstem), List.mem_singleton] at hpart
    subst hpart
    refine Or.inr fun c hc => ?_
    rw [String.toList_append] at hc
    rcases List.mem_append.mp hc with hc | hc
    · exact isTame_of_isIdentifier hstem c hc
    · have hextension : t.extension.toList.all
          (fun c => Naming.isIdentifierChar c || c == '.') = true := by
        cases t <;> decide
      simpa using List.all_eq_true.mp hextension c hc

theorem fromPackage_below {package segment part : String}
    (hsegment : Naming.isIdentifier segment.toList = true)
    (h : FromPackage (Naming.below package segment) part) : FromPackage package part := by
  rcases h with ⟨s, hs, hpart⟩ | htame
  · have hplain := Path.isPlain_of_isIdentifier hsegment
    have hown : Text.parts '.' segment = [segment] :=
      Text.parts_of_not_mem (Naming.not_mem_of_isIdentifier hsegment (by decide))
    have hcases : s ∈ Text.parts '.' package ∨ s = segment := by
      unfold Naming.below at hs
      split at hs
      · rw [hown] at hs
        exact Or.inr (List.mem_singleton.mp hs)
      · change s ∈ Text.parts '.' (package ++ String.singleton '.' ++ segment) at hs
        rw [Text.parts_append, hown] at hs
        exact (List.mem_append.mp hs).imp_right List.mem_singleton.mp
    rcases hcases with hs | rfl
    · exact Or.inl ⟨s, hs, hpart⟩
    · rw [Path.ofString_plain hplain, List.mem_singleton] at hpart
      exact Or.inr (hpart ▸ isTame_of_isIdentifier hsegment)
  · exact Or.inr htame

/-- The path of a generated file is that of an identifier in the package or right below it. -/
theorem filePath_of_generation {s : Session} {package : String}
    (hpackage : s.settings.package = .text package) {categories : List Category} {g : Generation}
    (h : (s.generation categories).outcome = .ok g) : ∀ f ∈ g.files, ∃ inner stem,
      f.path = filePath s.target inner stem ∧ Naming.isIdentifier stem.toList = true ∧
      (inner = package ∨ ∃ segment, Naming.isIdentifier segment.toList = true ∧
        inner = Naming.below package segment) := by
  obtain ⟨built, base, hbuilt, hbase, hfiles⟩ := generation_ok h
  rw [hfiles, List.forall_mem_append, List.forall_mem_singleton]
  refine ⟨fun f hf => ?_, ?_⟩
  · obtain ⟨⟨m, f⟩, hmem, rfl⟩ := List.mem_map.mp hf
    obtain ⟨c, _, hm, hfile⟩ := exists_left_of_mem hbuilt hmem
    refine ⟨_, _, (path_of_categoryFile hfile).2, (CategoryModule.allows_containerName hm).1,
      Or.inr ⟨_, (s.target.apart_scope.allows_moduleName c.name).1, ?_⟩⟩
    rw [CategoryModule.path_eq hm, packageText_eq hpackage]
    rfl
  · exact ⟨_, _, (path_of_baseFile hpackage hbase).2, by decide, Or.inl rfl⟩

/-- The names in the path of a generated file come from the package, or are tame. -/
theorem fromPackage_of_generation {s : Session} {package : String}
    (hpackage : s.settings.package = .text package) {categories : List Category} {g : Generation}
    (h : (s.generation categories).outcome = .ok g) :
    ∀ f ∈ g.files, ∀ part ∈ f.path.parts, FromPackage package part := by
  intro f hf part hpart
  obtain ⟨inner, stem, hpath, hstem, hinner⟩ := filePath_of_generation hpackage h f hf
  rw [hpath] at hpart
  have hfrom := fromPackage_filePath hstem hpart
  rcases hinner with rfl | ⟨segment, hsegment, rfl⟩
  · exact hfrom
  · exact fromPackage_below hsegment hfrom

end Session

/-- A package whose segments are harmless. -/
def HarmlessPackage (package : String) : Prop :=
  ∀ segment ∈ Text.parts '.' package, Harmless segment.toList

theorem HarmlessPackage.opening {package : String} (h : HarmlessPackage package) :
    Opening package.toList :=
  Text.opening_of_parts (c := '.') (by decide) h

theorem HarmlessPackage.harmless {package part : String} (h : HarmlessPackage package)
    (hpart : Session.FromPackage package part) : Harmless part.toList := by
  rcases hpart with ⟨segment, hsegment, hpart⟩ | htame
  · exact Path.harmless_of_mem_parts (h segment hsegment) hpart
  · exact harmless_of_no_bracket (htame.not_mem (by decide) (by decide))

end EventCodegen
