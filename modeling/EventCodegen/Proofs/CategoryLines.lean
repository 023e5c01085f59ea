import EventCodegen.Generation.Session
import EventCodegen.Proofs.BuiltModules
import EventCodegen.Proofs.SourceLines

/-! The lines of a category file, one part of the file after the other. Whatever texts the plan
holds, every line of the file of a built module is sound (`allSound_categoryLines`): the names in
its code are identifiers, and everything else from the plan stands in literals. -/
namespace EventCodegen

/-! ## Packages -/

/-- Identifiers joined by dots, perhaps none. -/
def Naming.IsPackage (package : String) : Prop :=
  ∃ parts : List String, (∀ p ∈ parts, isIdentifier p.toList = true) ∧
    package = Text.joined "." parts

namespace Source

theorem isCode_of_isIdentifier {name : String} (h : Naming.isIdentifier name.toList = true) :
    IsCode name := by
  intro c hc
  have hchar := Naming.isIdentifierChar_of_mem h hc
  refine ⟨?_, ?_⟩
  · rintro rfl
    exact absurd hchar (by decide)
  · rintro rfl
    exact absurd hchar (by decide)

/-- Characters of identifiers are no white space. -/
theorem isBlank_of_isIdentifierChar {c : Char} (h : Naming.isIdentifierChar c = true) :
    Text.isBlank c = false := by
  have hrange : 0x20 < c.toNat ∧ c.toNat < 0x85 := by
    simp only [Naming.isIdentifierChar, Bool.or_eq_true, Bool.and_eq_true, decide_eq_true_eq,
      Char.le_def, UInt32.le_iff_toNat_le, beq_iff_eq] at h
    rcases h with ((⟨hlow, hhigh⟩ | ⟨hlow, hhigh⟩) | ⟨hlow, hhigh⟩) | rfl
    · exact ⟨lt_of_lt_of_le (by decide) hlow, lt_of_le_of_lt hhigh (by decide)⟩
    · exact ⟨lt_of_lt_of_le (by decide) hlow, lt_of_le_of_lt hhigh (by decide)⟩
    · exact ⟨lt_of_lt_of_le (by decide) hlow, lt_of_le_of_lt hhigh (by decide)⟩
    · decide
  simp only [Text.isBlank, Text.blankRanges, Text.inRanges]
  rw [if_neg (by omega), if_neg (by omega), if_pos hrange.2]
  simp
  omega

theorem opens_of_isIdentifier {name : String} (h : Naming.isIdentifier name.toList = true) :
    Opens name.toList := by
  have hne := Naming.ne_nil_of_isIdentifier h
  have hchar := Naming.isIdentifierChar_of_mem h (List.head_mem hne)
  rw [Opens, List.head?_eq_some_head hne, Option.any_some, isBlank_of_isIdentifierChar hchar]
  rfl

theorem closes_of_isIdentifier {name : String} (h : Naming.isIdentifier name.toList = true) :
    Closes name.toList := by
  have hne := Naming.ne_nil_of_isIdentifier h
  have hchar := Naming.isIdentifierChar_of_mem h (List.getLast_mem hne)
  rw [Closes, List.getLast?_eq_some_getLast hne, Option.any_some, isBlank_of_isIdentifierChar hchar]
  rfl

/-- A name stands at the end of its path. -/
theorem closes_below (package : String) {part : String}
    (hpart : Naming.isIdentifier part.toList = true) :
    Closes (Naming.below package part).toList := by
  unfold Naming.below
  split
  · exact closes_of_isIdentifier hpart
  · rw [String.toList_append]
    exact (closes_of_isIdentifier hpart).append _

theorem isCode_of_isPackage {package : String} (h : Naming.IsPackage package) : IsCode package := by
  obtain ⟨parts, hparts, rfl⟩ := h
  show IsCode (String.intercalate "." parts)
  induction parts with
  | nil => decide
  | cons p rest ih =>
    have hp := isCode_of_isIdentifier (hparts p List.mem_cons_self)
    have hrest := ih fun q hq => hparts q (List.mem_cons_of_mem p hq)
    by_cases hne : rest = []
    · subst hne
      rwa [String.intercalate_singleton]
    · rw [String.intercalate_cons_of_ne_nil hne]
      simp only [isCode_append]
      exact ⟨⟨hp, by decide⟩, hrest⟩

theorem isCode_below {package part : String} (h : Naming.IsPackage package) (hpart : IsCode part) :
    IsCode (Naming.below package part) := by
  unfold Naming.below
  split
  · exact hpart
  · simp only [isCode_append]
    exact ⟨⟨isCode_of_isPackage h, by decide⟩, hpart⟩

end Source

/-! ## Names in code -/

namespace CategoryModule

/-- What holds of the module of every category: its names are identifiers, no constant is empty, all
event types belong to the category, and those of simple events have no fields. -/
structure Proper (m : CategoryModule) : Prop where
  container : Naming.isIdentifier m.containerName.toList = true
  type : ∀ e ∈ m.eventTypes, Naming.isIdentifier e.name.toList = true
  field : ∀ e ∈ m.eventTypes, ∀ f ∈ e.fields, Naming.isIdentifier f.name.toList = true
  constant : ∀ c ∈ m.constants, Naming.isIdentifier c.name.toList = true
  path : ∃ package segment, Naming.IsPackage package ∧
    Naming.isIdentifier segment.toList = true ∧ m.path = Naming.below package segment
  value : ∀ c ∈ m.constants, c.value ≠ ""
  category : ∀ e ∈ m.eventTypes, e.categoryName = m.categoryName
  simple : ∀ e ∈ m.eventTypes, e.isSimple = true → e.fields = []

theorem proper_of_ofCategory {t : Target} {strict : Bool} {package : String} {c : Category}
    {m : CategoryModule} (hpackage : Naming.IsPackage package)
    (h : ofCategory t.scope strict package c = .ok m) : m.Proper where
  container := (allows_containerName h).1
  type _ htype := (allows_typeName h htype).1
  field _ htype _ hf := (allows_fieldName h htype hf).1
  constant _ hmem := (allows_constantName h hmem).1
  path := ⟨package, t.scope.moduleName c.name, hpackage, (t.apart_scope.allows_moduleName c.name).1,
    path_eq h⟩
  value _ hmem := ne_empty_of_mem_constants h hmem
  category _ htype := by
    obtain ⟨events, _, rfl⟩ := ofCategory_ok h
    obtain ⟨r, _, rfl⟩ := List.mem_map.mp htype
    rfl
  simple _ htype hsimple := by
    obtain ⟨e, _, used, rfl⟩ := exists_left_of_mem (forall₂_eventTypes h) htype
    exact if_pos hsimple

theorem Proper.constantFor? {m : CategoryModule} (hm : m.Proper) {value : String}
    {name : String} (h : m.constantFor? value = some name) :
    Naming.isIdentifier name.toList = true := by
  obtain ⟨c, hc, rfl⟩ := Option.map_eq_some_iff.mp h
  exact hm.constant c (List.mem_of_find?_eq_some hc)

end CategoryModule

namespace Source

/-! ## Sound lists of lines -/

/-- Every one of some lines is sound. -/
def AllSound (t : Target) (ls : List Line) : Prop := ∀ l ∈ ls, l.Sound t

/-- Every one of some lines is neat. -/
def AllNeat (t : Target) (ls : List Line) : Prop := ∀ l ∈ ls, l.Neat t

section
variable {t : Target}

theorem AllSound.neat {ls : List Line} (h : AllSound t ls) : AllNeat t ls :=
  fun l hl => (h l hl).neat

theorem AllSound.nil : AllSound t [] := fun _ h => (List.not_mem_nil h).elim

theorem AllSound.cons {l : Line} {ls : List Line} (h : l.Sound t) (hs : AllSound t ls) :
    AllSound t (l :: ls) := List.forall_mem_cons.mpr ⟨h, hs⟩

theorem AllSound.append {ks ls : List Line} (hk : AllSound t ks) (hl : AllSound t ls) :
    AllSound t (ks ++ ls) := List.forall_mem_append.mpr ⟨hk, hl⟩

theorem AllSound.onlyIf {ls : List Line} (h : AllSound t ls) (condition : Bool) :
    AllSound t (onlyIf condition ls) := by
  cases condition with
  | false => exact AllSound.nil
  | true => exact h

theorem AllSound.map {α : Type} {as : List α} {f : α → Line} (h : ∀ a ∈ as, (f a).Sound t) :
    AllSound t (as.map f) := List.forall_mem_map.mpr h

theorem AllSound.flatMap {α : Type} {as : List α} {f : α → List Line}
    (h : ∀ a ∈ as, AllSound t (f a)) : AllSound t (as.flatMap f) := by
  intro l hl
  obtain ⟨a, ha, hmem⟩ := List.mem_flatMap.mp hl
  exact h a ha l hmem

end

/-! ## The lines of a file -/

theorem allSound_identity (t : Target) (level : Nat) (e : EventType) :
    AllSound t (identity level e) :=
  .cons (Line.sound_argument t level _) (.cons (Line.sound_argument t level _)
    (.cons (Line.sound_argument t level _) .nil))

/-- Code without any name. -/
theorem sound_fixed (t : Target) (level : Nat) {s : String}
    (h : IsCode s ∧ Opens s.toList ∧ Closes s.toList) : (Line.code level s).Sound t :=
  Line.sound_code t level h.1 h.2.1 h.2.2

/-- Code with a name in it. -/
theorem sound_named (t : Target) (level : Nat) {before name after : String}
    (hname : Naming.isIdentifier name.toList = true) (hbefore : IsCode before ∧ Opens before.toList)
    (hafter : IsCode after ∧ Closes after.toList) :
    (Line.code level (before ++ name ++ after)).Sound t := by
  apply Line.sound_code
  · simp only [isCode_append]
    exact ⟨⟨hbefore.1, isCode_of_isIdentifier hname⟩, hafter.1⟩
  · rw [String.toList_append, String.toList_append, List.append_assoc]
    exact hbefore.2.append _
  · rw [String.toList_append]
    exact hafter.2.append _

/-- The head of a type that extends the base type. -/
theorem sound_extending (t : Target) (level : Nat) {before name middle after : String}
    (hname : Naming.isIdentifier name.toList = true) (hbefore : IsCode before ∧ Opens before.toList)
    (hmiddle : IsCode middle) (hafter : IsCode after ∧ Closes after.toList) :
    (Line.code level (before ++ name ++ middle ++ baseTypeName ++ after)).Sound t := by
  have hassoc : before ++ name ++ middle ++ baseTypeName ++ after =
      before ++ name ++ (middle ++ (baseTypeName ++ after)) := by simp only [String.append_assoc]
  rw [hassoc]
  apply sound_named t level hname hbefore
  refine ⟨?_, ?_⟩
  · simp only [isCode_append]
    exact ⟨hmiddle, by decide, hafter.1⟩
  · rw [String.toList_append, String.toList_append]
    exact (hafter.2.append _).append _

section
variable {m : CategoryModule} (hm : m.Proper) {e : EventType} (he : e ∈ m.eventTypes)
include hm

/-- The remark on a field is code that ends in a name, if there is one. -/
theorem fieldRemark_spec (comments : Bool) (f : Field) : fieldRemark comments m f = "" ∨
    IsCode (fieldRemark comments m f) ∧ Closes (fieldRemark comments m f).toList := by
  unfold fieldRemark
  split
  · split
    · next name hname =>
      have hid := hm.constantFor? hname
      refine Or.inr ⟨?_, ?_⟩
      · simp only [isCode_append]
        exact ⟨⟨by decide, by decide⟩, isCode_of_isIdentifier hid⟩
      · rw [String.toList_append]
        exact (closes_of_isIdentifier hid).append _
    · exact Or.inl rfl
  · exact Or.inl rfl

include he

theorem allSound_pythonSingleton (comments : Bool) :
    AllSound .python (pythonSingleton comments e) := by
  refine .append (.append (.append (.append ?_ ?_) ?_) (allSound_identity _ 4 e)) ?_
  · exact .cons (sound_fixed _ 1 (by decide))
      (.cons (sound_extending _ 1 (hm.type e he) (by decide) (by decide) (by decide)) .nil)
  · exact .onlyIf (.cons (Line.sound_literal _ 2 _) (.cons (Line.sound_blank _) .nil)) comments
  · exact .cons (sound_fixed _ 2 (by decide))
      (.cons (sound_fixed _ 3 (by decide)) .nil)
  · exact .cons (sound_fixed _ 4 (by decide))
      (.cons (sound_fixed _ 3 (by decide)) .nil)

theorem allSound_pythonRecord (comments : Bool) :
    AllSound .python (pythonRecord comments m e) := by
  have hfields : AllSound .python (e.fields.map fun f =>
      .code 2 (f.name ++ ": str" ++ fieldRemark comments m f)) := by
    refine .map fun f hf => ?_
    have hid := hm.field e he f hf
    have hopen : Opens (f.name ++ ": str" ++ fieldRemark comments m f).toList := by
      rw [String.toList_append, String.toList_append, List.append_assoc]
      exact (opens_of_isIdentifier hid).append _
    -- the line ends in the type of the field or in the name of a constant
    rcases fieldRemark_spec hm comments f with hempty | ⟨hcode, hclose⟩
    · rw [hempty, String.append_empty] at hopen ⊢
      refine Line.sound_code _ 2 (isCode_append.mpr ⟨isCode_of_isIdentifier hid, by decide⟩) hopen ?_
      rw [String.toList_append]
      exact Closes.append (by decide) _
    · refine Line.sound_code _ 2 ?_ hopen ?_
      · simp only [isCode_append]
        exact ⟨⟨isCode_of_isIdentifier hid, by decide⟩, hcode⟩
      · rw [String.toList_append]
        exact hclose.append _
  have hentries : AllSound .python (e.fields.map fun f =>
      ⟨5, [.literal f.key, .code (": self." ++ f.name ++ ",")]⟩) := by
    refine .map fun f hf => Line.sound_literal_code _ 5 _ ?_ ?_
    · simp only [isCode_append]
      exact ⟨⟨by decide, isCode_of_isIdentifier (hm.field e he f hf)⟩, by decide⟩
    · rw [String.toList_append]
      exact Closes.append (by decide) _
  -- one goal for each part of the record that the facts above do not cover, in its order
  refine .append (.append (.append (.append (.append (.append (.append (.append ?_ ?_) hfields) ?_)
    ?_) (allSound_identity _ 4 e)) ?_) hentries) ?_
  · exact .cons (sound_fixed _ 1 (by decide))
      (.cons (sound_extending _ 1 (hm.type e he) (by decide) (by decide) (by decide)) .nil)
  · exact .onlyIf (.cons (Line.sound_literal _ 2 _) (.cons (Line.sound_blank _) .nil)) comments
  · exact .onlyIf (.cons (Line.sound_blank _) .nil) _
  · exact .cons (sound_fixed _ 2 (by decide))
      (.cons (sound_fixed _ 3 (by decide)) .nil)
  · exact .cons (sound_fixed _ 4 (by decide)) .nil
  · exact .cons (sound_fixed _ 4 (by decide))
      (.cons (sound_fixed _ 3 (by decide)) .nil)

theorem allSound_pythonEvent (comments : Bool) : AllSound .python (pythonEvent comments m e) := by
  refine .cons (Line.sound_blank _) ?_
  split
  · exact allSound_pythonSingleton hm he comments
  · exact allSound_pythonRecord hm he comments

theorem allSound_kotlinSingleton : AllSound .kotlin (kotlinSingleton e) := by
  refine .append (.append ?_ (allSound_identity _ 2 e)) ?_
  · exact .cons (sound_extending _ 1 (hm.type e he) (by decide) (by decide) (by decide)) .nil
  · exact .cons (sound_fixed _ 2 (by decide)) (.cons (sound_fixed _ 1 (by decide)) .nil)

theorem allSound_kotlinRecord : AllSound .kotlin (kotlinRecord e) := by
  have hhead : (Line.code 1 ((if e.fields.isEmpty then "" else "data ") ++ "class " ++ e.name ++
      "(")).Sound .kotlin := by
    apply sound_named _ 1 (hm.type e he) _ (by decide)
    split
    · decide
    · decide
  have hfields : AllSound .kotlin (e.fields.map fun f =>
      .code 2 ("val " ++ f.name ++ ": String,")) :=
    .map fun f hf => sound_named _ 2 (hm.field e he f hf) (by decide) (by decide)
  have hentries : AllSound .kotlin (e.fields.map fun f =>
      ⟨3, [.literal f.key, .code (" to " ++ f.name ++ ",")]⟩) := by
    refine .map fun f hf => Line.sound_literal_code _ 3 _ ?_ ?_
    · simp only [isCode_append]
      exact ⟨⟨by decide, isCode_of_isIdentifier (hm.field e he f hf)⟩, by decide⟩
    · rw [String.toList_append]
      exact Closes.append (by decide) _
  refine .append (.append (.append (.append (.append (.append (.cons hhead .nil) hfields) ?_)
    (allSound_identity _ 2 e)) ?_) hentries) ?_
  · exact .cons (sound_fixed _ 1 (by decide)) .nil
  · exact .cons (sound_fixed _ 2 (by decide)) .nil
  · exact .cons (sound_fixed _ 2 (by decide)) (.cons (sound_fixed _ 1 (by decide)) .nil)

theorem allSound_kotlinEvent (comments : Bool) : AllSound .kotlin (kotlinEvent comments e) := by
  refine .append (.cons (Line.sound_blank _) (.onlyIf (.cons ?_ .nil) comments)) ?_
  · exact Line.sound_around _ 1 _ (by decide) (by decide) (by decide) (Or.inl rfl)
  · split
    · exact allSound_kotlinSingleton hm he
    · exact allSound_kotlinRecord hm he

end

section
variable {m : CategoryModule} (hm : m.Proper)
include hm

theorem allSound_pythonValues (comments : Bool) : AllSound .python (pythonValues comments m) := by
  refine .append (.append ?_ ?_) (.map fun c hc => Line.sound_code_literal _ 2 _ ?_ ?_)
  · exact .cons (Line.sound_blank _) (.cons (sound_fixed _ 1 (by decide)) .nil)
  · exact .onlyIf (.cons (Line.sound_literal _ 2 _) (.cons (Line.sound_blank _) .nil)) comments
  · exact isCode_append.mpr ⟨isCode_of_isIdentifier (hm.constant c hc), by decide⟩
  · rw [String.toList_append]
    exact (opens_of_isIdentifier (hm.constant c hc)).append _

theorem allSound_kotlinValues : AllSound .kotlin (kotlinValues m) := by
  refine .append (.append ?_ (.map fun c hc => Line.sound_code_literal _ 2 _ ?_ ?_)) ?_
  · exact .cons (Line.sound_blank _) (.cons (sound_fixed _ 1 (by decide)) .nil)
  · simp only [isCode_append]
    exact ⟨⟨by decide, isCode_of_isIdentifier (hm.constant c hc)⟩, by decide⟩
  · rw [String.toList_append, String.toList_append, List.append_assoc]
    exact Opens.append (by decide) _
  · exact .cons (sound_fixed _ 1 (by decide)) .nil

theorem allSound_pythonCategory (comments : Bool) {package : String}
    (hpackage : Naming.IsPackage package) :
    AllSound .python (pythonCategory comments package m) := by
  have himport : (Line.code 0 ("from " ++ Naming.below package baseTypeName ++ " import " ++
      baseTypeName ++ if m.hasSingletons then ", singleton" else "")).Sound .python := by
    have hbelow := isCode_below hpackage (by decide : IsCode baseTypeName)
    apply Line.sound_code
    · simp only [isCode_append]
      refine ⟨⟨⟨⟨by decide, hbelow⟩, by decide⟩, by decide⟩, ?_⟩
      split
      · decide
      · decide
    · simp only [String.toList_append, List.append_assoc]
      exact Opens.append (by decide) _
    · split
      · rw [String.toList_append]
        exact Closes.append (by decide) _
      · rw [String.append_empty, String.toList_append]
        exact Closes.append (by decide) _
  refine .append (.append (.append (.append (.append ?_ ?_) ?_) ?_) ?_) ?_
  · exact .cons (Line.sound_literal _ 0 _) (.cons (sound_fixed _ 0 (by decide))
      (.cons (Line.sound_blank _) .nil))
  · exact .onlyIf (.cons (sound_fixed _ 0 (by decide)) .nil) _
  · exact .onlyIf (.cons (sound_fixed _ 0 (by decide)) .nil) _
  · exact .cons (Line.sound_blank _) (.cons himport (.cons (Line.sound_blank _)
      (.cons (Line.sound_blank _) (.cons (sound_named _ 0 hm.container (by decide) (by decide))
        (.cons (Line.sound_literal _ 1 _) .nil)))))
  · exact .flatMap fun e he => allSound_pythonEvent hm he comments
  · exact .onlyIf (allSound_pythonValues hm comments) _

theorem allSound_kotlinCategory (comments : Bool) {package : String}
    (hpackage : Naming.IsPackage package) :
    AllSound .kotlin (kotlinCategory comments package m) := by
  have hpath : (Line.code 0 ("package " ++ m.path)).Sound .kotlin := by
    obtain ⟨parent, segment, hparent, hsegment, hpath⟩ := hm.path
    rw [hpath]
    apply Line.sound_code
    · exact isCode_append.mpr
        ⟨by decide, isCode_below hparent (isCode_of_isIdentifier hsegment)⟩
    · rw [String.toList_append]
      exact Opens.append (by decide) _
    · rw [String.toList_append]
      exact (closes_below parent hsegment).append _
  have himport : (Line.code 0 ("import " ++ package ++ "." ++ baseTypeName)).Sound .kotlin := by
    apply Line.sound_code
    · simp only [isCode_append]
      exact ⟨⟨⟨by decide, isCode_of_isPackage hpackage⟩, by decide⟩, by decide⟩
    · simp only [String.toList_append, List.append_assoc]
      exact Opens.append (by decide) _
    · rw [String.toList_append]
      exact Closes.append (by decide) _
  refine .append (.append (.append (.append (.append (.append (.append (.append ?_ ?_) ?_) ?_) ?_)
    ?_) ?_) ?_) ?_
  · exact .cons (sound_fixed _ 0 (by decide)) .nil
  · exact .onlyIf (.cons hpath .nil) _
  · exact .cons (Line.sound_blank _) .nil
  · exact .onlyIf (.cons himport (.cons (Line.sound_blank _) .nil)) _
  · exact .onlyIf (.cons (Line.sound_around _ 0 _ (by decide) (by decide) (by decide)
      (Or.inr (by decide))) .nil) comments
  · exact .cons (sound_named _ 0 hm.container (by decide) (by decide)) .nil
  · exact .flatMap fun e he => allSound_kotlinEvent hm he comments
  · exact .onlyIf (allSound_kotlinValues hm) _
  · exact .cons (sound_fixed _ 0 (by decide)) .nil

/-- Every line of the file of a category is sound. -/
theorem allSound_categoryLines (t : Target) (comments : Bool) {package : String}
    (hpackage : Naming.IsPackage package) : AllSound t (categoryLines t comments package m) := by
  cases t with
  | python => exact allSound_pythonCategory hm comments hpackage
  | kotlin => exact allSound_kotlinCategory hm comments hpackage

end

theorem categoryLines_ne_nil (t : Target) (comments : Bool) (package : String) (m : CategoryModule) :
    categoryLines t comments package m ≠ [] := by
  cases t <;> simp [categoryLines, pythonCategory, kotlinCategory]

end Source

namespace Session

/-- A session with the settings that the generator of its language has if it is given none. -/
def standard (t : Target) : Session := ⟨Generator.ownSettings t, ⟨t, Generator.ownSettings t⟩⟩

/-- With a usable width all lines can be laid out. -/
theorem laidOut_ok {s : Session} {n : Int}
    (hwidth : Indent.ofJson s.generator.settings.indentSize = .spaces n) (ls : List Source.Line) :
    s.laidOut ls = .ok (String.ofList (Layout.format n (Source.text s.target ls))) := by
  unfold laidOut
  rw [hwidth]
  rfl

/-- With a usable width the file of a category can always be laid out. -/
theorem categoryFile_ok {s : Session} {n : Int}
    (hwidth : Indent.ofJson s.generator.settings.indentSize = .spaces n) (m : CategoryModule) :
    s.categoryFile m = .ok
      { path := filePath s.target m.path m.containerName
        content := String.ofList (Layout.format n (Source.text s.target
          (Source.categoryLines s.target s.generator.settings.hasComments s.settings.packageText m)))
        kind := .category } := by
  unfold categoryFile
  rw [laidOut_ok hwidth]
  rfl

end Session
end EventCodegen
