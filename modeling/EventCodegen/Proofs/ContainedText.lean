import EventCodegen.Proofs.CategoryLines

/-! Texts of the plan do not leave their literals. What a category file shows outside of literals is
decided by the outline of its module: names, which events are simple, and which field has which
constant. Modules with one outline give files that differ in their literals alone
(`literals_contain_texts`), whatever quotes, backslashes or line ends the texts hold. -/
namespace EventCodegen

/-! ## Outlines -/

/-- A field without its key and its value: its name, and the constant that holds the value, if one
does. -/
structure FieldOutline where
  name : String
  constant? : Option String
deriving DecidableEq, Repr

/-- An event type without its texts. -/
structure TypeOutline where
  name : String
  isSimple : Bool
  fields : List FieldOutline
deriving DecidableEq, Repr

/-- A module without the texts of the plan. -/
structure Outline where
  containerName : String
  path : String
  types : List TypeOutline
  constants : List String
deriving DecidableEq, Repr

namespace CategoryModule

def fieldOutline (m : CategoryModule) (f : Field) : FieldOutline := ⟨f.name, m.constantFor? f.value⟩

def typeOutline (m : CategoryModule) (e : EventType) : TypeOutline :=
  ⟨e.name, e.isSimple, e.fields.map m.fieldOutline⟩

def outline (m : CategoryModule) : Outline :=
  ⟨m.containerName, m.path, m.eventTypes.map m.typeOutline, m.constants.map (·.name)⟩

end CategoryModule

namespace Source

/-! ## Lines without the texts in their literals -/

@[simp] theorem erase_blank : Line.blank.erase = .blank := rfl
@[simp] theorem erase_code (level : Nat) (s : String) : (Line.code level s).erase = .code level s :=
  rfl
@[simp] theorem erase_literal (level : Nat) (raw : String) :
    (Line.literal level raw).erase = .literal level "" := rfl
@[simp] theorem erase_around (level : Nat) (before raw after : String) :
    (Line.around level before raw after).erase = .around level before "" after := rfl

@[simp] theorem map_onlyIf (f : Line → Line) (condition : Bool) (ls : List Line) :
    (onlyIf condition ls).map f = onlyIf condition (ls.map f) := by
  cases condition <;> rfl

/-- What a remark says about the constant of a field, if it has one. -/
def constantRemark (comments : Bool) (constant? : Option String) : String :=
  if comments then (constant?.map (fun c => "  # e.g. " ++ valuesName ++ "." ++ c)).getD "" else ""

/-- No constant is empty, so a field without a value gets no remark. -/
theorem fieldRemark_eq {m : CategoryModule} (hm : m.Proper) (comments : Bool) (f : Field) :
    fieldRemark comments m f = constantRemark comments (m.constantFor? f.value) := by
  have hnone : f.value = "" → m.constantFor? f.value = none := by
    intro hempty
    have hfind : m.constants.find? (·.value == f.value) = none := by
      rw [List.find?_eq_none]
      intro c hc heq
      exact hm.value c hc ((beq_iff_eq.mp heq).trans hempty)
    rw [CategoryModule.constantFor?, hfind]
    rfl
  unfold fieldRemark constantRemark
  by_cases hvalue : f.value = ""
  · rw [hnone hvalue]
    cases comments <;> simp [hvalue]
  · cases comments with
    | false => simp
    | true => cases hfor : m.constantFor? f.value <;> simp [hvalue]

section
variable {m₁ m₂ : CategoryModule} {e₁ e₂ : EventType}

theorem erase_identity (level : Nat) (e₁ e₂ : EventType) :
    (identity level e₁).map Line.erase = (identity level e₂).map Line.erase := rfl

theorem isEmpty_eq (h : e₁.fields.map m₁.fieldOutline = e₂.fields.map m₂.fieldOutline) :
    e₁.fields.isEmpty = e₂.fields.isEmpty := by
  have hempty := congrArg List.isEmpty h
  rwa [List.isEmpty_map, List.isEmpty_map] at hempty

/-- Lines for the fields of an event are the same without their texts if they depend on nothing but
what the outline says of a field. -/
theorem erase_fields {f g : Field → Line}
    (h : e₁.fields.map m₁.fieldOutline = e₂.fields.map m₂.fieldOutline)
    (hline : ∀ a b, m₁.fieldOutline a = m₂.fieldOutline b → (f a).erase = (g b).erase) :
    (e₁.fields.map f).map Line.erase = (e₂.fields.map g).map Line.erase := by
  rw [List.map_map, List.map_map]
  exact map_eq_of_keys h hline

theorem erase_entries (level : Nat) (after : String → String)
    (h : e₁.fields.map m₁.fieldOutline = e₂.fields.map m₂.fieldOutline) :
    (e₁.fields.map fun f => (⟨level, [.literal f.key, .code (after f.name)]⟩ : Line)).map
      Line.erase =
    (e₂.fields.map fun f => (⟨level, [.literal f.key, .code (after f.name)]⟩ : Line)).map
      Line.erase := by
  refine erase_fields h fun a b hab => ?_
  simp [Line.erase, Piece.erase, (FieldOutline.mk.inj hab).1]

theorem erase_pythonEvent (hm₁ : m₁.Proper) (hm₂ : m₂.Proper) (comments : Bool)
    (h : m₁.typeOutline e₁ = m₂.typeOutline e₂) :
    (pythonEvent comments m₁ e₁).map Line.erase = (pythonEvent comments m₂ e₂).map Line.erase := by
  obtain ⟨hname, hsimple, hfields⟩ := TypeOutline.mk.inj h
  -- a remark names the constant of a field, and the outline fixes which one that is
  have hdeclarations := erase_fields hfields
    (f := fun f => .code 2 (f.name ++ ": str" ++ fieldRemark comments m₁ f))
    (g := fun f => .code 2 (f.name ++ ": str" ++ fieldRemark comments m₂ f)) (by
      intro a b hab
      obtain ⟨hfield, hconstant⟩ := FieldOutline.mk.inj hab
      rw [fieldRemark_eq hm₁, fieldRemark_eq hm₂, hfield, hconstant])
  have hentries := erase_entries 5 (": self." ++ · ++ ",") hfields
  unfold pythonEvent
  rw [hsimple]
  cases e₂.isSimple with
  | true => simp [pythonSingleton, hname, erase_identity 4 e₁ e₂]
  | false =>
    simp only [Bool.false_eq_true, if_false, pythonRecord, List.map_cons, List.map_append,
      List.map_nil, map_onlyIf, erase_blank, erase_code, erase_literal, hname, isEmpty_eq hfields,
      hdeclarations, hentries, erase_identity 4 e₁ e₂]

theorem erase_kotlinEvent (comments : Bool) (h : m₁.typeOutline e₁ = m₂.typeOutline e₂) :
    (kotlinEvent comments e₁).map Line.erase = (kotlinEvent comments e₂).map Line.erase := by
  obtain ⟨hname, hsimple, hfields⟩ := TypeOutline.mk.inj h
  have hdeclarations := erase_fields hfields
    (f := fun f => .code 2 ("val " ++ f.name ++ ": String,"))
    (g := fun f => .code 2 ("val " ++ f.name ++ ": String,")) (by
      intro a b hab
      rw [(FieldOutline.mk.inj hab).1])
  have hentries := erase_entries 3 (" to " ++ · ++ ",") hfields
  unfold kotlinEvent
  rw [hsimple]
  cases e₂.isSimple with
  | true => simp [kotlinSingleton, hname, erase_identity 2 e₁ e₂]
  | false =>
    simp only [Bool.false_eq_true, if_false, kotlinRecord, List.map_cons, List.map_append,
      List.map_nil, map_onlyIf, erase_around, erase_blank, erase_code, hname, isEmpty_eq hfields,
      hdeclarations, hentries, erase_identity 2 e₁ e₂]

theorem erase_constants (level : Nat) (before : String → String)
    (h : m₁.constants.map (·.name) = m₂.constants.map (·.name)) :
    (m₁.constants.map fun c => (⟨level, [.code (before c.name), .literal c.value]⟩ : Line)).map
      Line.erase =
    (m₂.constants.map fun c => (⟨level, [.code (before c.name), .literal c.value]⟩ : Line)).map
      Line.erase := by
  rw [List.map_map, List.map_map]
  refine map_eq_of_keys h fun a b hab => ?_
  simp [Line.erase, Piece.erase, hab]

theorem hasConstants_eq (h : m₁.outline = m₂.outline) : m₁.hasConstants = m₂.hasConstants := by
  have hempty := congrArg (fun o => o.constants.isEmpty) h
  simp only [CategoryModule.outline, List.isEmpty_map] at hempty
  rw [CategoryModule.hasConstants, hempty, CategoryModule.hasConstants]

theorem hasSingletons_eq (h : m₁.outline = m₂.outline) : m₁.hasSingletons = m₂.hasSingletons := by
  have hany := congrArg (fun o => o.types.any (·.isSimple)) h
  simp only [CategoryModule.outline, List.any_map] at hany
  exact hany

theorem hasRecords_eq (h : m₁.outline = m₂.outline) : m₁.hasRecords = m₂.hasRecords := by
  have hany := congrArg (fun o => o.types.any (!·.isSimple)) h
  simp only [CategoryModule.outline, List.any_map] at hany
  exact hany

/-- Two modules with one outline have the same lines around their texts. -/
theorem erase_categoryLines (hm₁ : m₁.Proper) (hm₂ : m₂.Proper) (h : m₁.outline = m₂.outline)
    (t : Target) (comments : Bool) (package : String) :
    (categoryLines t comments package m₁).map Line.erase =
      (categoryLines t comments package m₂).map Line.erase := by
  obtain ⟨hcontainer, hpath, htypes, hconstants⟩ := Outline.mk.inj h
  cases t with
  | python =>
    have hevents : (m₁.eventTypes.flatMap (pythonEvent comments m₁)).map Line.erase =
        (m₂.eventTypes.flatMap (pythonEvent comments m₂)).map Line.erase := by
      rw [List.map_flatMap, List.map_flatMap, List.flatMap_def, List.flatMap_def]
      exact congrArg _ (map_eq_of_keys htypes fun _ _ => erase_pythonEvent hm₁ hm₂ comments)
    have hvalues := erase_constants 2 (· ++ ": Final = ") hconstants
    simp only [categoryLines, pythonCategory, pythonValues, List.map_append, List.map_cons,
      List.map_nil, map_onlyIf, erase_blank, erase_code, erase_literal, hcontainer, hevents, hvalues,
      hasConstants_eq h, hasSingletons_eq h, hasRecords_eq h]
  | kotlin =>
    have hevents : (m₁.eventTypes.flatMap (kotlinEvent comments)).map Line.erase =
        (m₂.eventTypes.flatMap (kotlinEvent comments)).map Line.erase := by
      rw [List.map_flatMap, List.map_flatMap, List.flatMap_def, List.flatMap_def]
      exact congrArg _ (map_eq_of_keys htypes fun _ _ => erase_kotlinEvent comments)
    have hvalues := erase_constants 2 ("const val " ++ · ++ " = ") hconstants
    simp only [categoryLines, kotlinCategory, kotlinValues, List.map_append, List.map_cons,
      List.map_nil, map_onlyIf, erase_blank, erase_code, erase_around, hcontainer, hpath, hevents,
      hvalues, hasConstants_eq h]

end

/-! ## Masked files -/

/-- Masking a laid-out text leaves the layout of the lines without their texts. -/
theorem mask_lines_format {t : Target} {ls : List Line} (h : AllSound t ls) (hne : ls ≠ []) (n : Int) :
    (Text.lines (Layout.format n (text t ls))).map maskLine =
      Text.lines (Layout.format n (text t (ls.map Line.erase))) := by
  have hmask : (ls.map (Line.render t)).map maskLine = (ls.map Line.erase).map (Line.render t) := by
    rw [List.map_map, List.map_map]
    exact List.map_congr_left fun l hl => (h l hl).maskLine_render
  calc
    _ = Text.lines (Layout.format n (Text.unlines ((ls.map (Line.render t)).map maskLine))) := by
      apply Layout.map_lines_format transparent_maskLine n (by simpa using hne)
      · exact List.forall_mem_map.mpr fun l hl => (h l hl).not_mem_render
      · refine List.forall_mem_map.mpr fun l hl => ⟨(h l hl).trimRight_render, ?_⟩
        rw [(h l hl).maskLine_render, (h l hl).erase.trimRight_render]
    _ = _ := by rw [hmask, text]

end Source

namespace Session

/-- The file of a category with its literals masked shows the lines without their texts. -/
theorem mask_lines_categoryFile {s : Session} (hpackage : Naming.IsPackage s.settings.packageText)
    {m : CategoryModule} (hm : m.Proper) {n : Int} :
    (Text.lines (Layout.format n (Source.text s.target (Source.categoryLines s.target
      s.generator.settings.hasComments s.settings.packageText m)))).map Source.maskLine =
    Text.lines (Layout.format n (Source.text s.target ((Source.categoryLines s.target
      s.generator.settings.hasComments s.settings.packageText m).map Source.Line.erase))) :=
  Source.mask_lines_format (Source.allSound_categoryLines hm _ _ hpackage)
    (Source.categoryLines_ne_nil _ _ _ m) n

/-- The texts of the plan stay in their literals: files of modules that share their names and the
places of their constants agree line by line once the literals are masked, whatever else the plans
say. -/
theorem literals_contain_texts (s : Session) {n : Int}
    (hwidth : Indent.ofJson s.generator.settings.indentSize = .spaces n)
    (hpackage : Naming.IsPackage s.settings.packageText) {strict₁ strict₂ : Bool} {c₁ c₂ : Category}
    {m₁ m₂ : CategoryModule}
    (h₁ : CategoryModule.ofCategory s.rules strict₁ s.settings.packageText c₁ = .ok m₁)
    (h₂ : CategoryModule.ofCategory s.rules strict₂ s.settings.packageText c₂ = .ok m₂)
    (houtline : m₁.outline = m₂.outline) :
    ∃ f₁ f₂, s.categoryFile m₁ = .ok f₁ ∧ s.categoryFile m₂ = .ok f₂ ∧
      (Text.lines f₁.content.toList).length = (Text.lines f₂.content.toList).length ∧
      (Text.lines f₁.content.toList).map Source.maskLine =
        (Text.lines f₂.content.toList).map Source.maskLine := by
  have hm₁ := CategoryModule.proper_of_ofCategory hpackage h₁
  have hm₂ := CategoryModule.proper_of_ofCategory hpackage h₂
  refine ⟨_, _, categoryFile_ok hwidth m₁, categoryFile_ok hwidth m₂, ?_⟩
  simp only [String.toList_ofList]
  have hmasked := calc
    _ = _ := mask_lines_categoryFile hpackage hm₁ (n := n)
    _ = _ := by rw [Source.erase_categoryLines hm₁ hm₂ houtline]
    _ = _ := (mask_lines_categoryFile hpackage hm₂).symm
  refine ⟨?_, hmasked⟩
  have hlength := congrArg List.length hmasked
  rwa [List.length_map, List.length_map] at hlength

/-- Quotes and line ends in the texts of a plan add nothing outside of the literals. -/
theorem literals_contain_texts_quotes : ∃ m₁ m₂ f₁ f₂,
    CategoryModule.ofCategory (standard .python).rules false (standard .python).settings.packageText
      ⟨"Shop", [⟨"b\"y", [⟨"k\"", "a\"b"⟩]⟩]⟩ = .ok m₁ ∧
    CategoryModule.ofCategory (standard .python).rules true (standard .python).settings.packageText
      ⟨"shop", [⟨"b\ny", [⟨"k\n", "a\nb"⟩, ⟨"screen_name", ""⟩]⟩]⟩ = .ok m₂ ∧
    m₁ ≠ m₂ ∧
    (standard .python).categoryFile m₁ = .ok f₁ ∧ (standard .python).categoryFile m₂ = .ok f₂ ∧
    (Text.lines f₁.content.toList).map Source.maskLine =
      (Text.lines f₂.content.toList).map Source.maskLine := by
  have h₁ : CategoryModule.ofCategory (standard .python).rules false
      (standard .python).settings.packageText ⟨"Shop", [⟨"b\"y", [⟨"k\"", "a\"b"⟩]⟩]⟩ =
    .ok ⟨"Shop", "ShopEvents", "analytics.events.shop",
      [⟨"B_yEvent", "b\"y", "Shop", "", false, [⟨"k\"", "k_", "a\"b"⟩]⟩], [⟨"A_B", "a\"b"⟩]⟩ := rfl
  have h₂ : CategoryModule.ofCategory (standard .python).rules true
      (standard .python).settings.packageText
      ⟨"shop", [⟨"b\ny", [⟨"k\n", "a\nb"⟩, ⟨"screen_name", ""⟩]⟩]⟩ =
    .ok ⟨"shop", "ShopEvents", "analytics.events.shop",
      [⟨"B_yEvent", "b\ny", "shop", "", false, [⟨"k\n", "k_", "a\nb"⟩]⟩], [⟨"A_B", "a\nb"⟩]⟩ := rfl
  obtain ⟨f₁, f₂, hf₁, hf₂, _, hmasked⟩ := literals_contain_texts (standard .python) (n := 4) rfl
    ⟨["analytics", "events"], by decide, rfl⟩ h₁ h₂ (by decide)
  exact ⟨_, _, f₁, f₂, h₁, h₂, by decide, hf₁, hf₂, hmasked⟩

end Session
end EventCodegen
