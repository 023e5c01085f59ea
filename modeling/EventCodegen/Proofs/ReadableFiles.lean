import EventCodegen.Proofs.ReadableEvents

/-! Files can be read back. The head of a file, its run of events and its container of values each
tell what they were written from, so two modules with the same file agree in all that a file is
meant to tell (`module_of_content`). -/
namespace EventCodegen
namespace Source

/-! ## The container of values -/

/-- Whether there is a container of values shows that there are constants, so it is enough to read
two containers. -/
theorem container_inj {t : Target} {m₁ m₂ : CategoryModule} {ks ls : List Line}
    (h : shown t (onlyIf m₁.hasConstants ks) = shown t (onlyIf m₂.hasConstants ls))
    (hks : shown t ks ≠ []) (hls : shown t ls ≠ [])
    (hread : shown t ks = shown t ls → m₁.constants = m₂.constants) :
    m₁.constants = m₂.constants := by
  have hnil : ∀ m : CategoryModule, m.hasConstants = false → m.constants = [] :=
    fun m hm => by simpa [CategoryModule.hasConstants] using hm
  cases h₁ : m₁.hasConstants with
  | false =>
    cases h₂ : m₂.hasConstants with
    | false => rw [hnil m₁ h₁, hnil m₂ h₂]
    | true => rw [h₁, h₂] at h; exact absurd h.symm hls
  | true =>
    cases h₂ : m₂.hasConstants with
    | false => rw [h₁, h₂] at h; exact absurd h hks
    | true => rw [h₁, h₂] at h; exact hread h

section
variable {m₁ m₂ : CategoryModule} (hm₁ : m₁.Proper) (hm₂ : m₂.Proper)
include hm₁ hm₂

/-- The line of a constant tells the constant. -/
theorem constant_eq {t : Target} {before after : String} {c d : Constant}
    (hafter : after.toList.head?.any (!Naming.isIdentifierChar ·) = true) (hc : c ∈ m₁.constants)
    (hd : d ∈ m₂.constants)
    (h : Line.render t ⟨2, [.code (before ++ c.name ++ after), .literal c.value]⟩ =
      Line.render t ⟨2, [.code (before ++ d.name ++ after), .literal d.value]⟩) : c = d := by
  obtain ⟨hname, hvalue⟩ :=
    render_name_literal_inj (hm₁.constant c hc) (hm₂.constant d hd) hafter h
  cases c
  cases d
  rw [Constant.mk.injEq]
  exact ⟨hname, hvalue⟩

theorem constants_inj {t : Target} (before after : String)
    (hafter : after.toList.head?.any (!Naming.isIdentifierChar ·) = true)
    (h : shown t (m₁.constants.map fun c =>
        ⟨2, [.code (before ++ c.name ++ after), .literal c.value]⟩) =
      shown t (m₂.constants.map fun c =>
        ⟨2, [.code (before ++ c.name ++ after), .literal c.value]⟩)) :
    m₁.constants = m₂.constants := by
  rw [shown_map (fun _ => List.cons_ne_nil _ _), shown_map (fun _ => List.cons_ne_nil _ _)] at h
  have hsame := map_inj_of_items (k := id)
    (fun c hc d hd => constant_eq hm₁ hm₂ hafter hc hd) h
  rwa [List.map_id, List.map_id] at hsame

theorem pythonValues_inj {comments : Bool}
    (h : shown .python (onlyIf m₁.hasConstants (pythonValues comments m₁)) =
      shown .python (onlyIf m₂.hasConstants (pythonValues comments m₂))) :
    m₁.constants = m₂.constants := by
  refine container_inj h (List.cons_ne_nil _ _) (List.cons_ne_nil _ _) fun hshown => ?_
  simp only [pythonValues, List.cons_append, List.nil_append, shown_blank, shown_code, shown_append,
    List.cons.injEq, true_and] at hshown
  have hconstants := description_append_inj hshown
  apply constants_inj hm₁ hm₂ "" ": Final = " (by decide)
  simpa only [String.empty_append] using hconstants

theorem kotlinValues_inj
    (h : shown .kotlin (onlyIf m₁.hasConstants (kotlinValues m₁)) =
      shown .kotlin (onlyIf m₂.hasConstants (kotlinValues m₂))) : m₁.constants = m₂.constants := by
  refine container_inj h (List.cons_ne_nil _ _) (List.cons_ne_nil _ _) fun hshown => ?_
  simp only [kotlinValues, List.cons_append, List.nil_append, shown_blank, shown_code, shown_append,
    List.cons.injEq, true_and] at hshown
  exact constants_inj hm₁ hm₂ _ _ (by decide) (List.append_cancel_right hshown)

end

/-! ## Files -/

theorem head?_render_code {t : Target} (s : String) :
    ((Line.code 0 s).render t).head? = s.toList.head? := by
  simp [Line.render, Line.code, Piece.render]

/-- The imports of a file in Python. -/
def pythonImports (package : String) (m : CategoryModule) : List Line :=
  onlyIf m.hasRecords [.code 0 "from dataclasses import dataclass"] ++
  onlyIf m.hasConstants [.code 0 "from typing import Final"] ++
  [.code 0 ("from " ++ Naming.below package baseTypeName ++ " import " ++ baseTypeName ++
     if m.hasSingletons then ", singleton" else "")]

theorem head?_pythonImports (package : String) (m : CategoryModule) :
    ∀ l ∈ shown .python (pythonImports package m), l.head? = some 'f' := by
  unfold pythonImports
  cases m.hasRecords <;> cases m.hasConstants <;> simp [onlyIf, head?_render_code]

/-- What stands in a file in Kotlin before the container and the remark on it. -/
def kotlinImports (package : String) (m : CategoryModule) : List Line :=
  onlyIf (!m.path.isEmpty) [.code 0 ("package " ++ m.path)] ++
  onlyIf (!package.isEmpty) [.code 0 ("import " ++ package ++ "." ++ baseTypeName), .blank]

theorem head?_kotlinImports (package : String) (m : CategoryModule) :
    ∀ l ∈ shown .kotlin (kotlinImports package m), l.head? = some 'p' ∨ l.head? = some 'i' := by
  unfold kotlinImports
  cases m.path.isEmpty <;> cases package.isEmpty <;> simp [onlyIf, head?_render_code]

/-- The head of a file in Kotlin up to the container. -/
theorem kotlinHead_append_inj {m₁ m₂ : CategoryModule} {comments : Bool} {package : String}
    {r s : List (List Char)}
    (h : shown .kotlin (kotlinImports package m₁) ++ (shown .kotlin (onlyIf comments
          [.around 0 "// Events of the " m₁.categoryName " category."]) ++
        (Line.code 0 ("object " ++ m₁.containerName ++ " \x7b")).render .kotlin :: r) =
      shown .kotlin (kotlinImports package m₂) ++ (shown .kotlin (onlyIf comments
          [.around 0 "// Events of the " m₂.categoryName " category."]) ++
        (Line.code 0 ("object " ++ m₂.containerName ++ " \x7b")).render .kotlin :: s)) :
    m₁.containerName = m₂.containerName ∧
      (comments = true → m₁.categoryName = m₂.categoryName) ∧ r = s := by
  have himport : ∀ m : CategoryModule, ∀ l ∈ shown .kotlin (kotlinImports package m),
      ¬(l.head? ≠ some 'p' ∧ l.head? ≠ some 'i') := by
    intro m l hl hlast
    rcases head?_kotlinImports package m l hl with hp | hi
    · exact hlast.1 hp
    · exact hlast.2 hi
  -- the first line after the imports is the remark on the container, or the container itself
  cases comments with
  | false =>
    obtain ⟨hcontainer, hrest⟩ := append_inj_of_last
      (P := fun l => l.head? ≠ some 'p' ∧ l.head? ≠ some 'i') (himport m₁) (himport m₂)
      (by simp [head?_render_code]) (by simp [head?_render_code]) h
    exact ⟨by simpa using hcontainer, (fun hfalse => by cases hfalse), hrest⟩
  | true =>
    obtain ⟨hremark, hrest⟩ := append_inj_of_last
      (P := fun l => l.head? ≠ some 'p' ∧ l.head? ≠ some 'i') (himport m₁) (himport m₂)
      (by simp [Line.render, Line.around, Piece.render])
      (by simp [Line.render, Line.around, Piece.render]) h
    obtain ⟨hcontainer, hrest⟩ := List.cons.inj hrest
    exact ⟨by simpa using hcontainer, fun _ => by simpa using hremark, hrest⟩

section
variable {m₁ m₂ : CategoryModule} (hm₁ : m₁.Proper) (hm₂ : m₂.Proper) {comments : Bool}
  {package : String}
include hm₁ hm₂

/-- A file in Python tells its module. -/
theorem pythonCategory_inj (h : shown .python (pythonCategory comments package m₁) =
      shown .python (pythonCategory comments package m₂)) :
    m₁.containerName = m₂.containerName ∧ m₁.categoryName = m₂.categoryName ∧
      m₁.eventTypes.map EventType.withoutValues = m₂.eventTypes.map EventType.withoutValues ∧
      m₁.constants = m₂.constants := by
  have hparts : ∀ m : CategoryModule, shown .python (pythonCategory comments package m) =
      (Line.literal 0 ("Analytics events of the " ++ m.categoryName ++ " category.")).render .python ::
      (Line.code 0 ("# " ++ notice)).render .python ::
      (shown .python (pythonImports package m) ++
      (Line.code 0 ("class " ++ m.containerName ++ ":")).render .python ::
      (Line.literal 1 ("Events of the " ++ m.categoryName ++ " category.")).render .python ::
      (shown .python (m.eventTypes.flatMap (pythonEvent comments m)) ++
      shown .python (onlyIf m.hasConstants (pythonValues comments m)))) := by
    intro m
    simp [pythonCategory, pythonImports]
  rw [hparts, hparts, List.cons.injEq, List.cons.injEq] at h
  obtain ⟨hcategory, _, h⟩ := h
  -- which imports there are is not read: the container begins with the first other line
  obtain ⟨hcontainer, h⟩ := append_inj_of_last (P := fun l => l.head? ≠ some 'f')
    (fun l hl hlast => hlast (head?_pythonImports package m₁ l hl))
    (fun l hl hlast => hlast (head?_pythonImports package m₂ l hl))
    (by simp [head?_render_code]) (by simp [head?_render_code]) h
  obtain ⟨hevents, hvalues⟩ := pythonEvents_append_inj hm₁ hm₂ (endsPython_values comments _ m₁)
    (endsPython_values comments _ m₂) (List.cons.inj h).2
  exact ⟨by simpa using hcontainer, by simpa using hcategory, hevents,
    pythonValues_inj hm₁ hm₂ hvalues⟩

/-- The event types of a module name its category. -/
theorem categoryName_eq_of_events (hne : m₁.eventTypes ≠ [])
    (h : m₁.eventTypes.map EventType.withoutValues = m₂.eventTypes.map EventType.withoutValues) :
    m₁.categoryName = m₂.categoryName := by
  cases h₁ : m₁.eventTypes with
  | nil => exact absurd h₁ hne
  | cons a _ =>
    cases h₂ : m₂.eventTypes with
    | nil => rw [h₁, h₂] at h; cases h
    | cons b _ =>
      rw [h₁, h₂] at h
      have hcategory := congrArg EventType.categoryName (List.cons.inj h).1
      rw [← hm₁.category a (by rw [h₁]; exact List.mem_cons_self),
        ← hm₂.category b (by rw [h₂]; exact List.mem_cons_self)]
      exact hcategory

/-- A file in Kotlin tells its module, but the name of the category only if there is a remark on the
container or an event. -/
theorem kotlinCategory_inj (h : shown .kotlin (kotlinCategory comments package m₁) =
      shown .kotlin (kotlinCategory comments package m₂)) :
    m₁.containerName = m₂.containerName ∧
      (comments = true ∨ m₁.eventTypes ≠ [] → m₁.categoryName = m₂.categoryName) ∧
      m₁.eventTypes.map EventType.withoutValues = m₂.eventTypes.map EventType.withoutValues ∧
      m₁.constants = m₂.constants := by
  have hparts : ∀ m : CategoryModule, shown .kotlin (kotlinCategory comments package m) =
      (Line.code 0 ("// " ++ notice)).render .kotlin ::
      (shown .kotlin (kotlinImports package m) ++
      (shown .kotlin (onlyIf comments [.around 0 "// Events of the " m.categoryName " category."]) ++
      (Line.code 0 ("object " ++ m.containerName ++ " \x7b")).render .kotlin ::
      (shown .kotlin (m.eventTypes.flatMap (kotlinEvent comments)) ++
      (shown .kotlin (onlyIf m.hasConstants (kotlinValues m)) ++
      [(Line.code 0 "\x7d").render .kotlin])))) := by
    intro m
    simp [kotlinCategory, kotlinImports]
  rw [hparts, hparts] at h
  obtain ⟨hcontainer, hremark, hrest⟩ := kotlinHead_append_inj (List.cons.inj h).2
  obtain ⟨hevents, hvalues⟩ := kotlinEvents_append_inj hm₁ hm₂ (endsKotlin_values _ m₁ [])
    (endsKotlin_values _ m₂ []) hrest
  refine ⟨hcontainer, ?_, hevents, kotlinValues_inj hm₁ hm₂ (List.append_cancel_right hvalues)⟩
  rintro (hcomments | hne)
  · exact hremark hcomments
  · exact categoryName_eq_of_events hm₁ hm₂ hne hevents

end
end Source

/-! ## Modules -/

namespace Session

/-- Files lose nothing: two modules with the same file have the same container, the same events with
the same fields and keys in the same order, and the same constants. They belong to the same category
too, which only a file in Kotlin without events and without comments does not show. -/
theorem module_of_content (s : Session) {n : Int}
    (hwidth : Indent.ofJson s.generator.settings.indentSize = .spaces n) (hpos : 1 ≤ n)
    (hpackage : Naming.IsPackage s.settings.packageText) {strict₁ strict₂ : Bool} {c₁ c₂ : Category}
    {m₁ m₂ : CategoryModule}
    (h₁ : CategoryModule.ofCategory s.rules strict₁ s.settings.packageText c₁ = .ok m₁)
    (h₂ : CategoryModule.ofCategory s.rules strict₂ s.settings.packageText c₂ = .ok m₂)
    {f₁ f₂ : GeneratedFile} (hf₁ : s.categoryFile m₁ = .ok f₁) (hf₂ : s.categoryFile m₂ = .ok f₂)
    (hcontent : f₁.content = f₂.content) :
    m₁.containerName = m₂.containerName ∧
      (s.target = .python ∨ s.generator.settings.hasComments = true ∨ m₁.eventTypes ≠ [] →
        m₁.categoryName = m₂.categoryName) ∧
      m₁.eventTypes.map EventType.withoutValues = m₂.eventTypes.map EventType.withoutValues ∧
      m₁.constants = m₂.constants := by
  have hm₁ := CategoryModule.proper_of_ofCategory hpackage h₁
  have hm₂ := CategoryModule.proper_of_ofCategory hpackage h₂
  rw [categoryFile_ok hwidth, Except.ok.injEq] at hf₁ hf₂
  subst hf₁ hf₂
  have hshown := Source.shown_eq_of_format_eq (Source.allSound_categoryLines hm₁ _ _ hpackage)
    (Source.allSound_categoryLines hm₂ _ _ hpackage) (Source.categoryLines_ne_nil _ _ _ m₁)
    (Source.categoryLines_ne_nil _ _ _ m₂) hpos (String.ofList_injective hcontent)
  cases ht : s.target with
  | python =>
    rw [ht] at hshown
    obtain ⟨hcontainer, hcategory, hevents, hconstants⟩ := Source.pythonCategory_inj hm₁ hm₂ hshown
    exact ⟨hcontainer, fun _ => hcategory, hevents, hconstants⟩
  | kotlin =>
    rw [ht] at hshown
    obtain ⟨hcontainer, hcategory, hevents, hconstants⟩ := Source.kotlinCategory_inj hm₁ hm₂ hshown
    exact ⟨hcontainer, fun h => hcategory (h.resolve_left nofun), hevents, hconstants⟩

/-- A plan without a value and one with the word for none give the same file, and all that it tells
is the same in both. -/
theorem module_of_content_null : ∃ m₁ m₂ f₁ f₂,
    CategoryModule.ofCategory (standard .kotlin).rules false (standard .kotlin).settings.packageText
      ⟨"Shop", [⟨"buy", [⟨"item", ""⟩, ⟨"count", "1"⟩]⟩]⟩ = .ok m₁ ∧
    CategoryModule.ofCategory (standard .kotlin).rules true (standard .kotlin).settings.packageText
      ⟨"Shop", [⟨"buy", [⟨"item", "null"⟩, ⟨"screen_name", ""⟩, ⟨"count", "1"⟩]⟩]⟩ = .ok m₂ ∧
    (standard .kotlin).categoryFile m₁ = .ok f₁ ∧ (standard .kotlin).categoryFile m₂ = .ok f₂ ∧
    m₁ ≠ m₂ ∧ f₁.content = f₂.content ∧
    m₁.eventTypes.map EventType.withoutValues = m₂.eventTypes.map EventType.withoutValues := by
  have h₁ : CategoryModule.ofCategory (standard .kotlin).rules false
      (standard .kotlin).settings.packageText
      ⟨"Shop", [⟨"buy", [⟨"item", ""⟩, ⟨"count", "1"⟩]⟩]⟩ =
    .ok ⟨"Shop", "ShopEvents", "com.example.analytics.events.shop",
      [⟨"BuyEvent", "buy", "Shop", "", false, [⟨"item", "item", ""⟩, ⟨"count", "count", "1"⟩]⟩],
      [⟨"_1", "1"⟩]⟩ := rfl
  have h₂ : CategoryModule.ofCategory (standard .kotlin).rules true
      (standard .kotlin).settings.packageText
      ⟨"Shop", [⟨"buy", [⟨"item", "null"⟩, ⟨"screen_name", ""⟩, ⟨"count", "1"⟩]⟩]⟩ =
    .ok ⟨"Shop", "ShopEvents", "com.example.analytics.events.shop",
      [⟨"BuyEvent", "buy", "Shop", "", false, [⟨"item", "item", "null"⟩, ⟨"count", "count", "1"⟩]⟩],
      [⟨"_1", "1"⟩]⟩ := rfl
  have hfile := fun value : String => categoryFile_ok (s := standard .kotlin) (n := 4) rfl
    ⟨"Shop", "ShopEvents", "com.example.analytics.events.shop",
      [⟨"BuyEvent", "buy", "Shop", "", false, [⟨"item", "item", value⟩, ⟨"count", "count", "1"⟩]⟩],
      [⟨"_1", "1"⟩]⟩
  have hread := module_of_content (standard .kotlin) (n := 4) rfl (by decide)
    ⟨["com", "example", "analytics", "events"], by decide, rfl⟩ h₁ h₂ (hfile "") (hfile "null") rfl
  exact ⟨_, _, _, _, h₁, h₂, hfile "", hfile "null", by decide, rfl, hread.2.2.1⟩

end Session
end EventCodegen
