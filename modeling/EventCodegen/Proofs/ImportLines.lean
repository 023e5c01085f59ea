import EventCodegen.Proofs.ShownLines

/-! The lines of a category file that name other modules. What follows a word in the lines that
begin with it does not depend on the layout as long as no line of another kind begins so
(`mentions_file`). In Python only imports begin with `from`, and in Kotlin only the import with
`import` and the package line with `package`: fields, constants and types never do. -/
namespace EventCodegen.Source

/-! ## Lines that begin with a word -/

/-- What follows a word at the beginning of a line. -/
def after? (word : String) (line : List Char) : Option String :=
  (line.dropPrefix? word.toList).map String.ofList

/-- What follows a word in the lines of a text that begin with it. -/
def mentions (word content : String) : List String :=
  (Text.lines content.toList).filterMap (after? word)

/-- What follows a word in lines of source text that begin with it, whatever their level. -/
def bodyMentions (t : Target) (word : String) (ls : List Line) : List String :=
  ls.filterMap fun l => after? word (l.body t)

/-- A line that does not begin with a word, whatever its level. -/
def Line.Quiet (t : Target) (word : String) (l : Line) : Prop := ¬word.toList <+: l.body t

section
variable {t : Target} {word : String}

theorem after?_append (word s : String) : after? word (word ++ s).toList = some s := by
  rw [after?, String.toList_append, List.dropPrefix?_append_of_beq _ (beq_self_eq_true _),
    Option.map_some, String.ofList_toList]

theorem after?_eq_none {line : List Char} (h : ¬word.toList <+: line) :
    after? word line = none := by
  rw [after?, Option.map_eq_none_iff, Option.eq_none_iff_forall_ne_some]
  intro rest hrest
  obtain ⟨start, rfl, hstart⟩ := List.dropPrefix?_eq_some_iff.mp hrest
  rw [beq_iff_eq] at hstart
  subst hstart
  exact h (List.prefix_append _ rest)

@[simp] theorem bodyMentions_nil : bodyMentions t word [] = [] := rfl

@[simp] theorem bodyMentions_append (ks ls : List Line) :
    bodyMentions t word (ks ++ ls) = bodyMentions t word ks ++ bodyMentions t word ls :=
  List.filterMap_append

theorem bodyMentions_onlyIf (condition : Bool) (ls : List Line) :
    bodyMentions t word (onlyIf condition ls) =
      if condition then bodyMentions t word ls else [] := by
  cases condition <;> rfl

theorem bodyMentions_of_quiet {ls : List Line} (h : ∀ l ∈ ls, l.Quiet t word) :
    bodyMentions t word ls = [] :=
  List.filterMap_eq_nil_iff.mpr fun l hl => after?_eq_none (h l hl)

theorem bodyMentions_cons_of_quiet {l : Line} (h : l.Quiet t word) (ls : List Line) :
    bodyMentions t word (l :: ls) = bodyMentions t word ls := by
  rw [bodyMentions, List.filterMap_cons, after?_eq_none h]
  rfl

theorem bodyMentions_cons_code (level : Nat) (s : String) (ls : List Line) :
    bodyMentions t word (.code level (word ++ s) :: ls) = s :: bodyMentions t word ls := by
  have hbody : (Line.code level (word ++ s)).body t = (word ++ s).toList := List.append_nil _
  rw [bodyMentions, List.filterMap_cons, hbody, after?_append]
  rfl

/-- The layout makes no line begin with a word, and lines at the beginning of which a word may stand
are not moved. -/
theorem after?_reindent {l : Line} (hsound : l.Sound t) (hword : Opens word.toList)
    (h : l.level = 0 ∨ l.Quiet t word) (n : Int) :
    after? word (Layout.reindent n (l.render t)) = after? word (l.body t) := by
  have hcontent := content_reindent_render hsound.neat n
  rw [Layout.content_reindent] at hcontent
  rw [Layout.reindent_eq, hsound.margin_render, hcontent]
  rcases h with hlevel | hquiet
  · have hspaces : Layout.scaled n (step * l.level) = 0 := by
      rw [hlevel]
      simp [Layout.scaled]
    rw [hspaces]
    rfl
  · rw [after?_eq_none hquiet]
    apply after?_eq_none
    cases Layout.scaled n (step * l.level) with
    | zero => exact hquiet
    | succ k =>
      -- a word does not begin with a space
      intro hprefix
      cases hlist : word.toList with
      | nil =>
        rw [hlist] at hword
        cases hword
      | cons c rest =>
        rw [hlist, List.replicate_succ, List.cons_append, List.cons_prefix_cons] at hprefix
        rw [hlist, hprefix.1] at hword
        exact absurd hword (by show ¬(!Text.isBlank ' ') = true; decide)

/-- What a laid-out file mentions can be read off its lines before the layout, if all lines that are
not quiet stand at the first level. -/
theorem mentions_file {ls : List Line} (hsound : AllSound t ls) (hne : ls ≠ [])
    (hword : Opens word.toList) (h : ∀ l ∈ ls, l.level = 0 ∨ l.Quiet t word) (n : Int) :
    mentions word (String.ofList (Layout.format n (text t ls))) = bodyMentions t word ls := by
  have hnil : after? word [] = none := by
    apply after?_eq_none
    rw [List.prefix_nil]
    intro hempty
    rw [hempty] at hword
    cases hword
  -- empty lines mention nothing
  rw [mentions, String.toList_ofList, ← filterMap_filter_isEmpty hnil,
    filter_lines_file hsound.neat hne, shown, List.map_map, List.filterMap_map, bodyMentions,
    ← filterMap_body_filter hnil]
  refine List.filterMap_congr fun l hl => ?_
  have hmem := List.mem_of_mem_filter hl
  exact after?_reindent (hsound l hmem) hword (h l hmem) n

/-! ## Quiet lines -/

@[simp] theorem quiet_code {level : Nat} {s : String} :
    (Line.code level s).Quiet t word ↔ ¬word.toList <+: s.toList := by
  simp [Line.Quiet, Line.body, Line.code, Piece.render]

@[simp] theorem quiet_code_cons {level : Nat} {s : String} {rest : List Piece} :
    Line.Quiet t word ⟨level, .code s :: rest⟩ ↔
      ¬word.toList <+: s.toList ++ rest.flatMap (Piece.render t) := by
  simp [Line.Quiet, Line.body, Piece.render]

@[simp] theorem quiet_blank : Line.blank.Quiet t word ↔ word.toList ≠ [] := by
  simp [Line.Quiet, Line.body, Line.blank]

theorem forall_mem_onlyIf {P : Line → Prop} {condition : Bool} {ls : List Line} :
    (∀ l ∈ onlyIf condition ls, P l) ↔ (condition = true → ∀ l ∈ ls, P l) := by
  cases condition <;> simp [onlyIf]

section
variable (hquote : word.toList.head?.any (· != Text.doubleQuote) = true)
include hquote

/-- A line that begins with a literal begins with a quote. -/
theorem quiet_literal {level : Nat} {raw : String} {rest : List Piece} :
    Line.Quiet t word ⟨level, .literal raw :: rest⟩ := by
  rintro ⟨more, hmore⟩
  cases hlist : word.toList with
  | nil =>
    rw [hlist] at hquote
    cases hquote
  | cons c others =>
    rw [hlist] at hquote hmore
    have hc : c = Text.doubleQuote := (List.cons.inj hmore).1
    rw [hc] at hquote
    cases hquote

theorem quiet_identity (level : Nat) (e : EventType) :
    ∀ l ∈ identity level e, l.Quiet t word := by
  simp [identity, Line.argument, quiet_literal hquote]

end

end

/-! ## Kotlin -/

/-- The lines of a category file in Kotlin up to its imports. -/
def kotlinHead (package : String) (m : CategoryModule) : List Line :=
  [.code 0 ("// " ++ notice)] ++
  onlyIf (!m.path.isEmpty) [.code 0 ("package " ++ m.path)] ++
  [.blank] ++
  onlyIf (!package.isEmpty) [.code 0 ("import " ++ package ++ "." ++ baseTypeName), .blank]

/-- The lines after the imports. -/
def kotlinBody (comments : Bool) (m : CategoryModule) : List Line :=
  onlyIf comments [.around 0 "// Events of the " m.categoryName " category."] ++
  [.code 0 ("object " ++ m.containerName ++ " \x7b")] ++
  m.eventTypes.flatMap (kotlinEvent comments) ++
  onlyIf m.hasConstants (kotlinValues m) ++
  [.code 0 "\x7d"]

theorem kotlinCategory_eq (comments : Bool) (package : String) (m : CategoryModule) :
    kotlinCategory comments package m = kotlinHead package m ++ kotlinBody comments m := by
  simp only [kotlinCategory, kotlinHead, kotlinBody, List.append_assoc]

section
variable {word : String} (hword : word = "import " ∨ word = "package ")
include hword

theorem quiet_kotlinEvent (comments : Bool) (e : EventType) :
    ∀ l ∈ kotlinEvent comments e, l.Quiet .kotlin word := by
  have hquote : word.toList.head?.any (· != Text.doubleQuote) = true := by
    rcases hword with rfl | rfl
    · decide
    · decide
  have hidentity := quiet_identity (t := .kotlin) hquote 2 e
  have hremark : (Line.around 1 "// Event " e.eventName "").Quiet .kotlin word := by
    rcases hword with rfl | rfl
    · simp [Line.around]
    · simp [Line.around]
  have hsingleton : ∀ l ∈ kotlinSingleton e, l.Quiet .kotlin word := by
    simp only [kotlinSingleton, List.forall_mem_append, List.forall_mem_cons, quiet_code]
    rcases hword with rfl | rfl
    · simpa using hidentity
    · simpa using hidentity
  have hrecord : ∀ l ∈ kotlinRecord e, l.Quiet .kotlin word := by
    simp only [kotlinRecord, List.forall_mem_append, List.forall_mem_cons, List.forall_mem_map,
      quiet_code, quiet_literal hquote]
    rcases hword with rfl | rfl
    · cases e.fields.isEmpty <;> simpa using hidentity
    · cases e.fields.isEmpty <;> simpa using hidentity
  rw [kotlinEvent, List.forall_mem_append, List.forall_mem_cons, forall_mem_onlyIf]
  refine ⟨⟨?_, fun _ => by simpa using hremark⟩, ?_⟩
  · rcases hword with rfl | rfl
    · simp
    · simp
  · split
    · exact hsingleton
    · exact hrecord

theorem quiet_kotlinValues (m : CategoryModule) :
    ∀ l ∈ kotlinValues m, l.Quiet .kotlin word := by
  simp only [kotlinValues, List.forall_mem_append, List.forall_mem_cons, List.forall_mem_map,
    quiet_blank, quiet_code, quiet_code_cons]
  rcases hword with rfl | rfl
  · simp
  · simp

theorem quiet_kotlinBody (comments : Bool) (m : CategoryModule) :
    ∀ l ∈ kotlinBody comments m, l.Quiet .kotlin word := by
  have hevents : ∀ l ∈ m.eventTypes.flatMap (kotlinEvent comments), l.Quiet .kotlin word := by
    intro l hl
    obtain ⟨e, _, hmem⟩ := List.mem_flatMap.mp hl
    exact quiet_kotlinEvent hword comments e l hmem
  have hvalues := quiet_kotlinValues hword m
  simp only [kotlinBody, List.forall_mem_append, List.forall_mem_singleton, forall_mem_onlyIf]
  refine ⟨⟨⟨⟨?_, ?_⟩, hevents⟩, fun _ => hvalues⟩, ?_⟩
  · rcases hword with rfl | rfl
    · simp [Line.around]
    · simp [Line.around]
  · rcases hword with rfl | rfl
    · simp
    · simp
  · rcases hword with rfl | rfl
    · simp
    · simp

/-- Only the head of a file mentions anything. -/
theorem bodyMentions_kotlinCategory (comments : Bool) (package : String) (m : CategoryModule) :
    bodyMentions .kotlin word (kotlinCategory comments package m) =
      bodyMentions .kotlin word (kotlinHead package m) := by
  have hbody := bodyMentions_of_quiet (quiet_kotlinBody hword comments m)
  rw [kotlinCategory_eq, bodyMentions_append, hbody, List.append_nil]

theorem mentions_kotlinCategory {comments : Bool} {package : String} {m : CategoryModule}
    (hm : m.Proper) (hpackage : Naming.IsPackage package) (n : Int) :
    mentions word (String.ofList (Layout.format n (text .kotlin
        (kotlinCategory comments package m)))) =
      bodyMentions .kotlin word (kotlinHead package m) := by
  have hopens : Opens word.toList := by
    rcases hword with rfl | rfl
    · decide
    · decide
  rw [mentions_file (allSound_kotlinCategory hm comments hpackage)
    (categoryLines_ne_nil .kotlin comments package m) hopens ?_ n,
    bodyMentions_kotlinCategory hword]
  rw [kotlinCategory_eq, List.forall_mem_append]
  refine ⟨fun l hl => Or.inl ?_, fun l hl => Or.inr (quiet_kotlinBody hword comments m l hl)⟩
  revert l
  simp only [kotlinHead, List.forall_mem_append, forall_mem_onlyIf]
  simp [Line.code, Line.blank]

end

section
variable (package : String) (m : CategoryModule)

/-- The one package that a category file in Kotlin names is that of its module. -/
theorem bodyMentions_package : bodyMentions .kotlin "package " (kotlinHead package m) =
    if m.path.isEmpty then [] else [m.path] := by
  unfold kotlinHead
  cases m.path.isEmpty <;> cases package.isEmpty <;>
    simp [onlyIf, bodyMentions_cons_of_quiet, bodyMentions_cons_code]

/-- The one import is that of the base type, which needs a package to be imported from. -/
theorem bodyMentions_import : bodyMentions .kotlin "import " (kotlinHead package m) =
    if package.isEmpty then [] else [package ++ "." ++ baseTypeName] := by
  unfold kotlinHead
  cases m.path.isEmpty <;> cases package.isEmpty <;>
    simp [onlyIf, bodyMentions_cons_of_quiet, bodyMentions_cons_code, String.append_assoc]

end

/-! ## Python -/

/-- The lines of a category file in Python up to its imports. -/
def pythonHead (package : String) (m : CategoryModule) : List Line :=
  [.literal 0 ("Analytics events of the " ++ m.categoryName ++ " category."),
   .code 0 ("# " ++ notice),
   .blank] ++
  onlyIf m.hasRecords [.code 0 "from dataclasses import dataclass"] ++
  onlyIf m.hasConstants [.code 0 "from typing import Final"] ++
  [.blank,
   .code 0 ("from " ++ Naming.below package baseTypeName ++ " import " ++ baseTypeName ++
     if m.hasSingletons then ", singleton" else "")]

/-- The lines after the imports. -/
def pythonBody (comments : Bool) (m : CategoryModule) : List Line :=
  [.blank,
   .blank,
   .code 0 ("class " ++ m.containerName ++ ":"),
   .literal 1 ("Events of the " ++ m.categoryName ++ " category.")] ++
  m.eventTypes.flatMap (pythonEvent comments m) ++
  onlyIf m.hasConstants (pythonValues comments m)

theorem pythonCategory_eq (comments : Bool) (package : String) (m : CategoryModule) :
    pythonCategory comments package m = pythonHead package m ++ pythonBody comments m := by
  simp [pythonCategory, pythonHead, pythonBody]

theorem quiet_literal_from {level : Nat} {raw : String} {rest : List Piece} :
    Line.Quiet .python "from " ⟨level, .literal raw :: rest⟩ := quiet_literal (by decide)

/-- A name with a colon after it is not a word with a space after it. -/
theorem not_prefix_name (word : List Char) (hword : word.all Naming.isIdentifierChar = true)
    {name : String} (hname : Naming.isIdentifier name.toList = true) (rest : List Char) :
    ¬word ++ [' '] <+: name.toList ++ ':' :: rest := by
  rintro ⟨more, hmore⟩
  rw [List.append_assoc] at hmore
  have hspace := Naming.identifier_append_inj (x := ' ') (y := ':') (List.all_eq_true.mp hword)
    (fun _ => Naming.isIdentifierChar_of_mem hname) (by decide) (by decide) hmore
  exact absurd hspace.2.1 (by decide)

theorem quiet_pythonSingleton (comments : Bool) (e : EventType) :
    ∀ l ∈ pythonSingleton comments e, l.Quiet .python "from " := by
  have hidentity : ∀ l ∈ identity 4 e, l.Quiet .python "from " := quiet_identity (by decide) 4 e
  simp only [pythonSingleton, List.forall_mem_append, List.forall_mem_cons, forall_mem_onlyIf,
    quiet_code, quiet_blank, Line.literal, quiet_literal_from]
  simpa using hidentity

section
variable {m : CategoryModule} (hm : m.Proper)
include hm

theorem quiet_pythonRecord (comments : Bool) {e : EventType} (he : e ∈ m.eventTypes) :
    ∀ l ∈ pythonRecord comments m e, l.Quiet .python "from " := by
  have hidentity : ∀ l ∈ identity 4 e, l.Quiet .python "from " := quiet_identity (by decide) 4 e
  have hfields : ∀ f ∈ e.fields,
      ¬"from ".toList <+: (f.name ++ ": str" ++ fieldRemark comments m f).toList := by
    intro f hf
    rw [String.toList_append, String.toList_append, List.append_assoc]
    exact not_prefix_name "from".toList (by decide) (hm.field e he f hf) _
  simp only [pythonRecord, List.forall_mem_append, List.forall_mem_cons, List.forall_mem_map,
    forall_mem_onlyIf, quiet_code, quiet_blank, Line.literal, quiet_literal_from]
  -- all other lines are fixed or begin with a literal
  refine ⟨⟨⟨⟨⟨⟨⟨⟨?_, ?_⟩, hfields⟩, ?_⟩, ?_⟩, hidentity⟩, ?_⟩, ?_⟩, ?_⟩ <;> simp

theorem quiet_pythonValues (comments : Bool) :
    ∀ l ∈ pythonValues comments m, l.Quiet .python "from " := by
  have hconstants : ∀ c ∈ m.constants, Line.Quiet .python "from "
      ⟨2, [.code (c.name ++ ": Final = "), .literal c.value]⟩ := by
    intro c hc
    rw [quiet_code_cons, String.toList_append, List.append_assoc]
    exact not_prefix_name "from".toList (by decide) (hm.constant c hc) _
  simp only [pythonValues, List.forall_mem_append, List.forall_mem_cons, List.forall_mem_map,
    forall_mem_onlyIf, quiet_code, quiet_blank, Line.literal, quiet_literal_from]
  refine ⟨⟨?_, ?_⟩, hconstants⟩
  · simp
  · simp

theorem quiet_pythonBody (comments : Bool) :
    ∀ l ∈ pythonBody comments m, l.Quiet .python "from " := by
  have hevents : ∀ l ∈ m.eventTypes.flatMap (pythonEvent comments m), l.Quiet .python "from " := by
    intro l hl
    obtain ⟨e, he, hmem⟩ := List.mem_flatMap.mp hl
    rcases List.mem_cons.mp hmem with rfl | hmem
    · simp
    · split at hmem
      · exact quiet_pythonSingleton comments e l hmem
      · exact quiet_pythonRecord hm comments he l hmem
  simp only [pythonBody, List.forall_mem_append, List.forall_mem_cons, forall_mem_onlyIf,
    quiet_code, quiet_blank, Line.literal, quiet_literal_from]
  refine ⟨⟨?_, hevents⟩, fun _ => quiet_pythonValues hm comments⟩
  simp

theorem mentions_pythonCategory {comments : Bool} {package : String}
    (hpackage : Naming.IsPackage package) (n : Int) :
    mentions "from " (String.ofList (Layout.format n (text .python
        (pythonCategory comments package m)))) =
      bodyMentions .python "from " (pythonHead package m) := by
  rw [mentions_file (allSound_pythonCategory hm comments hpackage)
    (categoryLines_ne_nil .python comments package m) (by decide) ?_ n, pythonCategory_eq,
    bodyMentions_append, bodyMentions_of_quiet (quiet_pythonBody hm comments), List.append_nil]
  rw [pythonCategory_eq, List.forall_mem_append]
  refine ⟨fun l hl => Or.inl ?_, fun l hl => Or.inr (quiet_pythonBody hm comments l hl)⟩
  revert l
  simp only [pythonHead, List.forall_mem_append, forall_mem_onlyIf]
  simp [Line.literal, Line.code, Line.blank]

end

/-- A category file in Python imports what its types need, and the base type from its module. -/
theorem bodyMentions_from (package : String) (m : CategoryModule) :
    bodyMentions .python "from " (pythonHead package m) =
      (if m.hasRecords then ["dataclasses import dataclass"] else []) ++
      (if m.hasConstants then ["typing import Final"] else []) ++
      [Naming.below package baseTypeName ++ " import " ++ baseTypeName ++
        if m.hasSingletons then ", singleton" else ""] := by
  have hdataclass : bodyMentions .python "from " [.code 0 "from dataclasses import dataclass"] =
      ["dataclasses import dataclass"] := bodyMentions_cons_code 0 "dataclasses import dataclass" []
  have hfinal : bodyMentions .python "from " [.code 0 "from typing import Final"] =
      ["typing import Final"] := bodyMentions_cons_code 0 "typing import Final" []
  have hdescription : bodyMentions .python "from "
      [.literal 0 ("Analytics events of the " ++ m.categoryName ++ " category."),
        .code 0 ("# " ++ notice), .blank] = [] := by
    apply bodyMentions_of_quiet
    simp [Line.literal, quiet_literal_from]
  simp only [pythonHead, bodyMentions_append, hdescription, bodyMentions_onlyIf, hdataclass, hfinal]
  rw [bodyMentions_cons_of_quiet (by simp), String.append_assoc, String.append_assoc,
    String.append_assoc, bodyMentions_cons_code, ← String.append_assoc, ← String.append_assoc]
  rfl

end EventCodegen.Source
