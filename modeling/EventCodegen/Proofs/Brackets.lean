import EventCodegen.Proofs.ImportLines
import EventCodegen.Proofs.ScannedText

/-! The brackets of a category file. Brackets are read with a stack of those that are open
(`nest`), on which what is already open has no influence (`nest_append_base`). Each line ends in the
code that it begins in (`AllPass`), and each part of a file has brackets there that do not depend on
the plan, so the file of a category is balanced (`wellNested_categoryLines`). -/
namespace EventCodegen.Source

/-! ## Balanced brackets -/

/-- What is open after a bracket, innermost first, given what is open before it; none where the
bracket does not close the innermost. -/
def stack (opened : List Char) (c : Char) : Option (List Char) :=
  if c = '(' ∨ c = '\x7b' then some (c :: opened)
  else match opened with
    | o :: rest => if o = '(' ∧ c = ')' ∨ o = '\x7b' ∧ c = '\x7d' then some rest else none
    | [] => none

/-- What is open after some brackets. -/
def nest (opened bs : List Char) : Option (List Char) := bs.foldlM stack opened

/-- Brackets that are properly nested and all closed. -/
def Balanced (bs : List Char) : Prop := nest [] bs = some []

instance : DecidablePred Balanced := fun _ => inferInstanceAs (Decidable (_ = _))

theorem nest_append (opened as bs : List Char) :
    nest opened (as ++ bs) = nest opened as >>= fun o => nest o bs := List.foldlM_append

theorem stack_append_base {opened after : List Char} {c : Char} (base : List Char)
    (h : stack opened c = some after) : stack (opened ++ base) c = some (after ++ base) := by
  unfold stack at h ⊢
  split at h
  · next hopens =>
    cases h
    rw [if_pos hopens]
    rfl
  · next hopens =>
    rw [if_neg hopens]
    cases opened with
    | nil => cases h
    | cons o rest =>
      dsimp only [List.cons_append] at h ⊢
      split at h
      · next hcloses =>
        cases h
        rw [if_pos hcloses]
      · cases h

/-- What is open below those brackets that matter stays open. -/
theorem nest_append_base {opened after bs : List Char} (base : List Char)
    (h : nest opened bs = some after) : nest (opened ++ base) bs = some (after ++ base) := by
  induction bs generalizing opened with
  | nil =>
    cases h
    rfl
  | cons c rest ih =>
    obtain ⟨next, hnext, hrest⟩ := Option.bind_eq_some_iff.mp h
    exact Option.bind_eq_some_iff.mpr ⟨_, stack_append_base base hnext, ih hrest⟩

theorem Balanced.nest_eq {bs : List Char} (h : Balanced bs) (opened : List Char) :
    nest opened bs = some opened := nest_append_base opened h

theorem balanced_nil : Balanced [] := rfl

theorem Balanced.append {as bs : List Char} (ha : Balanced as) (hb : Balanced bs) :
    Balanced (as ++ bs) := by
  rw [Balanced, nest_append, ha]
  exact hb

/-- Within balanced brackets nothing is closed that was open before. -/
theorem Balanced.nest_prefix {as bs : List Char} (h : Balanced (as ++ bs)) (base : List Char) :
    ∃ opened, nest base as = some (opened ++ base) := by
  rw [Balanced, nest_append] at h
  obtain ⟨opened, hopened, _⟩ := Option.bind_eq_some_iff.mp h
  exact ⟨opened, nest_append_base base hopened⟩

/-! ## Lines that are passed over -/

/-- The brackets of some lines, each read from code on. -/
def bracketsOf (t : Target) (ls : List Line) : List Char :=
  ls.flatMap fun l => brackets t .code (l.body t)

/-- Lines that each end in code, with the brackets `bs` in them. -/
structure AllPass (t : Target) (ls : List Line) (bs : List Char) : Prop where
  settled : ∀ l ∈ ls, Settled t (l.body t)
  shows : bracketsOf t ls = bs

instance (t : Target) (ls : List Line) (bs : List Char) : Decidable (AllPass t ls bs) :=
  decidable_of_iff ((∀ l ∈ ls, Settled t (l.body t)) ∧ bracketsOf t ls = bs)
    ⟨fun h => ⟨h.1, h.2⟩, fun h => ⟨h.settled, h.shows⟩⟩

section
variable {t : Target} {l : Line} {ls ks : List Line} {bs cs : List Char}

theorem AllPass.nil : AllPass t [] [] := ⟨List.forall_mem_nil _, rfl⟩

theorem AllPass.cons (hl : Passes t .code (l.body t ++ ['\n']) bs) (h : AllPass t ls cs) :
    AllPass t (l :: ls) (bs ++ cs) where
  settled := List.forall_mem_cons.mpr ⟨hl.stays, h.settled⟩
  shows := by
    have hshows := hl.shows
    rw [brackets_append_lineFeed] at hshows
    rw [bracketsOf, List.flatMap_cons, hshows]
    exact congrArg (bs ++ ·) h.shows

theorem AllPass.append (hk : AllPass t ks bs) (hl : AllPass t ls cs) :
    AllPass t (ks ++ ls) (bs ++ cs) where
  settled := List.forall_mem_append.mpr ⟨hk.settled, hl.settled⟩
  shows := by
    have happend : bracketsOf t (ks ++ ls) = bracketsOf t ks ++ bracketsOf t ls :=
      List.flatMap_append
    rw [happend, hk.shows, hl.shows]

theorem AllPass.onlyIf (h : AllPass t ls []) (condition : Bool) :
    AllPass t (onlyIf condition ls) [] := by
  cases condition with
  | false => exact .nil
  | true => exact h

theorem AllPass.map {α : Type} {as : List α} {f : α → Line}
    (h : ∀ a ∈ as, Passes t .code ((f a).body t ++ ['\n']) []) : AllPass t (as.map f) [] := by
  induction as with
  | nil => exact .nil
  | cons a rest ih =>
    obtain ⟨ha, hrest⟩ := List.forall_mem_cons.mp h
    exact .cons ha (ih hrest)

/-- Lines that each end in code and whose brackets are balanced. -/
structure WellNested (t : Target) (ls : List Line) : Prop where
  settled : ∀ l ∈ ls, Settled t (l.body t)
  balanced : Balanced (bracketsOf t ls)

theorem AllPass.wellNested (h : AllPass t ls bs) (hbalanced : Balanced bs) : WellNested t ls :=
  ⟨h.settled, by rwa [h.shows]⟩

theorem WellNested.allPass (h : WellNested t ls) : AllPass t ls (bracketsOf t ls) :=
  ⟨h.settled, rfl⟩

theorem WellNested.append (hk : WellNested t ks) (hl : WellNested t ls) :
    WellNested t (ks ++ ls) := by
  have hall := hk.allPass.append hl.allPass
  exact hall.wellNested (hk.balanced.append hl.balanced)

theorem WellNested.onlyIf (h : WellNested t ls) (condition : Bool) :
    WellNested t (onlyIf condition ls) := by
  cases condition with
  | false => exact AllPass.nil.wellNested balanced_nil
  | true => exact h

theorem WellNested.flatMap {α : Type} {as : List α} {f : α → List Line}
    (h : ∀ a ∈ as, WellNested t (f a)) : WellNested t (as.flatMap f) := by
  induction as with
  | nil => exact AllPass.nil.wellNested balanced_nil
  | cons a rest ih =>
    obtain ⟨ha, hrest⟩ := List.forall_mem_cons.mp h
    exact ha.append (ih hrest)

end

/-! ## Kinds of lines -/

section
variable {t : Target} {bs cs : List Char}

/-- The line feed after a text that is passed over. -/
theorem Passes.line {s : List Char} (h : Passes t .code s bs) :
    Passes t .code (s ++ ['\n']) bs := by
  have hfeed : Passes t .code ['\n'] [] := by
    cases t with
    | python => decide
    | kotlin => decide
  have hall := h.append hfeed
  rwa [List.append_nil] at hall

theorem passes_blank : Passes t .code (Line.blank.body t ++ ['\n']) [] := (passes_nil t .code).line

theorem WellNested.blank_cons {ls : List Line} (h : WellNested t ls) :
    WellNested t (.blank :: ls) :=
  (AllPass.cons passes_blank h.allPass).wellNested h.balanced

theorem body_code (level : Nat) (s : String) : (Line.code level s).body t = s.toList :=
  List.append_nil _

theorem passes_code (level : Nat) {s : String} (h : Passes t .code s.toList bs) :
    Passes t .code ((Line.code level s).body t ++ ['\n']) bs := by
  rw [body_code]
  exact h.line

/-- A line whose pieces show no brackets. -/
theorem passes_pieces {l : Line} (h : ∀ p ∈ l.pieces, Passes t .code (p.render t) []) :
    Passes t .code (l.body t ++ ['\n']) [] := (Passes.flatMap h).line

/-- A line that holds the literal for a text and code after it. -/
theorem passes_literal_code (level : Nat) (raw : String) {after : String}
    (h : Passes t .code after.toList []) :
    Passes t .code (Line.body t ⟨level, [.literal raw, .code after]⟩ ++ ['\n']) [] :=
  passes_pieces (List.forall_mem_cons.mpr
    ⟨passes_literal t raw.toList, List.forall_mem_singleton.mpr h⟩)

/-- A line that holds code and the literal for a text after it. -/
theorem passes_code_literal (level : Nat) (raw : String) {before : String}
    (h : Passes t .code before.toList []) :
    Passes t .code (Line.body t ⟨level, [.code before, .literal raw]⟩ ++ ['\n']) [] :=
  passes_pieces (List.forall_mem_cons.mpr
    ⟨h, List.forall_mem_singleton.mpr (passes_literal t raw.toList)⟩)

theorem passes_literalLine (level : Nat) (raw : String) :
    Passes t .code ((Line.literal level raw).body t ++ ['\n']) [] :=
  passes_pieces (List.forall_mem_singleton.mpr (passes_literal t raw.toList))

theorem passes_named {before name after : String} (hname : Naming.isIdentifier name.toList = true)
    (hbefore : Passes t .code before.toList []) (hafter : Passes t .code after.toList bs) :
    Passes t .code (before ++ name ++ after).toList bs := by
  have hall := (hbefore.append (passes_name t hname)).append hafter
  rwa [← String.toList_append, ← String.toList_append] at hall

end

/-! ## The parts of a category file -/

theorem allPass_identity (t : Target) (level : Nat) (e : EventType) :
    AllPass t (identity level e) [] := by
  have hcomma : Passes t .code ",".toList [] := by
    cases t with
    | python => decide
    | kotlin => decide
  exact .cons (passes_literal_code level _ hcomma) (.cons (passes_literal_code level _ hcomma)
    (.cons (passes_literal_code level _ hcomma) .nil))

/-- What a type or the container of values says about itself. -/
theorem allPass_description (comments : Bool) (raw : String) :
    AllPass .python (onlyIf comments [.literal 2 raw, .blank]) [] :=
  .onlyIf (.cons (passes_literalLine 2 raw) (.cons passes_blank .nil)) comments

theorem passes_dot (t : Target) : Passes t .code ".".toList [] := by
  cases t with
  | python => decide
  | kotlin => decide

/-- Names joined by dots are passed over as each of them is. -/
theorem passes_package (t : Target) {package : String} (h : Naming.IsPackage package) :
    Passes t .code package.toList [] := by
  obtain ⟨parts, hparts, rfl⟩ := h
  show Passes t .code (String.intercalate "." parts).toList []
  induction parts with
  | nil => exact passes_nil t .code
  | cons p rest ih =>
    have hp := passes_name t (hparts p List.mem_cons_self)
    have hrest := ih fun q hq => hparts q (List.mem_cons_of_mem p hq)
    by_cases hne : rest = []
    · subst hne
      rwa [String.intercalate_singleton]
    · rw [String.intercalate_cons_of_ne_nil hne, String.toList_append, String.toList_append]
      exact (hp.append (passes_dot t)).append hrest

theorem passes_below (t : Target) {package part : String} (h : Naming.IsPackage package)
    (hpart : Naming.isIdentifier part.toList = true) :
    Passes t .code (Naming.below package part).toList [] := by
  unfold Naming.below
  split
  · exact passes_name t hpart
  · rw [String.toList_append, String.toList_append]
    exact ((passes_package t h).append (passes_dot t)).append (passes_name t hpart)

/-- A comment with the literal for a text in it. -/
theorem passes_remark {t : Target} (level : Nat) (raw : String) {before after : String}
    (hmark : Mode.after t .code before.toList = .comment)
    (hshows : brackets t .code before.toList = []) (hafter : '\n' ∉ after.toList) :
    Passes t .code ((Line.around level before raw after).body t ++ ['\n']) [] := by
  have hbody : (Line.around level before raw after).body t =
      before.toList ++ (literalChars t raw.toList ++ after.toList) := by
    simp [Line.body, Line.around, Piece.render]
  have hrest : '\n' ∉ literalChars t raw.toList ++ after.toList := by
    rw [List.mem_append, not_or]
    exact ⟨not_mem_literalChars t raw.toList, hafter⟩
  rw [hbody]
  exact passes_comment hmark hshows hrest

section
variable {m : CategoryModule} (hm : m.Proper)
include hm

/-- A field is a name with its type; a remark on it is a comment. -/
theorem passes_field (comments : Bool) {f : Field}
    (hf : Naming.isIdentifier f.name.toList = true) :
    Passes .python .code ((Line.code 2 (f.name ++ ": str" ++
      fieldRemark comments m f)).body .python ++ ['\n']) [] := by
  have hfield : Passes .python .code (f.name ++ ": str").toList [] := by
    rw [String.toList_append]
    exact (passes_name .python hf).append (by decide)
  have hremark : Passes .python .code ((fieldRemark comments m f).toList ++ ['\n']) [] := by
    unfold fieldRemark
    split
    · split
      · next constant hconstant =>
        have hname := hm.constantFor? hconstant
        have hrest : '\n' ∉ constant.toList := fun hmem =>
          absurd (Naming.isIdentifierChar_of_mem hname hmem) (by decide)
        rw [String.toList_append]
        exact passes_comment (by decide) (by decide) hrest
      · decide
    · decide
  rw [body_code, String.toList_append, List.append_assoc]
  exact hfield.append hremark

variable {e : EventType} (he : e ∈ m.eventTypes)
include he

/-- The class of an event with what stands before it. -/
theorem allPass_class (decorator : String) {bs : List Char}
    (hdecorator : Passes .python .code decorator.toList bs) : AllPass .python
      [.code 1 decorator, .code 1 ("class " ++ e.name ++ "(" ++ baseTypeName ++ "):")]
      (bs ++ "()".toList) := by
  have hclass : Passes .python .code
      ("class " ++ e.name ++ "(" ++ baseTypeName ++ "):").toList "()".toList := by
    have hassoc : "class " ++ e.name ++ "(" ++ baseTypeName ++ "):" =
        "class " ++ e.name ++ ("(" ++ baseTypeName ++ "):") := by simp only [String.append_assoc]
    rw [hassoc]
    exact passes_named (hm.type e he) (by decide) (by decide)
  exact .cons (passes_code 1 hdecorator) (.cons (passes_code 1 hclass) .nil)

theorem wellNested_pythonSingleton (comments : Bool) :
    WellNested .python (pythonSingleton comments e) := by
  have hdecorator : Passes .python .code "@singleton".toList [] := by decide
  have hhead := allPass_class hm he "@singleton" hdecorator
  have hcall : AllPass .python
      [.code 2 "def __init__(self) -> None:", .code 3 "super().__init__("] "()()(".toList := by
    decide
  have hend : AllPass .python [.code 4 "\x7b\x7d,", .code 3 ")"] "\x7b\x7d)".toList := by decide
  have habout := allPass_description comments
    ("Event " ++ e.eventName ++ " without custom parameters.")
  have hall := (((hhead.append habout).append hcall).append (allPass_identity .python 4 e)).append
    hend
  exact hall.wellNested (by decide)

theorem wellNested_pythonRecord (comments : Bool) :
    WellNested .python (pythonRecord comments m e) := by
  have hdecorator : Passes .python .code "@dataclass(frozen=True)".toList "()".toList := by decide
  have hhead := allPass_class hm he "@dataclass(frozen=True)" hdecorator
  have hfields : AllPass .python (e.fields.map fun f =>
      .code 2 (f.name ++ ": str" ++ fieldRemark comments m f)) [] :=
    .map fun f hf => passes_field hm comments (hm.field e he f hf)
  have hgap : AllPass .python (onlyIf (!e.fields.isEmpty) [.blank]) [] :=
    .onlyIf (.cons passes_blank .nil) _
  have hcall : AllPass .python
      [.code 2 "def __post_init__(self) -> None:", .code 3 "super().__init__("] "()()(".toList := by
    decide
  have hopen : AllPass .python [.code 4 "\x7b"] "\x7b".toList := by decide
  have hentries : AllPass .python (e.fields.map fun f =>
      ⟨5, [.literal f.key, .code (": self." ++ f.name ++ ",")]⟩) [] :=
    .map fun f hf => passes_literal_code 5 f.key
      (passes_named (hm.field e he f hf) (by decide) (by decide))
  have hend : AllPass .python [.code 4 "\x7d,", .code 3 ")"] "\x7d)".toList := by decide
  have habout := allPass_description comments ("Event " ++ e.eventName ++ ".")
  have hall := (((((((hhead.append habout).append hfields).append hgap).append hcall).append
    (allPass_identity .python 4 e)).append hopen).append hentries).append hend
  exact hall.wellNested (by decide)

theorem wellNested_pythonEvent (comments : Bool) :
    WellNested .python (pythonEvent comments m e) := by
  refine .blank_cons ?_
  split
  · exact wellNested_pythonSingleton hm he comments
  · exact wellNested_pythonRecord hm he comments

theorem wellNested_kotlinSingleton : WellNested .kotlin (kotlinSingleton e) := by
  have hobject : Passes .kotlin .code
      ("object " ++ e.name ++ " : " ++ baseTypeName ++ "(").toList "(".toList := by
    have hassoc : "object " ++ e.name ++ " : " ++ baseTypeName ++ "(" =
        "object " ++ e.name ++ (" : " ++ baseTypeName ++ "(") := by simp only [String.append_assoc]
    rw [hassoc]
    exact passes_named (hm.type e he) (by decide) (by decide)
  have hhead : AllPass .kotlin [.code 1 ("object " ++ e.name ++ " : " ++ baseTypeName ++ "(")]
      "(".toList := .cons (passes_code 1 hobject) .nil
  have hend : AllPass .kotlin [.code 2 "emptyMap(),", .code 1 ")"] "())".toList := by decide
  have hall := (hhead.append (allPass_identity .kotlin 2 e)).append hend
  exact hall.wellNested (by decide)

theorem wellNested_kotlinRecord : WellNested .kotlin (kotlinRecord e) := by
  have hclass : Passes .kotlin .code ((if e.fields.isEmpty then "" else "data ") ++ "class " ++
      e.name ++ "(").toList "(".toList := by
    refine passes_named (hm.type e he) ?_ (by decide)
    split
    · decide
    · decide
  have hhead : AllPass .kotlin [.code 1 ((if e.fields.isEmpty then "" else "data ") ++ "class " ++
      e.name ++ "(")] "(".toList := .cons (passes_code 1 hclass) .nil
  have hfields : AllPass .kotlin (e.fields.map fun f =>
      .code 2 ("val " ++ f.name ++ ": String,")) [] :=
    .map fun f hf => passes_code 2
      (passes_named (hm.field e he f hf) (by decide) (by decide))
  have hmiddle : AllPass .kotlin [.code 1 (") : " ++ baseTypeName ++ "(")] ")(".toList := by decide
  have hopen : AllPass .kotlin [.code 2 "mapOf("] "(".toList := by decide
  have hentries : AllPass .kotlin (e.fields.map fun f =>
      ⟨3, [.literal f.key, .code (" to " ++ f.name ++ ",")]⟩) [] :=
    .map fun f hf => passes_literal_code 3 f.key
      (passes_named (hm.field e he f hf) (by decide) (by decide))
  have hend : AllPass .kotlin [.code 2 "),", .code 1 ")"] "))".toList := by decide
  have hall := (((((hhead.append hfields).append hmiddle).append
    (allPass_identity .kotlin 2 e)).append hopen).append hentries).append hend
  exact hall.wellNested (by decide)

theorem wellNested_kotlinEvent (comments : Bool) : WellNested .kotlin (kotlinEvent comments e) := by
  have hremark : AllPass .kotlin [.around 1 "// Event " e.eventName ""] [] :=
    .cons (passes_remark 1 _ (by decide) (by decide) (by decide)) .nil
  have habout : AllPass .kotlin
      (.blank :: onlyIf comments [.around 1 "// Event " e.eventName ""]) [] :=
    .cons passes_blank (hremark.onlyIf comments)
  refine (habout.wellNested balanced_nil).append ?_
  split
  · exact wellNested_kotlinSingleton hm he
  · exact wellNested_kotlinRecord hm he

end

section
variable {m : CategoryModule} (hm : m.Proper)
include hm

theorem wellNested_pythonValues (comments : Bool) :
    WellNested .python (pythonValues comments m) := by
  have hhead : AllPass .python [.blank, .code 1 ("class " ++ valuesName ++ ":")] [] := by decide
  have hconstants : AllPass .python (m.constants.map fun c =>
      ⟨2, [.code (c.name ++ ": Final = "), .literal c.value]⟩) [] := by
    refine .map fun c hc => passes_code_literal 2 c.value ?_
    rw [String.toList_append]
    exact (passes_name .python (hm.constant c hc)).append (by decide)
  have habout := allPass_description comments "Predefined parameter values."
  have hall := (hhead.append habout).append hconstants
  exact hall.wellNested balanced_nil

theorem wellNested_kotlinValues : WellNested .kotlin (kotlinValues m) := by
  have hhead : AllPass .kotlin [.blank, .code 1 ("object " ++ valuesName ++ " \x7b")]
      "\x7b".toList := by decide
  have hconstants : AllPass .kotlin (m.constants.map fun c =>
      ⟨2, [.code ("const val " ++ c.name ++ " = "), .literal c.value]⟩) [] :=
    .map fun c hc => passes_code_literal 2 c.value
      (passes_named (hm.constant c hc) (by decide) (by decide))
  have hend : AllPass .kotlin [.code 1 "\x7d"] "\x7d".toList := by decide
  have hall := (hhead.append hconstants).append hend
  exact hall.wellNested (by decide)

end

/-! ## Whole files -/

theorem wellNested_pythonHead {package : String} (hpackage : Naming.IsPackage package)
    (m : CategoryModule) : WellNested .python (pythonHead package m) := by
  have hnotice : AllPass .python [.code 0 ("# " ++ notice), .blank] [] := by decide
  have htop : AllPass .python [.literal 0 ("Analytics events of the " ++ m.categoryName ++
      " category."), .code 0 ("# " ++ notice), .blank] [] := .cons (passes_literalLine 0 _) hnotice
  have hdataclass : AllPass .python [.code 0 "from dataclasses import dataclass"] [] := by decide
  have hfinal : AllPass .python [.code 0 "from typing import Final"] [] := by decide
  have hnames : Passes .python .code (" import " ++ baseTypeName ++
      if m.hasSingletons then ", singleton" else "").toList [] := by
    split
    · decide
    · decide
  have himport : Passes .python .code ("from " ++ Naming.below package baseTypeName ++ " import " ++
      baseTypeName ++ if m.hasSingletons then ", singleton" else "").toList [] := by
    have hfrom : Passes .python .code "from ".toList [] := by decide
    have hbase : Naming.isIdentifier baseTypeName.toList = true := by decide
    have hbelow := passes_below .python hpackage hbase
    have hall := (hfrom.append hbelow).append hnames
    simpa only [String.toList_append, List.append_assoc, List.append_nil] using hall
  have hend : AllPass .python [.blank, .code 0 ("from " ++ Naming.below package baseTypeName ++
      " import " ++ baseTypeName ++ if m.hasSingletons then ", singleton" else "")] [] :=
    .cons passes_blank (.cons (passes_code 0 himport) .nil)
  have hall := ((htop.append (hdataclass.onlyIf m.hasRecords)).append
    (hfinal.onlyIf m.hasConstants)).append hend
  exact hall.wellNested balanced_nil

theorem wellNested_pythonBody {m : CategoryModule} (hm : m.Proper) (comments : Bool) :
    WellNested .python (pythonBody comments m) := by
  have hclass : Passes .python .code ("class " ++ m.containerName ++ ":").toList [] :=
    passes_named hm.container (by decide) (by decide)
  have htop : AllPass .python [.blank, .blank, .code 0 ("class " ++ m.containerName ++ ":"),
      .literal 1 ("Events of the " ++ m.categoryName ++ " category.")] [] :=
    .cons passes_blank (.cons passes_blank (.cons (passes_code 0 hclass)
      (.cons (passes_literalLine 1 _) .nil)))
  have hevents : WellNested .python (m.eventTypes.flatMap (pythonEvent comments m)) :=
    .flatMap fun e he => wellNested_pythonEvent hm he comments
  have hvalues := (wellNested_pythonValues hm comments).onlyIf m.hasConstants
  exact ((htop.wellNested balanced_nil).append hevents).append hvalues

theorem wellNested_pythonCategory {m : CategoryModule} (hm : m.Proper) (comments : Bool)
    {package : String} (hpackage : Naming.IsPackage package) :
    WellNested .python (pythonCategory comments package m) := by
  rw [pythonCategory_eq]
  exact (wellNested_pythonHead hpackage m).append (wellNested_pythonBody hm comments)

/-- What stands above the container of a category in Kotlin. -/
def kotlinTop (comments : Bool) (package : String) (m : CategoryModule) : List Line :=
  kotlinHead package m ++
    onlyIf comments [.around 0 "// Events of the " m.categoryName " category."]

/-- What stands in the container of a category in Kotlin. -/
def kotlinMembers (comments : Bool) (m : CategoryModule) : List Line :=
  m.eventTypes.flatMap (kotlinEvent comments) ++ onlyIf m.hasConstants (kotlinValues m)

theorem kotlinCategory_split (comments : Bool) (package : String) (m : CategoryModule) :
    kotlinCategory comments package m = kotlinTop comments package m ++
      .code 0 ("object " ++ m.containerName ++ " \x7b") ::
        (kotlinMembers comments m ++ [.code 0 "\x7d"]) := by
  simp [kotlinCategory, kotlinTop, kotlinHead, kotlinMembers]

section
variable {m : CategoryModule} (hm : m.Proper)
include hm

theorem wellNested_kotlinTop (comments : Bool) {package : String}
    (hpackage : Naming.IsPackage package) : WellNested .kotlin (kotlinTop comments package m) := by
  have hnotice : AllPass .kotlin [.code 0 ("// " ++ notice)] [] := by decide
  have hpath : Passes .kotlin .code ("package " ++ m.path).toList [] := by
    obtain ⟨parent, segment, hparent, hsegment, hpath⟩ := hm.path
    have hword : Passes .kotlin .code "package ".toList [] := by decide
    rw [hpath, String.toList_append]
    exact hword.append (passes_below .kotlin hparent hsegment)
  have himport : Passes .kotlin .code ("import " ++ package ++ "." ++ baseTypeName).toList [] := by
    have hword : Passes .kotlin .code "import ".toList [] := by decide
    have hname : Passes .kotlin .code ("." ++ baseTypeName).toList [] := by decide
    have hall := (hword.append (passes_package .kotlin hpackage)).append hname
    simpa only [String.toList_append, List.append_assoc, List.append_nil] using hall
  have hpackages : AllPass .kotlin (onlyIf (!m.path.isEmpty) [.code 0 ("package " ++ m.path)]) [] :=
    .onlyIf (.cons (passes_code 0 hpath) .nil) _
  have himports : AllPass .kotlin (onlyIf (!package.isEmpty)
      [.code 0 ("import " ++ package ++ "." ++ baseTypeName), .blank]) [] :=
    .onlyIf (.cons (passes_code 0 himport) (.cons passes_blank .nil)) _
  have hremark : AllPass .kotlin (onlyIf comments
      [.around 0 "// Events of the " m.categoryName " category."]) [] :=
    .onlyIf (.cons (passes_remark 0 _ (by decide) (by decide) (by decide)) .nil) _
  have hall := (((hnotice.append hpackages).append (.cons passes_blank .nil)).append
    himports).append hremark
  exact hall.wellNested balanced_nil

theorem wellNested_kotlinMembers (comments : Bool) :
    WellNested .kotlin (kotlinMembers comments m) := by
  have hevents : WellNested .kotlin (m.eventTypes.flatMap (kotlinEvent comments)) :=
    .flatMap fun e he => wellNested_kotlinEvent hm he comments
  exact hevents.append ((wellNested_kotlinValues hm).onlyIf m.hasConstants)

theorem allPass_kotlinContainer :
    AllPass .kotlin [.code 0 ("object " ++ m.containerName ++ " \x7b")] ['\x7b'] := by
  have hobject : Passes .kotlin .code ("object " ++ m.containerName ++ " \x7b").toList ['\x7b'] :=
    passes_named hm.container (by decide) (by decide)
  exact .cons (passes_code 0 hobject) .nil

theorem wellNested_kotlinCategory (comments : Bool) {package : String}
    (hpackage : Naming.IsPackage package) :
    WellNested .kotlin (kotlinCategory comments package m) := by
  have hend : AllPass .kotlin [.code 0 "\x7d"] ['\x7d'] := by decide
  have hmembers := wellNested_kotlinMembers hm comments
  have hcontainer := ((allPass_kotlinContainer hm).append hmembers.allPass).append hend
  have hbalanced : Balanced
      (['\x7b'] ++ bracketsOf .kotlin (kotlinMembers comments m) ++ ['\x7d']) := by
    rw [Balanced, nest_append, nest_append]
    show (nest ['\x7b'] _ >>= _) = _
    rw [hmembers.balanced.nest_eq]
    rfl
  rw [kotlinCategory_split]
  exact (wellNested_kotlinTop hm comments hpackage).append (hcontainer.wellNested hbalanced)

end

/-- The lines of the file of a category end in code each, and their brackets are balanced. -/
theorem wellNested_categoryLines {m : CategoryModule} (hm : m.Proper) (t : Target) (comments : Bool)
    {package : String} (hpackage : Naming.IsPackage package) :
    WellNested t (categoryLines t comments package m) := by
  cases t with
  | python => exact wellNested_pythonCategory hm comments hpackage
  | kotlin => exact wellNested_kotlinCategory hm comments hpackage

end EventCodegen.Source
