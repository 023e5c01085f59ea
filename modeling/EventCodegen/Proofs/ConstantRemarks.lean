import EventCodegen.Proofs.EventShapes
import EventCodegen.Proofs.Generations
import EventCodegen.Proofs.ImportLines
import EventCodegen.Proofs.PredefinedValues

/-! The remarks on fields in Python and the constants that they name. A generated file is read line
by line, whatever its indentation is: a line declares a field with a comment, opens the container of
values, assigns a constant, or declares nothing (`Declaration.read`). Read like this, what follows
the class line of a category is its fields in the order of the plan and then its constants
(`declared_pythonMembers`), and neither the layout nor anything above the class line, which may hold
any package, makes a difference (`exists_members`). The remark on a field is a look-up in the table
of constants, so it names the constant that holds the value of the field if that is the last value
with its name, and is missing otherwise (`remarks_name_constants`). -/
namespace EventCodegen

namespace Source

/-! ## What a line declares -/

/-- What a line in the container of a category declares. -/
inductive Declaration
  | field (name comment : String)
  | values
  | constant (name literal : String)
deriving DecidableEq, Repr

namespace Declaration

/-- The comment in what follows the code of a line. -/
def commentIn (s : String) : String := String.ofList (s.toList.dropWhile (· != '#'))

/-- Reads a line after its indentation. A field is a name of type `str`, a constant is a name with
what is assigned to it. -/
def read (content : List Char) : Option Declaration :=
  let name := String.ofList (content.takeWhile Naming.isIdentifierChar)
  let rest := content.dropWhile Naming.isIdentifierChar
  match after? ": str" rest with
  | some more => some (.field name (commentIn more))
  | none =>
    match after? ": Final = " rest with
    | some literal => some (.constant name literal)
    | none => if content = "class Values:".toList then some .values else none

/-- The name and the comment of a field. -/
def field? : Declaration → Option (String × String)
  | field name comment => some (name, comment)
  | _ => none

/-- The name of a constant and what is assigned to it. -/
def constant? : Declaration → Option (String × String)
  | constant name literal => some (name, literal)
  | _ => none

end Declaration

/-- What some lines declare. -/
def declarations (lines : List (List Char)) : List Declaration :=
  lines.filterMap fun line => Declaration.read (Layout.content line)

/-- The names and comments of the fields that some lines declare. -/
def fieldsIn (lines : List (List Char)) : List (String × String) :=
  (declarations lines).filterMap Declaration.field?

/-- The assignments in the container of values that some lines declare. -/
def assignmentsIn (lines : List (List Char)) : List (String × String) :=
  ((declarations lines).dropWhile (· != .values)).filterMap Declaration.constant?

/-- What lines of source text declare, whatever their level. -/
def declared (ls : List Line) : List Declaration :=
  ls.filterMap fun l => Declaration.read (l.body .python)

/-- A line that declares nothing, whatever its level. -/
def Line.Silent (l : Line) : Prop := Declaration.read (l.body .python) = none

section
variable {name : String} (hname : Naming.isIdentifier name.toList = true)
include hname

/-- A name ends where a character follows that no name has. -/
theorem span_name (rest : List Char)
    (hrest : rest.head?.any (!Naming.isIdentifierChar ·) = true) :
    (name.toList ++ rest).takeWhile Naming.isIdentifierChar = name.toList ∧
      (name.toList ++ rest).dropWhile Naming.isIdentifierChar = rest := by
  cases rest with
  | nil => cases hrest
  | cons x rest =>
    have hx : ¬Naming.isIdentifierChar x = true := by simpa using hrest
    rw [List.takeWhile_append_of_pos fun _ => Naming.isIdentifierChar_of_mem hname,
      List.dropWhile_append_of_pos fun _ => Naming.isIdentifierChar_of_mem hname,
      List.takeWhile_cons_of_neg hx, List.dropWhile_cons_of_neg hx, List.append_nil]
    exact ⟨rfl, rfl⟩

theorem read_field (more : String) : Declaration.read (name ++ ": str" ++ more).toList =
    some (.field name (Declaration.commentIn more)) := by
  obtain ⟨htake, hdrop⟩ := span_name hname (": str" ++ more).toList
    (by rw [String.toList_append]; rfl)
  rw [String.append_assoc, String.toList_append, Declaration.read, htake, hdrop, after?_append,
    String.ofList_toList]

theorem read_constant (literal : String) :
    Declaration.read (name ++ ": Final = " ++ literal).toList = some (.constant name literal) := by
  obtain ⟨htake, hdrop⟩ := span_name hname (": Final = " ++ literal).toList
    (by rw [String.toList_append]; rfl)
  have hno : ¬": str".toList <+: (": Final = " ++ literal).toList := by
    rw [String.toList_append]
    simp
  rw [String.append_assoc, String.toList_append, Declaration.read, htake, hdrop, after?_eq_none hno,
    after?_append, String.ofList_toList]

end

/-- A line declares nothing if no colon comes after the name that it may begin with. -/
theorem read_eq_none {content : List Char}
    (hcolon : ∀ rest, content.dropWhile Naming.isIdentifierChar ≠ ':' :: rest)
    (hvalues : content ≠ "class Values:".toList) : Declaration.read content = none := by
  have hnone : ∀ word : String, ∀ more, word.toList = ':' :: more →
      after? word (content.dropWhile Naming.isIdentifierChar) = none := by
    intro word more hword
    apply after?_eq_none
    rw [hword]
    rintro ⟨rest, hrest⟩
    exact hcolon _ hrest.symm
  rw [Declaration.read, hnone ": str" _ rfl, hnone ": Final = " _ rfl, if_neg hvalues]

theorem silent_blank : Line.blank.Silent := rfl

theorem silent_literal {level : Nat} {raw : String} {rest : List Piece} :
    Line.Silent ⟨level, .literal raw :: rest⟩ :=
  read_eq_none (fun _ h => by cases h) (fun h => by cases h)

theorem silent_code {level : Nat} {s : String} (h : Declaration.read s.toList = none) :
    (Line.code level s).Silent := by
  have hbody : (Line.code level s).body .python = s.toList := List.append_nil _
  rwa [Line.Silent, hbody]

/-- The class of an event is not the container of values, as its base type follows its name. -/
theorem silent_class {level : Nat} {name : String}
    (hname : Naming.isIdentifier name.toList = true) :
    (Line.code level ("class " ++ name ++ "(" ++ baseTypeName ++ "):")).Silent := by
  have hlist : ("class " ++ name ++ "(" ++ baseTypeName ++ "):").toList =
      "class".toList ++ ' ' :: (name.toList ++ '(' :: (baseTypeName ++ "):").toList) := by
    simp [String.toList_append]
  apply silent_code
  rw [hlist]
  apply read_eq_none
  · intro rest h
    have hword : Naming.isIdentifier "class".toList = true := by decide
    rw [(span_name hword _ (by rfl)).2] at h
    cases h
  · intro h
    have hclass : "class Values:".toList =
        "class".toList ++ ' ' :: ("Values".toList ++ [':']) := rfl
    rw [hclass, List.append_cancel_left_eq, List.cons.injEq] at h
    have hnames := Naming.identifier_append_inj
      (fun _ => Naming.isIdentifierChar_of_mem hname)
      (List.all_eq_true.mp (by decide : "Values".toList.all Naming.isIdentifierChar = true))
      (by decide) (by decide) h.2
    exact absurd hnames.2.1 (by decide)

@[simp] theorem declared_nil : declared [] = [] := rfl

@[simp] theorem declared_append (ks ls : List Line) :
    declared (ks ++ ls) = declared ks ++ declared ls := List.filterMap_append

theorem declared_flatMap {α : Type} (f : α → List Line) (as : List α) :
    declared (as.flatMap f) = as.flatMap fun a => declared (f a) := List.filterMap_flatMap

theorem declared_of_silent {ls : List Line} (h : ∀ l ∈ ls, l.Silent) : declared ls = [] :=
  List.filterMap_eq_nil_iff.mpr h

theorem declared_onlyIf (condition : Bool) (ls : List Line) :
    declared (onlyIf condition ls) = if condition then declared ls else [] := by
  cases condition <;> rfl

theorem declared_map {α : Type} {f : α → Line} {d : α → Declaration} {as : List α}
    (h : ∀ a ∈ as, Declaration.read ((f a).body .python) = some (d a)) :
    declared (as.map f) = as.map d := by
  rw [declared, List.filterMap_map, ← List.filterMap_eq_map]
  exact List.filterMap_congr h

/-! ## What a category declares -/

/-- The lines of a category file in Python after the class line of the category. -/
def pythonMembers (comments : Bool) (m : CategoryModule) : List Line :=
  [.literal 1 ("Events of the " ++ m.categoryName ++ " category.")] ++
  m.eventTypes.flatMap (pythonEvent comments m) ++
  onlyIf m.hasConstants (pythonValues comments m)

theorem pythonCategory_split (comments : Bool) (package : String) (m : CategoryModule) :
    pythonCategory comments package m = (pythonHead package m ++ [.blank, .blank]) ++
      .code 0 ("class " ++ m.containerName ++ ":") :: pythonMembers comments m := by
  simp [pythonCategory, pythonHead, pythonMembers]

theorem silent_identity (level : Nat) (e : EventType) : ∀ l ∈ identity level e, l.Silent := by
  simp [identity, Line.argument, silent_literal]

theorem declared_description (comments : Bool) (description : String) :
    declared (onlyIf comments [.literal 2 description, .blank]) = [] := by
  apply declared_of_silent
  rw [forall_mem_onlyIf]
  intro _
  simp [Line.literal, silent_literal, silent_blank]

section
variable {m : CategoryModule} (hm : m.Proper)
include hm

/-- A type declares nothing before its members. -/
theorem declared_head (decorator : String) (hdecorator : Declaration.read decorator.toList = none)
    {e : EventType} (he : e ∈ m.eventTypes) : declared [.code 1 decorator,
      .code 1 ("class " ++ e.name ++ "(" ++ baseTypeName ++ "):")] = [] := by
  apply declared_of_silent
  simp only [List.forall_mem_cons]
  exact ⟨silent_code hdecorator, silent_class (hm.type e he), List.forall_mem_nil _⟩

theorem declared_pythonSingleton (comments : Bool) {e : EventType} (he : e ∈ m.eventTypes) :
    declared (pythonSingleton comments e) = [] := by
  have hhead := declared_head hm "@singleton" rfl he
  have hcall : declared [.code 2 "def __init__(self) -> None:", .code 3 "super().__init__("] = [] :=
    rfl
  have hidentity : declared (identity 4 e) = [] := declared_of_silent (silent_identity 4 e)
  have hend : declared [.code 4 "\x7b\x7d,", .code 3 ")"] = [] := rfl
  rw [pythonSingleton, declared_append, declared_append, declared_append, declared_append, hhead,
    declared_description, hcall, hidentity, hend]
  rfl

/-- A record declares its fields with their remarks. All else in it stands in literals or after
words that no colon follows. -/
theorem declared_pythonRecord (comments : Bool) {e : EventType} (he : e ∈ m.eventTypes) :
    declared (pythonRecord comments m e) = e.fields.map fun f =>
      .field f.name (Declaration.commentIn (fieldRemark comments m f)) := by
  have hhead := declared_head hm "@dataclass(frozen=True)" rfl he
  have hfields : declared (e.fields.map fun f =>
      .code 2 (f.name ++ ": str" ++ fieldRemark comments m f)) = e.fields.map fun f =>
        .field f.name (Declaration.commentIn (fieldRemark comments m f)) := by
    refine declared_map fun f hf => ?_
    have hbody : (Line.code 2 (f.name ++ ": str" ++ fieldRemark comments m f)).body .python =
        (f.name ++ ": str" ++ fieldRemark comments m f).toList := List.append_nil _
    rw [hbody, read_field (hm.field e he f hf)]
  have hgap : declared (onlyIf (!e.fields.isEmpty) [.blank]) = [] := by
    rw [declared_onlyIf, declared_of_silent (List.forall_mem_singleton.mpr silent_blank), ite_self]
  have hcall : declared [.code 2 "def __post_init__(self) -> None:", .code 3 "super().__init__("] =
      [] := rfl
  have hidentity : declared (identity 4 e) = [] := declared_of_silent (silent_identity 4 e)
  have hopen : declared [.code 4 "\x7b"] = [] := rfl
  have hentries : declared (e.fields.map fun f =>
      ⟨5, [.literal f.key, .code (": self." ++ f.name ++ ",")]⟩) = [] :=
    declared_of_silent (List.forall_mem_map.mpr fun _ _ => silent_literal)
  have hend : declared [.code 4 "\x7d,", .code 3 ")"] = [] := rfl
  simp only [pythonRecord, declared_append, hhead, declared_description, hfields, hgap, hcall,
    hidentity, hopen, hentries, hend, List.nil_append, List.append_nil]

theorem declared_pythonEvent (comments : Bool) {e : EventType} (he : e ∈ m.eventTypes) :
    declared (pythonEvent comments m e) = e.fields.map fun f =>
      .field f.name (Declaration.commentIn (fieldRemark comments m f)) := by
  have hblank : ∀ ls : List Line, declared (.blank :: ls) = declared ls := fun _ => rfl
  rw [pythonEvent, hblank]
  split
  · next hsimple =>
    rw [declared_pythonSingleton hm comments he, hm.simple e he hsimple, List.map_nil]
  · exact declared_pythonRecord hm comments he

theorem declared_pythonValues (comments : Bool) :
    declared (pythonValues comments m) =
      .values :: m.constants.map fun k => .constant k.name (literal .python k.value) := by
  have hhead : declared [.blank, .code 1 ("class " ++ valuesName ++ ":")] = [.values] := rfl
  have hconstants : declared (m.constants.map fun k =>
      ⟨2, [.code (k.name ++ ": Final = "), .literal k.value]⟩) =
        m.constants.map fun k => .constant k.name (literal .python k.value) := by
    refine declared_map fun k hk => ?_
    have hbody : Line.body .python ⟨2, [.code (k.name ++ ": Final = "), .literal k.value]⟩ =
        (k.name ++ ": Final = " ++ literal .python k.value).toList := by
      simp [Line.body, Piece.render, literal]
    rw [hbody, read_constant (hm.constant k hk)]
  rw [pythonValues, declared_append, declared_append, hhead, declared_description, hconstants]
  rfl

/-- A category declares the fields of its events in their order, and then its constants. -/
theorem declared_pythonMembers (comments : Bool) :
    declared (pythonMembers comments m) =
      ((m.eventTypes.flatMap (·.fields)).map fun f =>
        .field f.name (Declaration.commentIn (fieldRemark comments m f))) ++
      if m.hasConstants then
        .values :: m.constants.map fun k => .constant k.name (literal .python k.value)
      else [] := by
  have hdescription : declared [.literal 1 ("Events of the " ++ m.categoryName ++ " category.")] =
      [] := declared_of_silent (List.forall_mem_singleton.mpr silent_literal)
  have hevents : declared (m.eventTypes.flatMap (pythonEvent comments m)) =
      (m.eventTypes.flatMap (·.fields)).map fun f =>
        .field f.name (Declaration.commentIn (fieldRemark comments m f)) := by
    rw [declared_flatMap, List.map_flatMap]
    exact List.flatMap_congr fun e he => declared_pythonEvent hm comments he
  rw [pythonMembers, declared_append, declared_append, hdescription, hevents, declared_onlyIf,
    declared_pythonValues hm, List.nil_append]

theorem allSound_pythonMembers (comments : Bool) :
    AllSound .python (pythonMembers comments m) := by
  have hpackage : Naming.IsPackage "" := ⟨[], List.forall_mem_nil _, rfl⟩
  have hall := allSound_pythonCategory hm comments hpackage
  rw [pythonCategory_split] at hall
  exact fun l hl => hall l (List.mem_append_right _ (List.mem_cons_of_mem _ hl))

end

/-! ## Reading a laid-out file -/

/-- Sound lines that follow a line at the first level declare in the laid-out text what they
declared before, whatever stands above it. -/
theorem exists_members (above : List Line) (hne : above ≠ []) {s : String}
    (hline : (Line.code 0 s).Sound .python) (hs : Opens s.toList) {ls : List Line}
    (h : AllSound .python ls) (n : Int) : ∃ front members,
    Text.lines (Layout.format n (text .python (above ++ .code 0 s :: ls))) =
      front ++ s.toList :: members ∧ declarations members = declared ls := by
  obtain ⟨front, members, hlines, hmembers⟩ := exists_below above hne hline.neat hs h.neat n
  exact ⟨front, members, hlines, filterMap_content rfl h.neat hmembers⟩

end Source

/-! ## Remarks and constants -/

/-- A value of a category that none with the same constant name follows, so that its constant holds
it in the end. -/
def Category.Survives (rules : Scope) (c : Category) (value : String) : Prop :=
  IsLast (CategoryModule.constantName rules) ((c.allValues.filter (IsGivenValue ·)).eraseDups) value

/-- The types of a category have a field for each key, which has the value that the key comes with
first. -/
def CategoryModule.FollowsPlan (c : Category) (m : CategoryModule) : Prop :=
  List.Forall₂ (fun e type =>
    type.fields.map (·.key) = ((e.parameters.map (·.key)).filter (· ≠ screenKey)).eraseDups ∧
    ∀ f ∈ type.fields, e.IsFirst ⟨f.key, f.value⟩) c.events m.eventTypes

/-- What the line of a field says, given the assignments in the container of values: with comments
it names the constant that holds the value of the field, if one does, and says nothing else. -/
structure Field.Remarked (rules : Scope) (comments : Bool) (c : Category)
    (assignments : List (String × String)) (f : Field) (line : String × String) : Prop where
  name : line.1 = f.name
  off : comments = false → line.2 = ""
  on : comments = true → ∀ constant, line.2 = "# e.g. Values." ++ constant ↔
    c.Survives rules f.value ∧ constant = CategoryModule.constantName rules f.value
  bare : ¬c.Survives rules f.value → line.2 = ""
  assigned : c.Survives rules f.value →
    assignments.filter (·.1 = CategoryModule.constantName rules f.value) =
      [(CategoryModule.constantName rules f.value, Source.literal .python f.value)]

namespace CategoryModule

/-- All but the path of a module is the same in every package. -/
theorem proper_moved {t : Target} {strict : Bool} {package : String} {c : Category}
    {m : CategoryModule} (h : ofCategory t.scope strict package c = .ok m) :
    Proper { m with path := t.scope.moduleName c.name } := by
  obtain ⟨events, hr, rfl⟩ := ofCategory_ok h
  have hplain : ofCategory t.scope strict "" c =
      .ok (build t.scope "" c.name events (Shape.predefinedValues events)) := by
    rw [ofCategory, hr]
    rfl
  exact proper_of_ofCategory ⟨[], List.forall_mem_nil _, rfl⟩ hplain

variable {rules : Scope} {strict : Bool} {package : String} {c : Category} {m : CategoryModule}
  (h : ofCategory rules strict package c = .ok m)
include h

theorem followsPlan_of_ofCategory : FollowsPlan c m := by
  refine (forall₂_eventTypes h).imp ?_
  rintro e type ⟨used, rfl⟩
  have hfollows := Shape.follows_resolved rules { Shape.typeScope rules with used } e
  exact ⟨hfollows.keys, hfollows.values⟩

/-- The constants of a category hold exactly the values that survive. -/
theorem mem_constants_iff {name value : String} :
    ⟨name, value⟩ ∈ m.constants ↔ name = constantName rules value ∧ c.Survives rules value := by
  obtain ⟨events, hr, rfl⟩ := ofCategory_ok h
  rw [Category.Survives, ← Shape.predefinedValues_of_events hr]
  exact mem_constantsFor_iff rules

theorem constantFor?_iff {name value : String} :
    m.constantFor? value = some name ↔
      name = constantName rules value ∧ c.Survives rules value := by
  rw [← mem_constants_iff h]
  obtain ⟨events, _, rfl⟩ := ofCategory_ok h
  exact constantFor?_eq_some_iff rfl

theorem nodup_constants : (m.constants.map (·.name)).Nodup := by
  obtain ⟨events, _, rfl⟩ := ofCategory_ok h
  exact nodup_constantsFor rules _

/-- The comment on a field is the outcome of looking its value up. -/
theorem commentIn_fieldRemark (f : Field) :
    Source.Declaration.commentIn (Source.fieldRemark true m f) =
      match m.constantFor? f.value with
      | some constant => "# e.g. Values." ++ constant
      | none => "" := by
  unfold Source.fieldRemark
  cases hlookup : m.constantFor? f.value with
  | none =>
    rw [ite_self]
    rfl
  | some constant =>
    have hvalue : f.value ≠ "" := by
      have hmem := (mem_constants_iff h).mpr ((constantFor?_iff h).mp hlookup)
      exact ne_empty_of_mem_constants h hmem
    have hsplit : ("  # e.g. " ++ valuesName ++ "." ++ constant).toList =
        "  ".toList ++ ("# e.g. Values." ++ constant).toList := by
      simp [String.toList_append, valuesName]
    have hmark : ("# e.g. Values." ++ constant).toList =
        '#' :: (" e.g. Values.".toList ++ constant.toList) := String.toList_append
    have hspaces : ∀ c ∈ "  ".toList, (c != '#') = true := List.all_eq_true.mp (by decide)
    rw [if_pos ⟨rfl, hvalue⟩, Source.Declaration.commentIn, hsplit,
      List.dropWhile_append_of_pos hspaces, hmark, List.dropWhile_cons_of_neg (by decide), ← hmark,
      String.ofList_toList]

end CategoryModule

theorem filter_name {k : Constant} : ∀ {constants : List Constant},
    (constants.map (·.name)).Nodup → k ∈ constants → constants.filter (·.name = k.name) = [k]
  | c :: rest, hnodup, hk => by
    rw [List.map_cons, List.nodup_cons] at hnodup
    rcases List.mem_cons.mp hk with rfl | hk
    · have hrest : rest.filter (·.name = k.name) = [] := by
        rw [List.filter_eq_nil_iff]
        intro d hd hname
        exact hnodup.1 (of_decide_eq_true hname ▸ List.mem_map_of_mem hd)
      rw [List.filter_cons_of_pos (by simp), hrest]
    · have hne : c.name ≠ k.name := fun hname => hnodup.1 (hname ▸ List.mem_map_of_mem hk)
      rw [List.filter_cons_of_neg (by simpa using hne), filter_name hnodup.2 hk]

namespace Source

section
variable {m : CategoryModule} (hm : m.Proper) {comments : Bool} {members : List (List Char)}
  (h : declarations members = declared (pythonMembers comments m))
include hm h

theorem fieldsIn_members : fieldsIn members = (m.eventTypes.flatMap (·.fields)).map fun f =>
    (f.name, Declaration.commentIn (fieldRemark comments m f)) := by
  have hvalues : (if m.hasConstants then
      .values :: m.constants.map fun k => .constant k.name (literal .python k.value)
      else []).filterMap Declaration.field? = [] := by
    rw [List.filterMap_eq_nil_iff]
    intro d hd
    split at hd
    · rcases List.mem_cons.mp hd with rfl | hd
      · rfl
      · obtain ⟨k, _, rfl⟩ := List.mem_map.mp hd
        rfl
    · cases hd
  rw [fieldsIn, h, declared_pythonMembers hm, List.filterMap_append, hvalues, List.append_nil,
    List.filterMap_map]
  exact congrFun List.filterMap_eq_map _

theorem assignmentsIn_members :
    assignmentsIn members = m.constants.map fun k => (k.name, literal .python k.value) := by
  have hfields : ∀ d ∈ (m.eventTypes.flatMap (·.fields)).map fun f =>
      Declaration.field f.name (Declaration.commentIn (fieldRemark comments m f)),
      (d != Declaration.values) = true := by
    intro d hd
    obtain ⟨f, _, rfl⟩ := List.mem_map.mp hd
    rfl
  rw [assignmentsIn, h, declared_pythonMembers hm, List.dropWhile_append_of_pos hfields]
  cases hconstants : m.constants with
  | nil =>
    have hnone : m.hasConstants = false := by
      rw [CategoryModule.hasConstants, hconstants]
      rfl
    rw [hnone]
    rfl
  | cons k rest =>
    have hsome : m.hasConstants = true := by
      rw [CategoryModule.hasConstants, hconstants]
      rfl
    rw [hsome, if_pos rfl, List.dropWhile_cons_of_neg (by decide), List.filterMap_cons,
      List.filterMap_map]
    exact congrFun List.filterMap_eq_map _

end

end Source

/-- What is read of a field follows from its place in the plan. -/
theorem CategoryModule.remarked {rules : Scope} {strict : Bool} {package : String} {c : Category}
    {m : CategoryModule} (h : ofCategory rules strict package c = .ok m) (comments : Bool)
    (f : Field) : f.Remarked rules comments c
      (m.constants.map fun k => (k.name, Source.literal .python k.value))
      (f.name, Source.Declaration.commentIn (Source.fieldRemark comments m f)) := by
  have hlookup : ∀ name, m.constantFor? f.value = some name ↔
      name = constantName rules f.value ∧ c.Survives rules f.value := fun _ => constantFor?_iff h
  have hoff : Source.Declaration.commentIn (Source.fieldRemark false m f) = "" := by
    rw [Source.fieldRemark, if_neg (fun hfalse => Bool.false_ne_true hfalse.1)]
    rfl
  refine ⟨rfl, ?off, ?on, ?bare, ?assigned⟩
  case off =>
    rintro rfl
    exact hoff
  case on =>
    rintro rfl name
    show Source.Declaration.commentIn _ = _ ↔ _
    rw [commentIn_fieldRemark h, and_comm, ← hlookup]
    cases m.constantFor? f.value with
    | none =>
      constructor
      · intro hempty
        have hchars := congrArg String.toList hempty
        rw [String.toList_append] at hchars
        cases hchars
      · intro hsome
        cases hsome
    | some constant => rw [String.append_right_inj, Option.some.injEq]
  case bare =>
    intro hlost
    cases comments with
    | false => exact hoff
    | true =>
      show Source.Declaration.commentIn _ = _
      rw [commentIn_fieldRemark h]
      cases hfound : m.constantFor? f.value with
      | none => rfl
      | some constant => exact absurd ((hlookup constant).mp hfound).2 hlost
  case assigned =>
    intro hsurvives
    have hmem := (mem_constants_iff h).mpr ⟨rfl, hsurvives⟩
    rw [List.filter_map]
    exact congrArg (List.map _) (filter_name (nodup_constants h) hmem)

/-! ## Generated files -/

namespace Session

theorem exists_content {s : Session} {m : CategoryModule} {f : GeneratedFile}
    (h : s.categoryFile m = .ok f) : ∃ n, f.content = String.ofList (Layout.format n
      (Source.text s.target (Source.categoryLines s.target s.generator.settings.hasComments
        s.settings.packageText m))) := by
  obtain ⟨content, hcontent, hfile⟩ := bind_eq_ok.mp h
  cases hfile
  unfold laidOut at hcontent
  split at hcontent
  · next out hout =>
    obtain ⟨n, rfl⟩ := Layout.exists_format hout
    exact ⟨n, (Except.ok.inj hcontent).symm⟩
  · cases hcontent

/-- The file of a category in Python, read from the class line of the category on. -/
theorem exists_declarations {s : Session} (hpython : s.target = .python) {c : Category}
    {m : CategoryModule} {f : GeneratedFile} (h : s.Built c (m, f)) : ∃ front members,
    Text.lines f.content.toList =
      front ++ ("class " ++ m.containerName ++ ":").toList :: members ∧
    Source.assignmentsIn members =
      m.constants.map (fun k => (k.name, Source.literal .python k.value)) ∧
    Source.fieldsIn members = (m.eventTypes.flatMap (·.fields)).map fun f =>
      (f.name, Source.Declaration.commentIn
        (Source.fieldRemark s.generator.settings.hasComments m f)) := by
  obtain ⟨n, hcontent⟩ := exists_content h.2
  have hproper := CategoryModule.proper_moved h.1
  have hline : (Source.Line.code 0 ("class " ++ m.containerName ++ ":")).Sound .python :=
    Source.sound_named .python 0 hproper.container (by decide) (by decide)
  have hopens : Source.Opens ("class " ++ m.containerName ++ ":").toList := by
    rw [String.toList_append, String.toList_append, List.append_assoc]
    exact Source.Opens.append (by decide) _
  obtain ⟨front, members, hlines, hdeclared⟩ := Source.exists_members
    (Source.pythonHead s.settings.packageText m ++ [.blank, .blank]) (by simp) hline hopens
    (Source.allSound_pythonMembers hproper s.generator.settings.hasComments) n
  refine ⟨front, members, ?_, Source.assignmentsIn_members hproper hdeclared,
    Source.fieldsIn_members hproper hdeclared⟩
  rw [hcontent, String.toList_ofList, hpython]
  show Text.lines (Layout.format n (Source.text .python (Source.pythonCategory _ _ _))) = _
  rw [Source.pythonCategory_split]
  exact hlines

/-- The files of a plan in Python, with whatever package. From its class line on, the file of a
category declares a field for each key of its events, with the value that the key comes with first,
and no other line is read as a field. The comment of such a line names the constant that the same
file assigns the literal of that value, exactly if there is one; without comments no such line has
any. -/
theorem remarks_name_constants {s : Session} (hpython : s.target = .python) {text : String}
    {g : Generation} (h : (s.rendered text).outcome = .ok g) : ∃ categories built base,
    Plan.parse text = .ok categories ∧ s.baseFile = .ok base ∧ g.files = built.map (·.2) ++ [base] ∧
    List.Forall₂ (fun c b => s.Built c b ∧ CategoryModule.FollowsPlan c b.1 ∧ ∃ front members,
      Text.lines b.2.content.toList =
        front ++ ("class " ++ b.1.containerName ++ ":").toList :: members ∧
      List.Forall₂ (Field.Remarked s.rules s.generator.settings.hasComments c
        (Source.assignmentsIn members)) (b.1.eventTypes.flatMap (·.fields))
        (Source.fieldsIn members)) categories built := by
  obtain ⟨categories, hplan, hgeneration⟩ := rendered_ok h
  obtain ⟨built, base, hbuilt, hbase, hfiles⟩ := generation_ok hgeneration
  refine ⟨categories, built, base, hplan, hbase, hfiles, hbuilt.imp fun c b hb => ?_⟩
  obtain ⟨front, members, hlines, hassignments, hfields⟩ := exists_declarations hpython hb
  refine ⟨hb, CategoryModule.followsPlan_of_ofCategory hb.1, front, members, hlines, ?_⟩
  rw [hassignments, hfields, List.forall₂_map_right_iff, List.forall₂_same]
  exact fun f _ => CategoryModule.remarked hb.1 _ f

/-- A plan with two values that have one constant name, of which only the later one survives. -/
def collidingPlan : String :=
  "[\x7b\"name\": \"Shop\", \"events\": [\x7b\"name\": \"open\", \"parameters\": [" ++
    "\x7b\"name\": \"from\", \"value\": \"home\"\x7d, " ++
    "\x7b\"name\": \"to\", \"value\": \"Home\"\x7d]\x7d]\x7d]"

theorem remarks_name_constants_colliding : ∃ g c b front members,
    ((standard .python).rendered collidingPlan).outcome = .ok g ∧
    Plan.parse collidingPlan = .ok [c] ∧ (standard .python).Built c b ∧
    Text.lines b.2.content.toList =
      front ++ ("class " ++ b.1.containerName ++ ":").toList :: members ∧
    List.Forall₂ (Field.Remarked Target.python.scope true c (Source.assignmentsIn members))
      (b.1.eventTypes.flatMap (·.fields)) (Source.fieldsIn members) := by
  have hcount : (Plan.parse collidingPlan).toOption.map (·.length) = some 1 := by decide +kernel
  have hok : ((standard .python).rendered collidingPlan).outcome.toOption.isSome := by
    decide +kernel
  cases hrendered : ((standard .python).rendered collidingPlan).outcome with
  | error e =>
    rw [hrendered] at hok
    cases hok
  | ok g =>
    obtain ⟨categories, built, base, hplan, _, _, hfiles⟩ :=
      remarks_name_constants (s := standard .python) rfl hrendered
    rw [hplan] at hcount
    obtain ⟨c, rfl⟩ := List.length_eq_one_iff.mp (Option.some.inj hcount)
    obtain ⟨b, _, ⟨hb, _, front, members, hlines, hremarked⟩, _, _⟩ :=
      List.forall₂_cons_left_iff.mp hfiles
    exact ⟨g, c, b, front, members, rfl, hplan, hb, hlines, hremarked⟩

end Session
end EventCodegen
