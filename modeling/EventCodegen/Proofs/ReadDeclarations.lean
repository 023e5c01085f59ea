import EventCodegen.Proofs.Brackets
import EventCodegen.Proofs.ConstantRemarks

/-! Reading the declarations in a category file. A file is read line by line, whatever its
indentation is: a line begins a type that extends the base type, says which kind the next type is,
assigns a constant, or is no declaration (`Entry.read`). Read like this, the container of a category
holds the types of its events, in their order, and then its constants (`readings_belowContainer`),
and nothing else in the file is a declaration (`readings_categoryLines`). A package without line
feeds leaves the lines of the file as they are (`allNeat_categoryLines`). -/
namespace EventCodegen.Source

/-! ## Declarations -/

/-- What a line of a category file declares: what kind of type comes next, a type of that kind, a
type of a kind that its own line tells, or a constant. -/
inductive Entry
  | mark (isSimple : Bool)
  | marked (name : String)
  | type (name : String) (isSimple : Bool)
  | constant (name : String)
deriving DecidableEq, Repr

namespace Entry

/-- The name between two texts at the beginning of a line. -/
def nameBetween? (before after : String) (content : List Char) : Option String :=
  (content.dropPrefix? before.toList).bind fun rest =>
    (after? after (rest.dropWhile Naming.isIdentifierChar)).map fun _ =>
      String.ofList (rest.takeWhile Naming.isIdentifierChar)

/-- Reads a line after its indentation. In Python the decorator of a class tells its kind; in Kotlin
a type is declared in one line. -/
def read : Target → List Char → Option Entry
  | .python, content =>
    if content = "@singleton".toList then some (.mark true)
    else if content = "@dataclass(frozen=True)".toList then some (.mark false)
    else ((nameBetween? "class " "(BaseEvent):" content).map .marked).or
      ((nameBetween? "" ": Final = " content).map .constant)
  | .kotlin, content =>
    ((nameBetween? "object " " : BaseEvent(" content).map (.type · true)).or
      (((nameBetween? "data class " "(" content).map (.type · false)).or
        (((nameBetween? "class " "(" content).map (.type · false)).or
          ((nameBetween? "const val " " = " content).map .constant)))

end Entry

/-- What lines of source text declare, whatever their level. -/
def readings (t : Target) (ls : List Line) : List Entry :=
  ls.filterMap fun l => Entry.read t (l.body t)

/-- A line that declares nothing, whatever its level. -/
def Line.Plain (t : Target) (l : Line) : Prop := Entry.read t (l.body t) = none

/-- What the declaration of an event type is read as. -/
def typeEntries (e : EventType) : Target → List Entry
  | .python => [.mark e.isSimple, .marked e.name]
  | .kotlin => [.type e.name e.isSimple]

/-- What the members of the container of a category are read as. -/
def memberEntries (t : Target) (m : CategoryModule) : List Entry :=
  m.eventTypes.flatMap (typeEntries · t) ++ m.constants.map fun k => .constant k.name

/-! ## Lines that declare nothing -/

section
variable {t : Target}

@[simp] theorem readings_nil : readings t [] = [] := rfl

@[simp] theorem readings_append (ks ls : List Line) :
    readings t (ks ++ ls) = readings t ks ++ readings t ls := List.filterMap_append

theorem readings_flatMap {α : Type} (f : α → List Line) (as : List α) :
    readings t (as.flatMap f) = as.flatMap fun a => readings t (f a) := List.filterMap_flatMap

theorem readings_onlyIf (condition : Bool) (ls : List Line) :
    readings t (onlyIf condition ls) = if condition then readings t ls else [] := by
  cases condition <;> rfl

theorem readings_of_plain {ls : List Line} (h : ∀ l ∈ ls, l.Plain t) : readings t ls = [] :=
  List.filterMap_eq_nil_iff.mpr h

theorem readings_map {α : Type} {f : α → Line} {entry : α → Entry} {as : List α}
    (h : ∀ a ∈ as, Entry.read t ((f a).body t) = some (entry a)) :
    readings t (as.map f) = as.map entry := by
  rw [readings, List.filterMap_map, ← List.filterMap_eq_map]
  exact List.filterMap_congr h

end

namespace Entry

theorem nameBetween?_append (before after : String) {name : String}
    (hname : Naming.isIdentifier name.toList = true)
    (hafter : after.toList.head?.any (!Naming.isIdentifierChar ·) = true) (more : List Char) :
    nameBetween? before after ((before ++ name ++ after).toList ++ more) = some name := by
  have hrest : (after.toList ++ more).head?.any (!Naming.isIdentifierChar ·) = true := by
    cases hlist : after.toList with
    | nil =>
      rw [hlist] at hafter
      cases hafter
    | cons c rest =>
      rw [hlist] at hafter
      exact hafter
  obtain ⟨htake, hdrop⟩ := span_name hname _ hrest
  have hmore : after.toList ++ more = (after ++ String.ofList more).toList := by
    rw [String.toList_append, String.toList_ofList]
  unfold nameBetween?
  rw [String.toList_append, String.toList_append, List.append_assoc, List.append_assoc,
    List.dropPrefix?_append_of_beq _ (beq_self_eq_true _), Option.bind_some, htake, hdrop, hmore,
    after?_append, Option.map_some, String.ofList_toList]

/-- A line that begins otherwise holds no name at that place. -/
theorem nameBetween?_of_not_prefix {before after : String} {content : List Char}
    (h : ¬before.toList <+: content) : nameBetween? before after content = none := by
  unfold nameBetween?
  rw [Option.bind_eq_none_iff]
  intro rest hrest
  obtain ⟨start, rfl, hstart⟩ := List.dropPrefix?_eq_some_iff.mp hrest
  rw [beq_iff_eq] at hstart
  subst hstart
  exact absurd (List.prefix_append _ rest) h

/-- A line begins with one of two words that differ and not with the other. -/
theorem nameBetween?_of_other (before : String) {after word : String} {content : List Char}
    (h : word.toList <+: content) (hbefore : ¬before.toList <+: word.toList)
    (hword : ¬word.toList <+: before.toList) : nameBetween? before after content = none :=
  nameBetween?_of_not_prefix fun hother =>
    (List.prefix_or_prefix_of_prefix hother h).elim hbefore hword

/-- A name that something else follows is not the one that is looked for. -/
theorem nameBetween?_of_not_after (before after : String) {name : String}
    (hname : Naming.isIdentifier name.toList = true) (rest : List Char)
    (hrest : rest.head?.any (!Naming.isIdentifierChar ·) = true) (h : ¬after.toList <+: rest) :
    nameBetween? before after ((before ++ name).toList ++ rest) = none := by
  obtain ⟨_, hdrop⟩ := span_name hname rest hrest
  unfold nameBetween?
  rw [String.toList_append, List.append_assoc,
    List.dropPrefix?_append_of_beq _ (beq_self_eq_true _), Option.bind_some, hdrop,
    after?_eq_none h, Option.map_none]

/-- A line that begins unlike a decorator begins a class or assigns a constant, if anything. -/
theorem read_python_of_head {content : List Char} (h : content.head? ≠ some '@') :
    read .python content = ((nameBetween? "class " "(BaseEvent):" content).map .marked).or
      ((nameBetween? "" ": Final = " content).map .constant) := by
  have hno : ∀ word : String, word.toList.head? = some '@' → content ≠ word.toList := by
    rintro word hword rfl
    exact h hword
  rw [read, if_neg (hno "@singleton" rfl), if_neg (hno "@dataclass(frozen=True)" rfl)]

/-- A line in Kotlin declares nothing if it begins like none of the words that declarations begin
with. -/
theorem read_kotlin_eq_none {content : List Char}
    (h : content.head?.all (fun c => c != 'o' && c != 'd' && c != 'c') = true) :
    read .kotlin content = none := by
  have hno : ∀ word : String, word.toList.head?.any (fun c => c == 'o' || c == 'd' || c == 'c') =
      true → ∀ after, nameBetween? word after content = none := by
    intro word hword after
    apply nameBetween?_of_not_prefix
    rintro ⟨rest, rfl⟩
    cases hlist : word.toList with
    | nil =>
      rw [hlist] at hword
      cases hword
    | cons c more =>
      rw [hlist] at hword h
      simp only [List.cons_append, List.head?_cons, Option.all_some, Option.any_some,
        Bool.and_eq_true, bne_iff_ne, Bool.or_eq_true, beq_iff_eq] at h hword
      rcases hword with (rfl | rfl) | rfl
      · exact h.1.1 rfl
      · exact h.1.2 rfl
      · exact h.2 rfl
  simp only [read, hno "object " rfl, hno "data class " rfl, hno "class " rfl,
    hno "const val " rfl, Option.map_none, Option.or_none]

section
variable {content : List Char}

theorem read_object (h : "object ".toList <+: content) : read .kotlin content =
    (nameBetween? "object " " : BaseEvent(" content).map (.type · true) := by
  simp only [read, nameBetween?_of_other "data class " h (by decide) (by decide),
    nameBetween?_of_other "class " h (by decide) (by decide),
    nameBetween?_of_other "const val " h (by decide) (by decide), Option.map_none, Option.or_none]

theorem read_dataClass (h : "data class ".toList <+: content) : read .kotlin content =
    (nameBetween? "data class " "(" content).map (.type · false) := by
  simp only [read, nameBetween?_of_other "object " h (by decide) (by decide),
    nameBetween?_of_other "class " h (by decide) (by decide),
    nameBetween?_of_other "const val " h (by decide) (by decide), Option.map_none, Option.or_none,
    Option.none_or]

theorem read_class (h : "class ".toList <+: content) : read .kotlin content =
    (nameBetween? "class " "(" content).map (.type · false) := by
  simp only [read, nameBetween?_of_other "object " h (by decide) (by decide),
    nameBetween?_of_other "data class " h (by decide) (by decide),
    nameBetween?_of_other "const val " h (by decide) (by decide), Option.map_none, Option.or_none,
    Option.none_or]

theorem read_constVal (h : "const val ".toList <+: content) : read .kotlin content =
    (nameBetween? "const val " " = " content).map .constant := by
  simp only [read, nameBetween?_of_other "object " h (by decide) (by decide),
    nameBetween?_of_other "data class " h (by decide) (by decide),
    nameBetween?_of_other "class " h (by decide) (by decide), Option.map_none, Option.none_or]

end

end Entry

theorem plain_blank (t : Target) : Line.blank.Plain t := by cases t <;> rfl

/-- No declaration begins with a literal. -/
theorem plain_literal (t : Target) {level : Nat} {raw : String} {rest : List Piece} :
    Line.Plain t ⟨level, .literal raw :: rest⟩ := by cases t <;> rfl

theorem readings_identity (t : Target) (level : Nat) (e : EventType) :
    readings t (identity level e) = [] := by
  apply readings_of_plain
  simp [identity, Line.argument, plain_literal]

/-! ## Python -/

theorem readings_description (comments : Bool) (description : String) :
    readings .python (onlyIf comments [.literal 2 description, .blank]) = [] := by
  apply readings_of_plain
  rw [forall_mem_onlyIf]
  intro _
  simp [Line.literal, plain_literal, plain_blank]

section
variable (name : String) (hname : Naming.isIdentifier name.toList = true) (rest : List Char)
include hname

theorem head?_name_ne : (name.toList ++ rest).head? ≠ some '@' := by
  intro h
  have hne := Naming.ne_nil_of_isIdentifier hname
  rw [List.head?_append_of_ne_nil _ hne, List.head?_eq_some_head hne] at h
  have hchar := Naming.isIdentifierChar_of_mem hname (List.head_mem hne)
  rw [Option.some.inj h] at hchar
  exact absurd hchar (by decide)

/-- A line that begins with a name and a colon after it assigns a constant, if anything. -/
theorem read_named : Entry.read .python (name.toList ++ ':' :: rest) =
    (Entry.nameBetween? "" ": Final = " (name.toList ++ ':' :: rest)).map .constant := by
  have hclass : Entry.nameBetween? "class " "(BaseEvent):" (name.toList ++ ':' :: rest) = none :=
    Entry.nameBetween?_of_not_prefix (not_prefix_name "class".toList (by decide) hname rest)
  rw [Entry.read_python_of_head (head?_name_ne name hname _), hclass]
  rfl

/-- A line that begins with a word and a space after it begins a class, if anything. -/
theorem read_spaced : Entry.read .python (name.toList ++ ' ' :: rest) =
    (Entry.nameBetween? "class " "(BaseEvent):" (name.toList ++ ' ' :: rest)).map .marked := by
  have hconstant :=
    Entry.nameBetween?_of_not_after "" ": Final = " hname (' ' :: rest) rfl (by simp)
  rw [String.empty_append] at hconstant
  rw [Entry.read_python_of_head (head?_name_ne name hname _), hconstant, Option.map_none,
    Option.or_none]

end

section
variable {m : CategoryModule} (hm : m.Proper) {e : EventType} (he : e ∈ m.eventTypes)
include hm he

/-- A class is read with what its decorator says. -/
theorem readings_head (decorator : String) {isSimple : Bool}
    (hdecorator : Entry.read .python decorator.toList = some (.mark isSimple)) :
    readings .python [.code 1 decorator,
      .code 1 ("class " ++ e.name ++ "(" ++ baseTypeName ++ "):")] =
        [.mark isSimple, .marked e.name] := by
  have hlist : ("class " ++ e.name ++ "(" ++ baseTypeName ++ "):").toList =
      ("class " ++ e.name ++ "(BaseEvent):").toList ++ [] := by
    rw [List.append_nil]
    simp only [String.append_assoc]
    rfl
  have hmark : (("class " ++ e.name ++ "(BaseEvent):").toList ++ []).head? ≠ some '@' := by
    simp [String.toList_append]
  have hname := Entry.nameBetween?_append "class " "(BaseEvent):" (hm.type e he) rfl []
  have hclass : Entry.read .python ("class " ++ e.name ++ "(" ++ baseTypeName ++ "):").toList =
      some (.marked e.name) := by
    rw [hlist, Entry.read_python_of_head hmark, hname]
    rfl
  simp only [readings, List.filterMap_cons, List.filterMap_nil, body_code, hdecorator, hclass]

theorem readings_pythonSingleton (comments : Bool) :
    readings .python (pythonSingleton comments e) = [.mark true, .marked e.name] := by
  have hhead := readings_head hm he "@singleton" rfl
  have hcall : readings .python
      [.code 2 "def __init__(self) -> None:", .code 3 "super().__init__("] = [] := rfl
  have hend : readings .python [.code 4 "\x7b\x7d,", .code 3 ")"] = [] := rfl
  simp only [pythonSingleton, readings_append, hhead, readings_description, hcall,
    readings_identity, hend, List.append_nil]

theorem readings_pythonRecord (comments : Bool) :
    readings .python (pythonRecord comments m e) = [.mark false, .marked e.name] := by
  have hhead := readings_head hm he "@dataclass(frozen=True)" rfl
  have hfields : readings .python (e.fields.map fun f =>
      .code 2 (f.name ++ ": str" ++ fieldRemark comments m f)) = [] := by
    apply readings_of_plain
    rw [List.forall_mem_map]
    intro f hf
    have hname := hm.field e he f hf
    have hlist : (f.name ++ ": str" ++ fieldRemark comments m f).toList =
        ("" ++ f.name).toList ++ ':' :: (" str" ++ fieldRemark comments m f).toList := by
      simp [String.toList_append]
    have hconstant := Entry.nameBetween?_of_not_after "" ": Final = " hname
      (':' :: (" str" ++ fieldRemark comments m f).toList) rfl (by simp)
    rw [Line.Plain, body_code, hlist]
    rw [String.empty_append] at hconstant ⊢
    rw [read_named _ hname, hconstant, Option.map_none]
  have hgap : readings .python (onlyIf (!e.fields.isEmpty) [.blank]) = [] := by
    cases e.fields <;> rfl
  have hcall : readings .python
      [.code 2 "def __post_init__(self) -> None:", .code 3 "super().__init__("] = [] := rfl
  have hopen : readings .python [.code 4 "\x7b"] = [] := rfl
  have hentries : readings .python (e.fields.map fun f =>
      ⟨5, [.literal f.key, .code (": self." ++ f.name ++ ",")]⟩) = [] :=
    readings_of_plain (List.forall_mem_map.mpr fun _ _ => plain_literal .python)
  have hend : readings .python [.code 4 "\x7d,", .code 3 ")"] = [] := rfl
  simp only [pythonRecord, readings_append, hhead, readings_description, hfields, hgap, hcall,
    readings_identity, hopen, hentries, hend, List.append_nil]

theorem readings_pythonEvent (comments : Bool) :
    readings .python (pythonEvent comments m e) = typeEntries e .python := by
  have hblank : ∀ ls : List Line, readings .python (.blank :: ls) = readings .python ls :=
    fun _ => rfl
  rw [pythonEvent, hblank, typeEntries]
  split
  · next hsimple => rw [readings_pythonSingleton hm he, hsimple]
  · next hrecord => rw [readings_pythonRecord hm he, Bool.not_eq_true _ |>.mp hrecord]

end

section
variable {m : CategoryModule} (hm : m.Proper)
include hm

theorem readings_pythonValues (comments : Bool) :
    readings .python (pythonValues comments m) = m.constants.map fun k => .constant k.name := by
  have hhead : readings .python [.blank, .code 1 ("class " ++ valuesName ++ ":")] = [] := rfl
  have hconstants : readings .python (m.constants.map fun k =>
      ⟨2, [.code (k.name ++ ": Final = "), .literal k.value]⟩) =
        m.constants.map fun k => .constant k.name := by
    refine readings_map fun k hk => ?_
    have hname := hm.constant k hk
    have hbody : Line.body .python ⟨2, [.code (k.name ++ ": Final = "), .literal k.value]⟩ =
        ("" ++ k.name ++ ": Final = ").toList ++ literalChars .python k.value.toList := by
      simp [Line.body, Piece.render]
    have hlist : ("" ++ k.name ++ ": Final = ").toList ++ literalChars .python k.value.toList =
        k.name.toList ++ ':' :: (" Final = ".toList ++ literalChars .python k.value.toList) := by
      simp [String.toList_append]
    have hconstant := Entry.nameBetween?_append "" ": Final = " hname rfl
      (literalChars .python k.value.toList)
    rw [hlist] at hbody hconstant
    rw [hbody, read_named _ hname, hconstant, Option.map_some]
  rw [pythonValues, readings_append, readings_append, hhead, readings_description, hconstants]
  rfl

theorem readings_pythonMembers (comments : Bool) :
    readings .python (pythonMembers comments m) = memberEntries .python m := by
  have hdescription : readings .python
      [.literal 1 ("Events of the " ++ m.categoryName ++ " category.")] = [] :=
    readings_of_plain (List.forall_mem_singleton.mpr (plain_literal .python))
  have hevents : readings .python (m.eventTypes.flatMap (pythonEvent comments m)) =
      m.eventTypes.flatMap (typeEntries · .python) := by
    rw [readings_flatMap]
    exact List.flatMap_congr fun e he => readings_pythonEvent hm he comments
  have hvalues : readings .python (onlyIf m.hasConstants (pythonValues comments m)) =
      m.constants.map fun k => .constant k.name := by
    rw [readings_onlyIf, readings_pythonValues hm, CategoryModule.hasConstants]
    cases m.constants <;> rfl
  rw [pythonMembers, readings_append, readings_append, hdescription, hevents, hvalues,
    List.nil_append, memberEntries]

end

/-! ## Kotlin -/

/-- A line in Kotlin is plain by what it begins with. -/
theorem plain_code {level : Nat} {s : String}
    (h : s.toList.head?.all (fun c => c != 'o' && c != 'd' && c != 'c') = true) :
    (Line.code level s).Plain .kotlin := by
  rw [Line.Plain, body_code]
  exact Entry.read_kotlin_eq_none h

section
variable {m : CategoryModule} (hm : m.Proper) {e : EventType} (he : e ∈ m.eventTypes)
include hm he

theorem readings_kotlinSingleton :
    readings .kotlin (kotlinSingleton e) = [.type e.name true] := by
  have hlist : ("object " ++ e.name ++ " : " ++ baseTypeName ++ "(").toList =
      ("object " ++ e.name ++ " : BaseEvent(").toList ++ [] := by
    rw [List.append_nil]
    simp only [String.append_assoc]
    rfl
  have hname := Entry.nameBetween?_append "object " " : BaseEvent(" (hm.type e he) rfl []
  have hobject : readings .kotlin
      [.code 1 ("object " ++ e.name ++ " : " ++ baseTypeName ++ "(")] = [.type e.name true] := by
    rw [readings, List.filterMap_cons, body_code, hlist,
      Entry.read_object (by simp [String.toList_append]), hname]
    rfl
  have hend : readings .kotlin [.code 2 "emptyMap(),", .code 1 ")"] = [] := rfl
  simp only [kotlinSingleton, readings_append, hobject, readings_identity, hend, List.append_nil]

/-- A class is a record with and without the word that makes it a data class. -/
theorem read_kotlinClass (isBare : Bool) : Entry.read .kotlin
    ((if isBare then "" else "data ") ++ "class " ++ e.name ++ "(").toList =
      some (.type e.name false) := by
  have hname := hm.type e he
  cases isBare with
  | true =>
    have hlist : ("" ++ "class " ++ e.name ++ "(").toList =
        ("class " ++ e.name ++ "(").toList ++ [] := (List.append_nil _).symm
    rw [if_pos rfl, hlist, Entry.read_class (by simp [String.toList_append]),
      Entry.nameBetween?_append "class " "(" hname rfl, Option.map_some]
  | false =>
    have hlist : ("data " ++ "class " ++ e.name ++ "(").toList =
        ("data class " ++ e.name ++ "(").toList ++ [] := (List.append_nil _).symm
    rw [if_neg Bool.false_ne_true, hlist, Entry.read_dataClass (by simp [String.toList_append]),
      Entry.nameBetween?_append "data class " "(" hname rfl, Option.map_some]

theorem readings_kotlinRecord :
    readings .kotlin (kotlinRecord e) = [.type e.name false] := by
  have hclass : readings .kotlin [.code 1
      ((if e.fields.isEmpty then "" else "data ") ++ "class " ++ e.name ++ "(")] =
        [.type e.name false] := by
    rw [readings, List.filterMap_cons, body_code, read_kotlinClass hm he]
    rfl
  have hfields : readings .kotlin (e.fields.map fun f =>
      .code 2 ("val " ++ f.name ++ ": String,")) = [] :=
    readings_of_plain (List.forall_mem_map.mpr fun _ _ =>
      plain_code (by simp [String.toList_append]))
  have hextends : readings .kotlin [.code 1 (") : " ++ baseTypeName ++ "(")] = [] := rfl
  have hopen : readings .kotlin [.code 2 "mapOf("] = [] := rfl
  have hentries : readings .kotlin (e.fields.map fun f =>
      ⟨3, [.literal f.key, .code (" to " ++ f.name ++ ",")]⟩) = [] :=
    readings_of_plain (List.forall_mem_map.mpr fun _ _ => plain_literal .kotlin)
  have hend : readings .kotlin [.code 2 "),", .code 1 ")"] = [] := rfl
  simp only [kotlinRecord, readings_append, hclass, hfields, hextends, readings_identity, hopen,
    hentries, hend, List.append_nil]

theorem readings_kotlinEvent (comments : Bool) :
    readings .kotlin (kotlinEvent comments e) = typeEntries e .kotlin := by
  have habout : readings .kotlin
      (.blank :: onlyIf comments [.around 1 "// Event " e.eventName ""]) = [] := by
    cases comments <;> rfl
  rw [kotlinEvent, readings_append, habout, List.nil_append, typeEntries]
  split
  · next hsimple => rw [readings_kotlinSingleton hm he, hsimple]
  · next hrecord => rw [readings_kotlinRecord hm he, Bool.not_eq_true _ |>.mp hrecord]

end

section
variable {m : CategoryModule} (hm : m.Proper)
include hm

theorem readings_kotlinValues :
    readings .kotlin (kotlinValues m) = m.constants.map fun k => .constant k.name := by
  have hhead : readings .kotlin [.blank, .code 1 ("object " ++ valuesName ++ " \x7b")] = [] := rfl
  have hconstants : readings .kotlin (m.constants.map fun k =>
      ⟨2, [.code ("const val " ++ k.name ++ " = "), .literal k.value]⟩) =
        m.constants.map fun k => .constant k.name := by
    refine readings_map fun k hk => ?_
    have hname := Entry.nameBetween?_append "const val " " = "
      (hm.constant k hk) rfl (literalChars .kotlin k.value.toList)
    have hbody : Line.body .kotlin ⟨2, [.code ("const val " ++ k.name ++ " = "),
        .literal k.value]⟩ =
          ("const val " ++ k.name ++ " = ").toList ++ literalChars .kotlin k.value.toList := by
      simp [Line.body, Piece.render]
    rw [hbody, Entry.read_constVal (by simp [String.toList_append]), hname, Option.map_some]
  have hend : readings .kotlin [.code 1 "\x7d"] = [] := rfl
  rw [kotlinValues, readings_append, readings_append, hhead, hconstants, hend, List.append_nil,
    List.nil_append]

theorem readings_kotlinMembers (comments : Bool) :
    readings .kotlin (kotlinMembers comments m) = memberEntries .kotlin m := by
  have hevents : readings .kotlin (m.eventTypes.flatMap (kotlinEvent comments)) =
      m.eventTypes.flatMap (typeEntries · .kotlin) := by
    rw [readings_flatMap]
    exact List.flatMap_congr fun e he => readings_kotlinEvent hm he comments
  have hvalues : readings .kotlin (onlyIf m.hasConstants (kotlinValues m)) =
      m.constants.map fun k => .constant k.name := by
    rw [readings_onlyIf, readings_kotlinValues hm, CategoryModule.hasConstants]
    cases m.constants <;> rfl
  rw [kotlinMembers, readings_append, hevents, hvalues, memberEntries]

end

/-! ## The parts of a category file -/

/-- The line that begins the container of a category. -/
def containerLine (m : CategoryModule) : Target → String
  | .python => "class " ++ m.containerName ++ ":"
  | .kotlin => "object " ++ m.containerName ++ " \x7b"

/-- What stands above that line. -/
def aboveContainer (comments : Bool) (package : String) (m : CategoryModule) : Target → List Line
  | .python => pythonHead package m ++ [.blank, .blank]
  | .kotlin => kotlinTop comments package m

/-- What stands below that line. -/
def belowContainer (comments : Bool) (m : CategoryModule) : Target → List Line
  | .python => pythonMembers comments m
  | .kotlin => kotlinMembers comments m ++ [.code 0 "\x7d"]

theorem categoryLines_split (t : Target) (comments : Bool) (package : String) (m : CategoryModule) :
    categoryLines t comments package m = aboveContainer comments package m t ++
      .code 0 (containerLine m t) :: belowContainer comments m t := by
  cases t with
  | python => exact pythonCategory_split comments package m
  | kotlin => exact kotlinCategory_split comments package m

theorem aboveContainer_ne_nil (t : Target) (comments : Bool) (package : String)
    (m : CategoryModule) : aboveContainer comments package m t ≠ [] := by
  cases t <;> simp [aboveContainer, pythonHead, kotlinTop, kotlinHead]

theorem readings_pythonHead (package : String) (m : CategoryModule) :
    readings .python (pythonHead package m) = [] := by
  have htop : readings .python [.literal 0 ("Analytics events of the " ++ m.categoryName ++
      " category."), .code 0 ("# " ++ notice), .blank] = [] := rfl
  have hdataclass : readings .python [.code 0 "from dataclasses import dataclass"] = [] := rfl
  have hfinal : readings .python [.code 0 "from typing import Final"] = [] := rfl
  have himport : readings .python [.blank, .code 0 ("from " ++
      Naming.below package baseTypeName ++ " import " ++ baseTypeName ++
        if m.hasSingletons then ", singleton" else "")] = [] := by
    have hread := read_spaced "from" (by decide) (Naming.below package baseTypeName ++
      (" import " ++ (baseTypeName ++ if m.hasSingletons then ", singleton" else ""))).toList
    rw [Entry.nameBetween?_of_not_prefix (by simp)] at hread
    apply readings_of_plain
    simp only [List.forall_mem_cons, Line.Plain, body_code, String.append_assoc]
    rw [String.toList_append]
    exact ⟨rfl, hread, List.forall_mem_nil _⟩
  simp only [pythonHead, readings_append, readings_onlyIf, htop, hdataclass, hfinal, himport,
    ite_self, List.append_nil]

theorem readings_kotlinTop (comments : Bool) (package : String) (m : CategoryModule) :
    readings .kotlin (kotlinTop comments package m) = [] := by
  apply readings_of_plain
  simp only [kotlinTop, kotlinHead, List.forall_mem_append, forall_mem_onlyIf, List.forall_mem_cons]
  have hpath : (Line.code 0 ("package " ++ m.path)).Plain .kotlin :=
    plain_code (by simp [String.toList_append])
  have himport : (Line.code 0 ("import " ++ package ++ "." ++ baseTypeName)).Plain .kotlin :=
    plain_code (by simp [String.toList_append])
  have hnone := List.forall_mem_nil (Line.Plain .kotlin)
  exact ⟨⟨⟨⟨⟨rfl, hnone⟩, fun _ => ⟨hpath, hnone⟩⟩, plain_blank _, hnone⟩,
    fun _ => ⟨himport, plain_blank _, hnone⟩⟩, fun _ => ⟨rfl, hnone⟩⟩

/-- Whatever the package is, above the container it stands in lines that begin otherwise than
declarations. -/
theorem readings_aboveContainer (t : Target) (comments : Bool) (package : String)
    (m : CategoryModule) : readings t (aboveContainer comments package m t) = [] := by
  cases t with
  | python =>
    rw [aboveContainer, readings_append, readings_pythonHead]
    rfl
  | kotlin => exact readings_kotlinTop comments package m

section
variable {m : CategoryModule} (hm : m.Proper)
include hm

theorem readings_belowContainer (t : Target) (comments : Bool) :
    readings t (belowContainer comments m t) = memberEntries t m := by
  cases t with
  | python => exact readings_pythonMembers hm comments
  | kotlin =>
    have hend : readings .kotlin [.code 0 "\x7d"] = [] := rfl
    rw [belowContainer, readings_append, readings_kotlinMembers hm, hend, List.append_nil]

theorem allSound_belowContainer (t : Target) (comments : Bool) :
    AllSound t (belowContainer comments m t) := by
  cases t with
  | python => exact allSound_pythonMembers hm comments
  | kotlin =>
    refine .append (.append ?_ ?_) (.cons (sound_fixed _ 0 (by decide)) .nil)
    · exact .flatMap fun e he => allSound_kotlinEvent hm he comments
    · exact .onlyIf (allSound_kotlinValues hm) _

/-- The container is not read as the type of an event. -/
theorem plain_containerLine (t : Target) : (Line.code 0 (containerLine m t)).Plain t := by
  rw [Line.Plain, body_code]
  cases t with
  | python =>
    rw [containerLine, String.toList_append]
    have hclass := Entry.nameBetween?_of_not_after "class " "(BaseEvent):"
      hm.container ":".toList rfl (by decide)
    have hread := read_spaced "class" (by decide) (m.containerName.toList ++ ":".toList)
    have hlist : ("class " ++ m.containerName).toList ++ ":".toList =
        "class".toList ++ ' ' :: (m.containerName.toList ++ ":".toList) := by
      simp [String.toList_append]
    rw [← hlist, hclass] at hread
    exact hread
  | kotlin =>
    rw [containerLine, String.toList_append]
    have hobject := Entry.nameBetween?_of_not_after "object " " : BaseEvent("
      hm.container " \x7b".toList rfl (by decide)
    rw [Entry.read_object (by simp [String.toList_append]), hobject, Option.map_none]

theorem sound_containerLine (t : Target) : (Line.code 0 (containerLine m t)).Sound t := by
  cases t with
  | python => exact sound_named _ 0 hm.container (by decide) (by decide)
  | kotlin => exact sound_named _ 0 hm.container (by decide) (by decide)

end

theorem opens_containerLine (m : CategoryModule) (t : Target) :
    Opens (containerLine m t).toList := by
  cases t with
  | python =>
    rw [containerLine, String.toList_append, String.toList_append, List.append_assoc]
    exact Opens.append (by decide) _
  | kotlin =>
    rw [containerLine, String.toList_append, String.toList_append, List.append_assoc]
    exact Opens.append (by decide) _

/-! ## Packages without line feeds -/

theorem neat_code (t : Target) (level : Nat) {s : String} (hline : '\n' ∉ s.toList)
    (hopen : Opens s.toList) (hclose : Closes s.toList) : (Line.code level s).Neat t where
  oneLine := by rwa [body_code]
  tight := Or.inr (by rw [body_code]; exact ⟨hopen, hclose⟩)

section
variable {package : String} (hpackage : '\n' ∉ package.toList)
include hpackage

theorem not_mem_below {part : String} (hpart : '\n' ∉ part.toList) :
    '\n' ∉ (Naming.below package part).toList := by
  unfold Naming.below
  split
  · exact hpart
  · simp [String.toList_append, hpackage, hpart]

theorem allNeat_pythonHead (m : CategoryModule) : AllNeat .python (pythonHead package m) := by
  have hbase : '\n' ∉ baseTypeName.toList := by decide
  have hbelow := not_mem_below hpackage hbase
  have hnames : '\n' ∉ (if m.hasSingletons then ", singleton" else "").toList ∧
      Closes (baseTypeName ++ if m.hasSingletons then ", singleton" else "").toList := by
    split
    · decide
    · decide
  have himport : (Line.code 0 ("from " ++ Naming.below package baseTypeName ++ " import " ++
      baseTypeName ++ if m.hasSingletons then ", singleton" else "")).Neat .python := by
    simp only [String.append_assoc]
    apply neat_code
    · simp [String.toList_append, hbelow, hbase, hnames.1]
    · rw [String.toList_append]
      exact Opens.append (by decide) _
    · rw [String.toList_append, String.toList_append, String.toList_append]
      exact ((hnames.2.append _).append _).append _
  have hnone := List.forall_mem_nil (Line.Neat .python)
  simp only [AllNeat, pythonHead, List.forall_mem_append, List.forall_mem_cons, forall_mem_onlyIf]
  exact ⟨⟨⟨⟨(Line.sound_literal _ 0 _).neat, (sound_fixed _ 0 (by decide)).neat,
    (Line.sound_blank _).neat, hnone⟩, fun _ => ⟨(sound_fixed _ 0 (by decide)).neat, hnone⟩⟩,
    fun _ => ⟨(sound_fixed _ 0 (by decide)).neat, hnone⟩⟩,
    (Line.sound_blank _).neat, himport, hnone⟩

theorem allNeat_kotlinTop (comments : Bool) {m : CategoryModule} {segment : String}
    (hsegment : Naming.isIdentifier segment.toList = true)
    (hpath : m.path = Naming.below package segment) :
    AllNeat .kotlin (kotlinTop comments package m) := by
  have hfeed : '\n' ∉ segment.toList := fun h => (isCode_of_isIdentifier hsegment _ h).2 rfl
  have hbelow := not_mem_below hpackage hfeed
  have hpackages : (Line.code 0 ("package " ++ m.path)).Neat .kotlin := by
    rw [hpath]
    apply neat_code
    · simp [String.toList_append, hbelow]
    · rw [String.toList_append]
      exact Opens.append (by decide) _
    · rw [String.toList_append]
      exact (closes_below package hsegment).append _
  have himport : (Line.code 0 ("import " ++ package ++ "." ++ baseTypeName)).Neat .kotlin := by
    apply neat_code
    · simp [String.toList_append, hpackage, baseTypeName]
    · simp only [String.toList_append, List.append_assoc]
      exact Opens.append (by decide) _
    · rw [String.toList_append]
      exact Closes.append (by decide) _
  have hremark : (Line.around 0 "// Events of the " m.categoryName " category.").Neat .kotlin :=
    (Line.sound_around _ 0 _ (by decide) (by decide) (by decide) (Or.inr (by decide))).neat
  have hnone := List.forall_mem_nil (Line.Neat .kotlin)
  simp only [AllNeat, kotlinTop, kotlinHead, List.forall_mem_append, List.forall_mem_cons,
    forall_mem_onlyIf]
  exact ⟨⟨⟨⟨⟨(sound_fixed _ 0 (by decide)).neat, hnone⟩, fun _ => ⟨hpackages, hnone⟩⟩,
    (Line.sound_blank _).neat, hnone⟩, fun _ => ⟨himport, (Line.sound_blank _).neat, hnone⟩⟩,
    fun _ => ⟨hremark, hnone⟩⟩

theorem allNeat_aboveContainer (t : Target) (comments : Bool) {m : CategoryModule}
    {segment : String} (hsegment : Naming.isIdentifier segment.toList = true)
    (hpath : m.path = Naming.below package segment) :
    AllNeat t (aboveContainer comments package m t) := by
  cases t with
  | python =>
    have hblank : Line.blank.Neat .python := (Line.sound_blank _).neat
    exact List.forall_mem_append.mpr ⟨allNeat_pythonHead hpackage m,
      List.forall_mem_cons.mpr ⟨hblank, List.forall_mem_singleton.mpr hblank⟩⟩
  | kotlin => exact allNeat_kotlinTop hpackage comments hsegment hpath

end

/-! ## Whole files -/

section
variable {m : CategoryModule} {path : String} (hm : ({ m with path } : CategoryModule).Proper)
include hm

/-- Whatever the package and the path are, a category file declares the members of the container. -/
theorem readings_categoryLines (t : Target) (comments : Bool) (package : String) :
    readings t (categoryLines t comments package m) = memberEntries t m := by
  have hcontainer : ∀ ls, readings t (.code 0 (containerLine m t) :: ls) = readings t ls :=
    fun _ => List.filterMap_cons_none (plain_containerLine hm t)
  rw [categoryLines_split, readings_append, readings_aboveContainer, hcontainer]
  exact readings_belowContainer hm t comments

theorem allNeat_categoryLines (t : Target) (comments : Bool) {package segment : String}
    (hpackage : '\n' ∉ package.toList) (hsegment : Naming.isIdentifier segment.toList = true)
    (hpath : m.path = Naming.below package segment) :
    AllNeat t (categoryLines t comments package m) := by
  have habove := allNeat_aboveContainer hpackage t comments hsegment hpath
  have hbelow := (allSound_belowContainer hm t comments).neat
  rw [categoryLines_split]
  exact List.forall_mem_append.mpr
    ⟨habove, List.forall_mem_cons.mpr ⟨(sound_containerLine hm t).neat, hbelow⟩⟩

end

end EventCodegen.Source
