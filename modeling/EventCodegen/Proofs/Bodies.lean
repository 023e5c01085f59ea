import EventCodegen.Proofs.ImportLines
import EventCodegen.Proofs.NormalLayout
import EventCodegen.Proofs.ShownLines

/-! The blocks of a category file in Python. A line that ends in a colon opens a block, and a line
one level deeper follows it (`Blocks`). This holds in each part of a file, whether or not there are
comments, events, fields and constants (`blocks_pythonCategory`), and it is what a reader of the
laid-out file finds, blank lines aside and with steps of any width (`bodied_of_blocks`). -/
namespace EventCodegen

namespace Layout

/-- Wherever a line ends in a colon, there is a line after it that is not blank, and the next one
has `w` more spaces before it. -/
def Bodied (w : Nat) (lines : List (List Char)) : Prop :=
  ∀ before l after, lines = before ++ l :: after → l.getLast? = some ':' →
    ∃ k, after.find? (!isBlankLine ·) = some k ∧ margin k = margin l + w

theorem bodied_nil (w : Nat) : Bodied w [] := fun before l after h => by simp at h

theorem bodied_cons {w : Nat} {l : List Char} {rest : List (List Char)} :
    Bodied w (l :: rest) ↔ (l.getLast? = some ':' →
      ∃ k, rest.find? (!isBlankLine ·) = some k ∧ margin k = margin l + w) ∧ Bodied w rest := by
  constructor
  · intro h
    exact ⟨h [] l rest rfl, fun before k after heq => h (l :: before) k after (by rw [heq]; rfl)⟩
  · rintro ⟨hl, hrest⟩ before k after heq hcolon
    cases before with
    | nil =>
      obtain ⟨rfl, rfl⟩ := List.cons.inj heq
      exact hl hcolon
    | cons j before =>
      exact hrest before k after (List.cons.inj heq).2 hcolon

/-- Blank lines make no difference. -/
theorem bodied_filter {w : Nat} {lines : List (List Char)}
    (hblank : ∀ l ∈ lines, isBlankLine l = l.isEmpty) :
    Bodied w (lines.filter (!·.isEmpty)) → Bodied w lines := by
  induction lines with
  | nil => exact id
  | cons l rest ih =>
    obtain ⟨hl, hrest⟩ := List.forall_mem_cons.mp hblank
    intro h
    cases l with
    | nil => exact bodied_cons.mpr ⟨fun hcolon => (by cases hcolon), ih hrest h⟩
    | cons c cs =>
      have hsplit : ((c :: cs) :: rest).filter (!·.isEmpty) =
          (c :: cs) :: rest.filter (!·.isEmpty) := rfl
      have hfind : (rest.filter (!·.isEmpty)).find? (!isBlankLine ·) =
          rest.find? (!isBlankLine ·) := by
        rw [← List.head?_filter, ← List.head?_filter, List.filter_filter]
        refine congrArg List.head? (List.filter_congr fun k hk => ?_)
        rw [hrest k hk, Bool.and_self]
      rw [hsplit, bodied_cons, hfind] at h
      exact bodied_cons.mpr ⟨h.1, ih hrest h.2⟩

end Layout

namespace Source

/-- A line that a block should follow. -/
def Line.Leads (l : Line) : Prop := (l.body .python).getLast? = some ':'

instance : DecidablePred Line.Leads := fun _ => inferInstanceAs (Decidable (_ = _))

/-- Lines in which every line that leads a block has a deeper one right after it. -/
inductive Blocks : List Line → Prop
  | nil : Blocks []
  | plain {l : Line} {rest : List Line} : ¬l.Leads → Blocks rest → Blocks (l :: rest)
  | block {l k : Line} {rest : List Line} : k.level = l.level + 1 → k.pieces ≠ [] →
      Blocks (k :: rest) → Blocks (l :: k :: rest)

theorem Blocks.append {ks ls : List Line} (hk : Blocks ks) (hl : Blocks ls) :
    Blocks (ks ++ ls) := by
  induction hk with
  | nil => exact hl
  | plain hplain _ ih => exact .plain hplain ih
  | block hlevel hpieces _ ih => exact .block hlevel hpieces ih

theorem Blocks.of_plain {ls : List Line} (h : ∀ l ∈ ls, ¬l.Leads) : Blocks ls := by
  induction ls with
  | nil => exact .nil
  | cons l rest ih =>
    obtain ⟨hl, hrest⟩ := List.forall_mem_cons.mp h
    exact .plain hl (ih hrest)

theorem Blocks.onlyIf {ls : List Line} (h : Blocks ls) (condition : Bool) :
    Blocks (onlyIf condition ls) := by
  cases condition with
  | false => exact .nil
  | true => exact h

theorem Blocks.flatMap {α : Type} {as : List α} {f : α → List Line} (h : ∀ a ∈ as, Blocks (f a)) :
    Blocks (as.flatMap f) := by
  induction as with
  | nil => exact .nil
  | cons a rest ih =>
    obtain ⟨ha, hrest⟩ := List.forall_mem_cons.mp h
    exact ha.append (ih hrest)

/-! ## Lines that lead no block -/

theorem not_leads_blank : ¬Line.blank.Leads := by decide

/-- The end of a line tells whether it leads a block. -/
theorem not_leads_of_end {l : Line} {front back : List Char}
    (hbody : l.body .python = front ++ back)
    (hback : back.getLast?.any (· != ':') = true) : ¬l.Leads := by
  intro hleads
  have hne : back ≠ [] := by
    rintro rfl
    cases hback
  rw [Line.Leads, hbody, List.getLast?_append_of_ne_nil _ hne] at hleads
  rw [hleads] at hback
  exact absurd hback (by decide)

theorem not_leads_code (level : Nat) (front : String) {back : String}
    (hback : back.toList.getLast?.any (· != ':') = true) :
    ¬(Line.code level (front ++ back)).Leads := by
  have hbody : (Line.code level (front ++ back)).body .python = front.toList ++ back.toList := by
    rw [← String.toList_append]
    exact List.append_nil _
  exact not_leads_of_end hbody hback

theorem not_leads_name {name : String} (h : Naming.isIdentifier name.toList = true) :
    name.toList.getLast?.any (· != ':') = true := by
  have hne := Naming.ne_nil_of_isIdentifier h
  have hchar := Naming.isIdentifierChar_of_mem h (List.getLast_mem hne)
  rw [List.getLast?_eq_some_getLast hne, Option.any_some, bne_iff_ne]
  intro hcolon
  rw [hcolon] at hchar
  exact absurd hchar (by decide)

/-- A literal ends in a quote. -/
theorem not_leads_literal (level : Nat) (ps : List Piece) (raw : String) :
    ¬Line.Leads ⟨level, ps ++ [.literal raw]⟩ := by
  have hbody : Line.body .python ⟨level, ps ++ [.literal raw]⟩ =
      (ps.flatMap (Piece.render .python) ++ Text.doubleQuote ::
        raw.toList.flatMap (literalChar .python)) ++ [Text.doubleQuote] := by
    simp [Line.body, Piece.render, literalChars]
  exact not_leads_of_end hbody (by decide)

/-- A line whose code after a literal ends in something else than a colon. -/
theorem not_leads_literal_code (level : Nat) (raw front : String) {back : String}
    (hback : back.toList.getLast?.any (· != ':') = true) :
    ¬Line.Leads ⟨level, [.literal raw, .code (front ++ back)]⟩ := by
  have hbody : Line.body .python ⟨level, [.literal raw, .code (front ++ back)]⟩ =
      (literalChars .python raw.toList ++ front.toList) ++ back.toList := by
    simp [Line.body, Piece.render]
  exact not_leads_of_end hbody hback

/-! ## The parts of a category file -/

theorem blocks_identity (level : Nat) (e : EventType) : Blocks (identity level e) := by
  have hcomma : ",".toList.getLast?.any (· != ':') = true := by decide
  have hargument : ∀ raw, ¬(Line.argument level raw).Leads :=
    fun raw => not_leads_literal_code level raw "" hcomma
  exact .plain (hargument _) (.plain (hargument _) (.plain (hargument _) .nil))

/-- Lines with which the body of a class at the second level may begin. -/
def Begins (ls : List Line) : Prop := ∃ k rest, ls = k :: rest ∧ k.level = 2 ∧ k.pieces ≠ []

theorem begins_code (s : String) (rest : List Line) : Begins (.code 2 s :: rest) :=
  ⟨_, rest, rfl, rfl, List.cons_ne_nil _ _⟩

/-- What a class says about itself, if anything, is a part of its body. -/
theorem Blocks.described {l : Line} {ls : List Line} (comments : Bool) (raw : String)
    (hl : l.level = 1) (h : Blocks ls) (hbegins : Begins ls) :
    Blocks (l :: (Source.onlyIf comments [.literal 2 raw, .blank] ++ ls)) := by
  obtain ⟨k, rest, rfl, hk, hpieces⟩ := hbegins
  have hlevel : k.level = l.level + 1 := by rw [hk, hl]
  cases comments with
  | false => exact .block hlevel hpieces h
  | true =>
    have hdescription : (Line.literal 2 raw).level = l.level + 1 := by
      rw [hl]
      rfl
    exact .block hdescription (List.cons_ne_nil _ _)
      (.plain (not_leads_literal 2 [] raw) (.plain not_leads_blank h))

/-- The call in the body of a method. -/
theorem blocks_call (head : String) {ls : List Line} (h : Blocks ls) :
    Blocks (.code 2 head :: .code 3 "super().__init__(" :: ls) :=
  .block rfl (List.cons_ne_nil _ _) (.plain (by decide) h)

theorem blocks_pythonSingleton (comments : Bool) (e : EventType) :
    Blocks (pythonSingleton comments e) := by
  have hend : Blocks [.code 4 "\x7b\x7d,", .code 3 ")"] :=
    .plain (by decide) (.plain (by decide) .nil)
  have hcall := blocks_call "def __init__(self) -> None:" ((blocks_identity 4 e).append hend)
  have hclass := hcall.described (l := .code 1 ("class " ++ e.name ++ "(" ++ baseTypeName ++ "):"))
    comments ("Event " ++ e.eventName ++ " without custom parameters.") rfl (begins_code _ _)
  have hall : Blocks (.code 1 "@singleton" :: _) := .plain (by decide) hclass
  simpa [pythonSingleton] using hall

section
variable {m : CategoryModule} (hm : m.Proper)
include hm

/-- The line of a field ends in its type or in the name of a constant. -/
theorem not_leads_field (comments : Bool) (f : Field) :
    ¬(Line.code 2 (f.name ++ ": str" ++ fieldRemark comments m f)).Leads := by
  have hbare : ¬(Line.code 2 (f.name ++ ": str" ++ "")).Leads := by
    rw [String.append_empty]
    exact not_leads_code 2 f.name (by decide)
  unfold fieldRemark
  split
  · split
    · next constant hconstant =>
      have hname := not_leads_name (hm.constantFor? hconstant)
      rw [← String.append_assoc]
      exact not_leads_code 2 _ hname
    · exact hbare
  · exact hbare

theorem blocks_pythonRecord (comments : Bool) (e : EventType) :
    Blocks (pythonRecord comments m e) := by
  have hfields : Blocks (e.fields.map fun f =>
      .code 2 (f.name ++ ": str" ++ fieldRemark comments m f)) :=
    .of_plain (List.forall_mem_map.mpr fun f _ => not_leads_field hm comments f)
  have hgap : Blocks (onlyIf (!e.fields.isEmpty) [.blank]) :=
    .onlyIf (.plain not_leads_blank .nil) _
  have hopen : Blocks [.code 4 "\x7b"] := .plain (by decide) .nil
  have hentries : Blocks (e.fields.map fun f =>
      ⟨5, [.literal f.key, .code (": self." ++ f.name ++ ",")]⟩) :=
    .of_plain (List.forall_mem_map.mpr fun f _ => not_leads_literal_code 5 f.key _ (by decide))
  have hend : Blocks [.code 4 "\x7d,", .code 3 ")"] := .plain (by decide) (.plain (by decide) .nil)
  have hcall := blocks_call "def __post_init__(self) -> None:"
    ((((blocks_identity 4 e).append hopen).append hentries).append hend)
  have hbody := (hfields.append hgap).append hcall
  -- without fields the body begins with the method
  have hbegins : Begins ((e.fields.map fun f =>
      .code 2 (f.name ++ ": str" ++ fieldRemark comments m f)) ++
      onlyIf (!e.fields.isEmpty) [.blank] ++
      .code 2 "def __post_init__(self) -> None:" :: .code 3 "super().__init__(" ::
        (identity 4 e ++ [.code 4 "\x7b"] ++ (e.fields.map fun f =>
          ⟨5, [.literal f.key, .code (": self." ++ f.name ++ ",")]⟩) ++
          [.code 4 "\x7d,", .code 3 ")"])) := by
    cases e.fields with
    | nil => exact begins_code _ _
    | cons f rest => exact begins_code _ _
  have hclass := hbody.described (l := .code 1 ("class " ++ e.name ++ "(" ++ baseTypeName ++ "):"))
    comments ("Event " ++ e.eventName ++ ".") rfl hbegins
  have hall : Blocks (.code 1 "@dataclass(frozen=True)" :: _) := .plain (by decide) hclass
  simpa [pythonRecord] using hall

theorem blocks_pythonEvent (comments : Bool) (e : EventType) :
    Blocks (pythonEvent comments m e) := by
  refine .plain not_leads_blank ?_
  split
  · exact blocks_pythonSingleton comments e
  · exact blocks_pythonRecord hm comments e

omit hm in
/-- A container of values is only written if there are some. -/
theorem blocks_pythonValues (comments : Bool) :
    Blocks (onlyIf m.hasConstants (pythonValues comments m)) := by
  have hconstants : Blocks (m.constants.map fun c =>
      ⟨2, [.code (c.name ++ ": Final = "), .literal c.value]⟩) :=
    .of_plain (List.forall_mem_map.mpr fun c _ => not_leads_literal 2 [.code _] c.value)
  cases hlist : m.constants with
  | nil =>
    have hnone : m.hasConstants = false := by rw [CategoryModule.hasConstants, hlist]; rfl
    rw [hnone]
    exact .nil
  | cons c rest =>
    have hbegins : Begins (m.constants.map fun c =>
        ⟨2, [.code (c.name ++ ": Final = "), .literal c.value]⟩) := by
      rw [hlist]
      exact ⟨_, _, rfl, rfl, List.cons_ne_nil _ _⟩
    have hclass := hconstants.described (l := .code 1 ("class " ++ valuesName ++ ":")) comments
      "Predefined parameter values." rfl hbegins
    refine .onlyIf ?_ _
    have hall : Blocks (.blank :: _) := .plain not_leads_blank hclass
    simpa [pythonValues] using hall

/-- In the file of a category every line that leads a block has a deeper one right after it. -/
theorem blocks_pythonCategory (comments : Bool) (package : String) :
    Blocks (pythonCategory comments package m) := by
  have himport : ¬(Line.code 0 ("from " ++ Naming.below package baseTypeName ++ " import " ++
      baseTypeName ++ if m.hasSingletons then ", singleton" else "")).Leads := by
    split
    · exact not_leads_code 0 _ (by decide)
    · rw [String.append_empty]
      exact not_leads_code 0 _ (by decide)
  have hhead : Blocks (pythonHead package m) := by
    refine .append (.append (.append (.plain (not_leads_literal 0 [] _) ?_) ?_) ?_) ?_
    · exact .plain (by decide) (.plain not_leads_blank .nil)
    · exact .onlyIf (.plain (by decide) .nil) _
    · exact .onlyIf (.plain (by decide) .nil) _
    · exact .plain not_leads_blank (.plain himport .nil)
  have hcontainer : Blocks [.blank, .blank, .code 0 ("class " ++ m.containerName ++ ":"),
      .literal 1 ("Events of the " ++ m.categoryName ++ " category.")] :=
    .plain not_leads_blank (.plain not_leads_blank (.block rfl (List.cons_ne_nil _ _)
      (.plain (not_leads_literal 1 [] _) .nil)))
  have hevents : Blocks (m.eventTypes.flatMap (pythonEvent comments m)) :=
    .flatMap fun e _ => blocks_pythonEvent hm comments e
  rw [pythonCategory_eq]
  exact hhead.append ((hcontainer.append hevents).append (blocks_pythonValues comments))

end

/-! ## Laid-out blocks -/

theorem reindent_render {t : Target} {l : Line} (h : l.Sound t) (n : Int) :
    Layout.reindent n (l.render t) =
      List.replicate (Layout.scaled n (step * l.level)) ' ' ++ l.body t := by
  have hcontent := content_reindent_render h.neat n
  rw [Layout.content_reindent] at hcontent
  rw [Layout.reindent_eq, h.margin_render, hcontent]

theorem isBlankLine_of_closes {s : List Char} (h : Closes s) : Layout.isBlankLine s = false := by
  rw [Layout.isBlankLine, h.trimRight_eq, List.isEmpty_eq_false_iff]
  exact h.ne_nil

theorem isBlankLine_reindent {t : Target} {l : Line} (h : l.Sound t) (hpieces : l.pieces ≠ [])
    (n : Int) : Layout.isBlankLine (Layout.reindent n (l.render t)) = false := by
  rw [reindent_render h]
  rcases h.tight with rfl | ⟨_, hclose⟩
  · exact absurd rfl hpieces
  · exact isBlankLine_of_closes (hclose.append _)

theorem margin_reindent_render {t : Target} {l : Line} (h : l.Sound t) (n : Nat) :
    Layout.margin (Layout.reindent n (l.render t)) = l.level * n := by
  have hsteps : step * l.level / 4 = l.level := Nat.mul_div_cancel_left l.level (by decide)
  have hover : step * l.level % 4 = 0 := Nat.mul_mod_right 4 l.level
  rw [Layout.margin_reindent, h.margin_render, Layout.scaled, hsteps, hover, ← Int.natCast_mul,
    Int.natCast_zero, Int.add_zero, Int.toNat_natCast]

/-- A line ends in a colon only if it leads a block. -/
theorem leads_of_getLast? {l : Line} (h : l.Sound .python) {n : Int}
    (hcolon : (Layout.reindent n (l.render .python)).getLast? = some ':') : l.Leads := by
  rw [reindent_render h, List.getLast?_append] at hcolon
  cases hlast : (l.body .python).getLast? with
  | some c =>
    rw [hlast] at hcolon
    rw [Line.Leads, hlast]
    exact hcolon
  | none =>
    rw [hlast, Option.none_or] at hcolon
    exact absurd (List.eq_of_mem_replicate (List.mem_of_getLast? hcolon)) (by decide)

theorem shown_cons_of_nil {t : Target} {l : Line} (h : l.pieces = []) (ls : List Line) :
    shown t (l :: ls) = shown t ls := by simp [shown, h]

theorem shown_cons {t : Target} {l : Line} (h : l.pieces ≠ []) (ls : List Line) :
    shown t (l :: ls) = l.render t :: shown t ls := by simp [shown, h]

/-- Laid out in steps of `n` spaces, every line that ends in a colon has its block. -/
theorem bodied_of_blocks {ls : List Line} (h : Blocks ls) (hs : AllSound .python ls) (n : Nat) :
    Layout.Bodied n ((shown .python ls).map (Layout.reindent n)) := by
  induction h with
  | nil => exact Layout.bodied_nil n
  | @plain l rest hplain _ ih =>
    obtain ⟨hl, hrest⟩ := List.forall_mem_cons.mp hs
    by_cases hpieces : l.pieces = []
    · rw [shown_cons_of_nil hpieces]
      exact ih hrest
    · rw [shown_cons hpieces, List.map_cons, Layout.bodied_cons]
      exact ⟨fun hcolon => absurd (leads_of_getLast? hl hcolon) hplain, ih hrest⟩
  | @block l k rest hlevel hk _ ih =>
    obtain ⟨hl, hrest⟩ := List.forall_mem_cons.mp hs
    have hbodied := ih hrest
    by_cases hpieces : l.pieces = []
    · rw [shown_cons_of_nil hpieces]
      exact hbodied
    · rw [shown_cons hpieces, List.map_cons, Layout.bodied_cons]
      refine ⟨fun _ => ?_, hbodied⟩
      -- the line right after it is the next one that is not blank
      have hsound := hrest k List.mem_cons_self
      refine ⟨Layout.reindent n (k.render .python), ?_, ?_⟩
      · rw [shown_cons hk, List.map_cons, List.find?_cons_of_pos]
        rw [isBlankLine_reindent hsound hk]
        rfl
      · rw [margin_reindent_render hsound, margin_reindent_render hl, hlevel, Nat.add_mul,
          Nat.one_mul]

end Source
end EventCodegen
