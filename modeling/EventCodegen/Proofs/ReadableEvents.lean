import EventCodegen.Proofs.ShownLines

/-! Events can be read back. The code of an event tells what the event was written from and where
its code ends (`pythonEvent_append_inj`, `kotlinEvent_append_inj`), and neither the container of
values nor the end of the file begins like an event, so a run of events tells all of them
(`pythonEvents_append_inj`, `kotlinEvents_append_inj`). -/
namespace EventCodegen

/-- An event type without the values of its fields, which no file tells. -/
def EventType.withoutValues (e : EventType) : EventType :=
  { e with fields := e.fields.map fun f => { f with value := "" } }

/-- Two event types hand the same texts to their base type. -/
def EventType.SameIdentity (a b : EventType) : Prop :=
  a.categoryName = b.categoryName ∧ a.screenName = b.screenName ∧ a.eventName = b.eventName

/-- What an entry of the parameters of an event tells about a field. -/
def Field.entry (f : Field) : String × String := (f.name, f.key)

theorem EventType.withoutValues_eq {a b : EventType} (hname : a.name = b.name)
    (hidentity : a.SameIdentity b) (hsimple : a.isSimple = b.isSimple)
    (hfields : a.fields.map Field.entry = b.fields.map Field.entry) :
    a.withoutValues = b.withoutValues := by
  have hcleared : (a.fields.map fun f => ({ f with value := "" } : Field)) =
      b.fields.map fun f => { f with value := "" } := by
    refine map_eq_of_keys hfields fun f g hfg => ?_
    obtain ⟨hfname, hkey⟩ := Prod.mk.inj hfg
    rw [hfname, hkey]
  obtain ⟨hcategory, hscreen, hevent⟩ := hidentity
  unfold EventType.withoutValues
  rw [hname, hcategory, hscreen, hevent, hsimple, hcleared]

namespace Source

section
variable {t : Target} {a b : EventType} {r s : List (List Char)}

/-! ## Parts of an event -/

theorem identity_append_inj {level : Nat}
    (h : shown t (identity level a) ++ r = shown t (identity level b) ++ s) :
    a.SameIdentity b ∧ r = s := by
  simpa [identity, EventType.SameIdentity, and_assoc] using h

theorem description_append_inj {comments : Bool} {level : Nat} {x y : String}
    (h : shown t (onlyIf comments [.literal level x, .blank]) ++ r =
      shown t (onlyIf comments [.literal level y, .blank]) ++ s) : r = s := by
  cases comments with
  | false => exact h
  | true => exact (List.cons.inj h).2

@[simp] theorem shown_onlyIf_blank (condition : Bool) :
    shown t (onlyIf condition [.blank]) = [] := by
  cases condition <;> rfl

/-- The entries of the parameters of an event, up to the line that closes them. -/
theorem entries_append_inj {level : Nat} {before after close : String}
    (hclose : Opens close.toList)
    (h : shown t (a.fields.map fun f => ⟨level + 1, [.literal f.key, .code (before ++ f.name ++ after)]⟩) ++
        (Line.code level close).render t :: r =
      shown t (b.fields.map fun f => ⟨level + 1, [.literal f.key, .code (before ++ f.name ++ after)]⟩) ++
        (Line.code level close).render t :: s) :
    a.fields.map Field.entry = b.fields.map Field.entry ∧ r = s := by
  have hshallow : ∀ f : Field, Line.render t
      ⟨level + 1, [.literal f.key, .code (before ++ f.name ++ after)]⟩ ≠
        (Line.code level close).render t := by
    refine fun f => (render_ne_of_level_lt (Nat.lt_succ_self level) ?_).symm
    simpa [Line.body, Line.code, Piece.render] using hclose
  have hread : ∀ f g : Field,
      Line.render t ⟨level + 1, [.literal f.key, .code (before ++ f.name ++ after)]⟩ =
        Line.render t ⟨level + 1, [.literal g.key, .code (before ++ g.name ++ after)]⟩ →
      f.entry = g.entry := by
    intro f g hfg
    obtain ⟨hkey, hcode⟩ := render_literal_code_inj hfg
    have hname : f.name = g.name := by simpa using hcode
    rw [Field.entry, Field.entry, hkey, hname]
  rw [shown_map (fun _ => by simp), shown_map (fun _ => by simp)] at h
  obtain ⟨hentries, _, hrest⟩ := map_append_inj (P := (· = (Line.code level close).render t))
    (fun f _ g _ => hread f g) (fun f _ => hshallow f) (fun f _ => hshallow f) rfl rfl h
  exact ⟨hentries, hrest⟩

/-- The declarations of fields are skipped up to the line that follows them. -/
theorem declarations_append_inj {level : Nat} {p q : Field → String} {next : Line}
    (hleft : ∀ f ∈ a.fields, (Line.code level (p f)).render t ≠ next.render t)
    (hright : ∀ f ∈ b.fields, (Line.code level (q f)).render t ≠ next.render t)
    (h : shown t (a.fields.map fun f => .code level (p f)) ++ next.render t :: r =
      shown t (b.fields.map fun f => .code level (q f)) ++ next.render t :: s) : r = s := by
  rw [shown_map (fun _ => List.cons_ne_nil _ _), shown_map (fun _ => List.cons_ne_nil _ _)] at h
  exact (map_append_inj (k := fun _ => ()) (P := (· = next.render t)) (fun _ _ _ _ _ => rfl)
    hleft hright rfl rfl h).2.2

/-! ## Events in Python -/

theorem pythonSingleton_append_inj {comments : Bool}
    (h : shown .python (pythonSingleton comments a) ++ r =
      shown .python (pythonSingleton comments b) ++ s) :
    a.name = b.name ∧ a.SameIdentity b ∧ r = s := by
  simp only [pythonSingleton, shown_append, shown_code, shown_nil, List.append_assoc,
    List.cons_append, List.nil_append, List.cons.injEq, true_and, render_code_inj] at h
  obtain ⟨hname, h⟩ := h
  have h := description_append_inj h
  simp only [List.cons.injEq, true_and] at h
  obtain ⟨hidentity, h⟩ := identity_append_inj h
  simp only [List.cons.injEq, true_and] at h
  exact ⟨by simpa using hname, hidentity, h⟩

/-- No field is taken for the method that follows the fields. -/
theorem declaration_ne {f : Field} (hf : Naming.isIdentifier f.name.toList = true)
    (remark : String) : f.name ++ ": str" ++ remark ≠ "def __post_init__(self) -> None:" := by
  intro heq
  have hlist := congrArg String.toList heq
  rw [String.toList_append, String.toList_append, List.append_assoc] at hlist
  have hcolon := Naming.identifier_append_inj (b := "def".toList) (y := ' ')
    (fun _ => Naming.isIdentifierChar_of_mem hf) (List.all_eq_true.mp (by decide)) (by decide)
    (by decide) hlist
  exact absurd hcolon.2.1 (by decide)

theorem pythonRecord_append_inj {comments : Bool} {m₁ m₂ : CategoryModule}
    (ha : ∀ f ∈ a.fields, Naming.isIdentifier f.name.toList = true)
    (hb : ∀ f ∈ b.fields, Naming.isIdentifier f.name.toList = true)
    (h : shown .python (pythonRecord comments m₁ a) ++ r =
      shown .python (pythonRecord comments m₂ b) ++ s) :
    a.name = b.name ∧ a.SameIdentity b ∧ a.fields.map Field.entry = b.fields.map Field.entry ∧ r = s := by
  simp only [pythonRecord, shown_append, shown_code, shown_nil, shown_onlyIf_blank,
    List.append_assoc, List.cons_append, List.nil_append, List.cons.injEq, true_and,
    render_code_inj] at h
  obtain ⟨hname, h⟩ := h
  have h := description_append_inj h
  -- the fields are read in the entries below, where their keys stand
  have h := declarations_append_inj
    (fun f hf => by simpa using declaration_ne (ha f hf) (fieldRemark comments m₁ f))
    (fun f hf => by simpa using declaration_ne (hb f hf) (fieldRemark comments m₂ f)) h
  simp only [List.cons.injEq, true_and] at h
  obtain ⟨hidentity, h⟩ := identity_append_inj h
  simp only [List.cons.injEq, true_and] at h
  obtain ⟨hentries, h⟩ := entries_append_inj (by decide) h
  simp only [List.cons.injEq, true_and] at h
  exact ⟨by simpa using hname, hidentity, hentries, h⟩

/-! ## Events in Kotlin -/

theorem kotlinSingleton_append_inj
    (h : shown .kotlin (kotlinSingleton a) ++ r = shown .kotlin (kotlinSingleton b) ++ s) :
    a.name = b.name ∧ a.SameIdentity b ∧ r = s := by
  simp only [kotlinSingleton, shown_append, shown_code, shown_nil, List.append_assoc,
    List.cons_append, List.nil_append, List.cons.injEq, render_code_inj] at h
  obtain ⟨hname, h⟩ := h
  obtain ⟨hidentity, h⟩ := identity_append_inj h
  simp only [List.cons.injEq, true_and] at h
  exact ⟨by simpa using hname, hidentity, h⟩

theorem ne_of_head {x y : String} (h : x.toList.head? ≠ y.toList.head?) : x ≠ y := by
  rintro rfl
  exact h rfl

/-- The head of a record tells its name, and a data class is not taken for one that is none. -/
theorem name_eq_of_head {x y : Bool}
    (h : (if x then "" else "data ") ++ "class " ++ a.name ++ "(" =
      (if y then "" else "data ") ++ "class " ++ b.name ++ "(") : a.name = b.name := by
  have hdata : ∀ n k : String, "data " ++ "class " ++ n ++ "(" ≠ "" ++ "class " ++ k ++ "(" :=
    fun n k => ne_of_head (by simp)
  cases x with
  | true =>
    cases y with
    | true => simpa using h
    | false => exact absurd h.symm (hdata _ _)
  | false =>
    cases y with
    | true => exact absurd h (hdata _ _)
    | false => simpa using h

/-- An object is not taken for a class. -/
theorem kotlinSingleton_append_ne :
    shown .kotlin (kotlinSingleton a) ++ r ≠ shown .kotlin (kotlinRecord b) ++ s := by
  intro h
  simp only [kotlinSingleton, kotlinRecord, shown_append, shown_code, shown_nil, List.append_assoc,
    List.cons_append, List.nil_append, List.cons.injEq, render_code_inj] at h
  exact ne_of_head (by cases b.fields.isEmpty <;> simp) h.1

theorem kotlinRecord_append_inj
    (h : shown .kotlin (kotlinRecord a) ++ r = shown .kotlin (kotlinRecord b) ++ s) :
    a.name = b.name ∧ a.SameIdentity b ∧ a.fields.map Field.entry = b.fields.map Field.entry ∧ r = s := by
  simp only [kotlinRecord, shown_append, shown_code, shown_nil, List.append_assoc, List.cons_append,
    List.nil_append, List.cons.injEq, render_code_inj] at h
  obtain ⟨hname, h⟩ := h
  have hshallow : ∀ f : Field, (Line.code 2 ("val " ++ f.name ++ ": String,")).render .kotlin ≠
      (Line.code 1 (") : " ++ baseTypeName ++ "(")).render .kotlin :=
    fun f => (render_ne_of_level_lt (Nat.lt_succ_self 1) (by decide)).symm
  have h := declarations_append_inj (fun f _ => hshallow f) (fun f _ => hshallow f) h
  obtain ⟨hidentity, h⟩ := identity_append_inj h
  simp only [List.cons.injEq, true_and] at h
  obtain ⟨hentries, h⟩ := entries_append_inj (by decide) h
  simp only [List.cons.injEq, true_and] at h
  exact ⟨name_eq_of_head hname, hidentity, hentries, h⟩

end

/-! ## Events -/

section
variable {m₁ m₂ : CategoryModule} (hm₁ : m₁.Proper) (hm₂ : m₂.Proper) {a b : EventType}
  (ha : a ∈ m₁.eventTypes) (hb : b ∈ m₂.eventTypes) {r s : List (List Char)}
include hm₁ hm₂ ha hb

/-- An event is read back if simple ones are, records are, and neither is taken for the other. -/
theorem event_append_inj {t : Target} {simple₁ record₁ simple₂ record₂ : List Line}
    (hsimple : shown t simple₁ ++ r = shown t simple₂ ++ s →
      a.name = b.name ∧ a.SameIdentity b ∧ r = s)
    (hrecord : shown t record₁ ++ r = shown t record₂ ++ s →
      a.name = b.name ∧ a.SameIdentity b ∧ a.fields.map Field.entry = b.fields.map Field.entry ∧
        r = s)
    (hleft : shown t simple₁ ++ r ≠ shown t record₂ ++ s)
    (hright : shown t record₁ ++ r ≠ shown t simple₂ ++ s)
    (h : shown t (if a.isSimple then simple₁ else record₁) ++ r =
      shown t (if b.isSimple then simple₂ else record₂) ++ s) :
    a.withoutValues = b.withoutValues ∧ r = s := by
  cases hsa : a.isSimple with
  | true =>
    cases hsb : b.isSimple with
    | true =>
      rw [hsa, hsb] at h
      obtain ⟨hname, hidentity, hrest⟩ := hsimple h
      refine ⟨EventType.withoutValues_eq hname hidentity (hsa.trans hsb.symm) ?_, hrest⟩
      -- the fields of a simple event are not written, but there are none
      rw [hm₁.simple a ha hsa, hm₂.simple b hb hsb]
    | false =>
      rw [hsa, hsb] at h
      exact absurd h hleft
  | false =>
    cases hsb : b.isSimple with
    | true =>
      rw [hsa, hsb] at h
      exact absurd h hright
    | false =>
      rw [hsa, hsb] at h
      obtain ⟨hname, hidentity, hentries, hrest⟩ := hrecord h
      exact ⟨EventType.withoutValues_eq hname hidentity (hsa.trans hsb.symm) hentries, hrest⟩

/-- The code of an event in Python tells what it was written from and where it ends. -/
theorem pythonEvent_append_inj {comments : Bool}
    (h : shown .python (pythonEvent comments m₁ a) ++ r =
      shown .python (pythonEvent comments m₂ b) ++ s) : a.withoutValues = b.withoutValues ∧ r = s := by
  refine event_append_inj hm₁ hm₂ ha hb pythonSingleton_append_inj
    (pythonRecord_append_inj (hm₁.field a ha) (hm₂.field b hb)) ?_ ?_ h
  · simp [pythonSingleton, pythonRecord]
  · simp [pythonSingleton, pythonRecord]

/-- The code of an event in Kotlin tells what it was written from and where it ends. -/
theorem kotlinEvent_append_inj {comments : Bool}
    (h : shown .kotlin (kotlinEvent comments a) ++ r = shown .kotlin (kotlinEvent comments b) ++ s) :
    a.withoutValues = b.withoutValues ∧ r = s := by
  have hbody : shown .kotlin (if a.isSimple then kotlinSingleton a else kotlinRecord a) ++ r =
      shown .kotlin (if b.isSimple then kotlinSingleton b else kotlinRecord b) ++ s := by
    simp only [kotlinEvent, List.cons_append, shown_blank, shown_append, List.append_assoc] at h
    cases comments with
    | false => exact h
    | true => exact (List.cons.inj h).2
  exact event_append_inj hm₁ hm₂ ha hb kotlinSingleton_append_inj kotlinRecord_append_inj
    kotlinSingleton_append_ne kotlinSingleton_append_ne.symm hbody

end

/-! ## Runs of events -/

/-- What does not begin like an event in Python. -/
def EndsPython (ls : List (List Char)) : Prop :=
  ls.head? ≠ some ((Line.code 1 "@singleton").render .python) ∧
    ls.head? ≠ some ((Line.code 1 "@dataclass(frozen=True)").render .python)

theorem not_endsPython_event (comments : Bool) (m : CategoryModule) (e : EventType)
    (r : List (List Char)) : ¬EndsPython (shown .python (pythonEvent comments m e) ++ r) := by
  unfold pythonEvent
  rw [shown_blank]
  intro hends
  cases hs : e.isSimple with
  | true => rw [hs] at hends; exact hends.1 rfl
  | false => rw [hs] at hends; exact hends.2 rfl

theorem endsPython_values (comments condition : Bool) (m : CategoryModule) :
    EndsPython (shown .python (onlyIf condition (pythonValues comments m))) := by
  cases condition with
  | false => exact ⟨by simp [onlyIf], by simp [onlyIf]⟩
  | true => exact ⟨by simp [onlyIf, pythonValues, valuesName], by simp [onlyIf, pythonValues, valuesName]⟩

/-- The head of the values container, or the end of the file: no event begins like that. -/
def EndsKotlin (ls : List (List Char)) : Prop :=
  ls.head? = some ((Line.code 1 ("object " ++ valuesName ++ " \x7b")).render .kotlin) ∨
    ls.head? = some ((Line.code 0 "\x7d").render .kotlin)

/-- The object of an event is not taken for the container of values, even under its name. -/
theorem object_ne_values {name : String} (h : Naming.isIdentifier name.toList = true) :
    "object " ++ name ++ " : " ++ baseTypeName ++ "(" ≠ "object " ++ valuesName ++ " \x7b" := by
  intro heq
  have hlist := congrArg String.toList heq
  simp only [String.toList_append, List.append_assoc, List.append_cancel_left_eq] at hlist
  have hrest := Naming.identifier_append_inj (x := ' ') (y := ' ')
    (fun _ => Naming.isIdentifierChar_of_mem h) (List.all_eq_true.mp (by decide)) (by decide)
    (by decide) hlist
  exact absurd hrest.2.2 (by decide)

/-- The first line of an event stands at the level of the container of values, and is not its
head. -/
theorem head?_kotlinEvent (comments : Bool) {e : EventType}
    (he : Naming.isIdentifier e.name.toList = true) (r : List (List Char)) : ∃ pieces,
    (shown .kotlin (kotlinEvent comments e) ++ r).head? = some (Line.render .kotlin ⟨1, pieces⟩) ∧
    Line.render .kotlin ⟨1, pieces⟩ ≠
      (Line.code 1 ("object " ++ valuesName ++ " \x7b")).render .kotlin := by
  simp only [kotlinEvent, List.cons_append, shown_blank]
  cases comments with
  | true =>
    refine ⟨[.code "// Event ", .literal e.eventName, .code ""], rfl, ?_⟩
    rw [Line.code, Ne, render_inj]
    simp [Piece.render]
  | false =>
    cases hs : e.isSimple with
    | true =>
      refine ⟨[.code ("object " ++ e.name ++ " : " ++ baseTypeName ++ "(")], rfl, ?_⟩
      exact fun heq => object_ne_values he (render_code_inj.mp heq)
    | false =>
      refine ⟨[.code ((if e.fields.isEmpty then "" else "data ") ++ "class " ++ e.name ++ "(")],
        rfl, ?_⟩
      refine fun heq => ne_of_head ?_ (render_code_inj.mp heq)
      cases e.fields.isEmpty <;> simp

theorem not_endsKotlin_event (comments : Bool) {e : EventType}
    (he : Naming.isIdentifier e.name.toList = true) (r : List (List Char)) :
    ¬EndsKotlin (shown .kotlin (kotlinEvent comments e) ++ r) := by
  obtain ⟨pieces, hhead, hne⟩ := head?_kotlinEvent comments he r
  rintro (hvalues | hend)
  · rw [hhead] at hvalues
    exact hne (Option.some.inj hvalues)
  · rw [hhead] at hend
    exact render_ne_of_level_lt Nat.zero_lt_one (by decide) (Option.some.inj hend).symm

theorem endsKotlin_values (condition : Bool) (m : CategoryModule) (r : List (List Char)) :
    EndsKotlin (shown .kotlin (onlyIf condition (kotlinValues m)) ++
      (Line.code 0 "\x7d").render .kotlin :: r) := by
  cases condition with
  | false => exact Or.inr rfl
  | true => exact Or.inl rfl

section
variable {m₁ m₂ : CategoryModule} (hm₁ : m₁.Proper) (hm₂ : m₂.Proper) {r s : List (List Char)}
include hm₁ hm₂

theorem pythonEvents_append_inj {comments : Bool} (hr : EndsPython r) (hs : EndsPython s)
    (h : shown .python (m₁.eventTypes.flatMap (pythonEvent comments m₁)) ++ r =
      shown .python (m₂.eventTypes.flatMap (pythonEvent comments m₂)) ++ s) :
    m₁.eventTypes.map EventType.withoutValues = m₂.eventTypes.map EventType.withoutValues ∧
      r = s := by
  rw [shown_flatMap, shown_flatMap] at h
  exact flatMap_append_inj (fun a ha b hb _ _ => pythonEvent_append_inj hm₁ hm₂ ha hb)
    (fun a _ => not_endsPython_event comments m₁ a) (fun b _ => not_endsPython_event comments m₂ b)
    hr hs h

theorem kotlinEvents_append_inj {comments : Bool} (hr : EndsKotlin r) (hs : EndsKotlin s)
    (h : shown .kotlin (m₁.eventTypes.flatMap (kotlinEvent comments)) ++ r =
      shown .kotlin (m₂.eventTypes.flatMap (kotlinEvent comments)) ++ s) :
    m₁.eventTypes.map EventType.withoutValues = m₂.eventTypes.map EventType.withoutValues ∧
      r = s := by
  rw [shown_flatMap, shown_flatMap] at h
  exact flatMap_append_inj (fun a ha b hb _ _ => kotlinEvent_append_inj hm₁ hm₂ ha hb)
    (fun a ha => not_endsKotlin_event comments (hm₁.type a ha))
    (fun b hb => not_endsKotlin_event comments (hm₂.type b hb)) hr hs h

end
end Source
end EventCodegen
