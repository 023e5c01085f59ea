import Mathlib.Data.List.Forall2
import EventCodegen.Failure
import EventCodegen.Proofs.EncodedText
import EventCodegen.Proofs.Outcomes

/-! The shape of a plan, and what is read from it. A plan is an array of named objects in three
levels; a list may be missing or null, and the value of a parameter may be anything but an array or
an object. What is read mirrors the value node for node. Each reader is pinned down by the relation
between a node and its reading (`readCategory_eq_ok`), and a node has a reading exactly if it has
the shape (`isCategory_iff`); so a value is read if and only if it is a plan
(`reads_exactly_plans`). -/
namespace EventCodegen.Plan

/-! ## The shape -/

/-- A string that is a text: none of its code points is a surrogate. -/
def IsText (s : Json.Str) : Prop :=
  ∃ points, s = .ofPoints points ∧ ∀ n ∈ points, ¬(0xD800 ≤ n ∧ n < 0xE000)

/-- The value of a parameter: missing, null, a truth value, a number or a text. -/
inductive IsValue : Option Json → Prop
  | missing : IsValue none
  | null : IsValue (some .null)
  | bool (b : Bool) : IsValue (some (.bool b))
  | int (n : Int) : IsValue (some (.int n))
  | float (x : Binary64) : IsValue (some (.float x))
  | str {s : Json.Str} : IsText s → IsValue (some (.str s))

/-- A list of a node: missing, null or an array of items that satisfy `P`. -/
inductive IsList (P : Json → Prop) : Option Json → Prop
  | missing : IsList P none
  | null : IsList P (some .null)
  | array {items : List Json} : (∀ x ∈ items, P x) → IsList P (some (.arr items))

/-- An object whose name is a text and whose entry `member` satisfies `P`. Its other entries do not
matter. -/
inductive IsNode (member : String) (P : Option Json → Prop) : Json → Prop
  | object {fields : Json.Fields} {s : Json.Str} : Json.lookup "name" fields = some (.str s) →
    IsText s → P (Json.lookup member fields) → IsNode member P (.obj fields)

def IsParameter : Json → Prop := IsNode "value" IsValue

def IsEvent : Json → Prop := IsNode "parameters" (IsList IsParameter)

def IsCategory : Json → Prop := IsNode "events" (IsList IsEvent)

/-- A value that is a plan. -/
def IsPlan (x : Json) : Prop := ∃ items, x = .arr items ∧ ∀ c ∈ items, IsCategory c

/-! ## What is read -/

/-- The text that the value of a parameter is read as. -/
inductive ValueText : Option Json → String → Prop
  | missing : ValueText none ""
  | null : ValueText (some .null) ""
  | true : ValueText (some (.bool Bool.true)) "true"
  | false : ValueText (some (.bool Bool.false)) "false"
  | int (n : Int) : ValueText (some (.int n)) (toString n)
  | float (x : Binary64) : ValueText (some (.float x)) x.text
  | str (s : String) : ValueText (some (.str (.text s))) s

variable {α β γ : Type}

/-- A list of a node is read item by item. -/
inductive ListReading (M : Json → α → Prop) : Option Json → List α → Prop
  | missing : ListReading M none []
  | null : ListReading M (some .null) []
  | array {items : List Json} {as : List α} : List.Forall₂ M items as →
    ListReading M (some (.arr items)) as

/-- An object is read as its name and what is read from its entry `member`. -/
inductive NodeReading (member : String) (M : Option Json → β → Prop) : Json → String → β → Prop
  | object {fields : Json.Fields} {name : String} {b : β} :
    Json.lookup "name" fields = some (.str (.text name)) → M (Json.lookup member fields) b →
    NodeReading member M (.obj fields) name b

/-- The parameter that a value is read as. -/
def ParameterReading (x : Json) (p : Parameter) : Prop :=
  NodeReading "value" ValueText x p.key p.value

/-- The event that a value is read as. -/
def EventReading (x : Json) (e : Event) : Prop :=
  NodeReading "parameters" (ListReading ParameterReading) x e.name e.parameters

/-- The category that a value is read as. -/
def CategoryReading (x : Json) (c : Category) : Prop :=
  NodeReading "events" (ListReading EventReading) x c.name c.events

/-- The categories that a value is read as. -/
def PlanReading (x : Json) (categories : List Category) : Prop :=
  ∃ items, x = .arr items ∧ List.Forall₂ CategoryReading items categories

/-- The names and values of a category. -/
def texts (c : Category) : List String :=
  c.name :: c.events.flatMap fun e => e.name :: e.parameters.flatMap fun p => [p.key, p.value]

/-! ## A value has the shape if it has a reading -/

theorem split_text (s : List Char) : Json.Str.split (s.map Char.toNat) = (s, []) := by
  induction s with
  | nil => rfl
  | cons c rest ih =>
    have hc := Text.toNat_valid c
    rw [List.map_cons, Json.Str.split, if_neg (by omega), ih, Char.ofNat_toNat]

theorem split_of_no_surrogate {points : List Nat}
    (h : ∀ n ∈ points, ¬(0xD800 ≤ n ∧ n < 0xE000)) : (Json.Str.split points).2 = [] := by
  induction points with
  | nil => rfl
  | cons n rest ih =>
    rw [Json.Str.split, if_neg (h n List.mem_cons_self)]
    exact ih fun m hm => h m (List.mem_cons_of_mem n hm)

/-- The strings without surrogates are the texts. -/
theorem isText_iff {s : Json.Str} : IsText s ↔ ∃ t, s = .text t := by
  constructor
  · rintro ⟨points, rfl, h⟩
    have hsplit : Json.Str.split points = ((Json.Str.split points).1, []) :=
      Prod.ext rfl (split_of_no_surrogate h)
    exact ⟨_, by rw [Json.Str.ofPoints, hsplit]⟩
  · rintro ⟨t, rfl⟩
    refine ⟨t.toList.map Char.toNat, ?_, ?_⟩
    · simp only [Json.Str.ofPoints, split_text, String.ofList_toList]
    · intro n hn
      obtain ⟨c, _, rfl⟩ := List.mem_map.mp hn
      have hc := Text.toNat_valid c
      omega

theorem isValue_iff {entry : Option Json} : IsValue entry ↔ ∃ value, ValueText entry value := by
  constructor
  · intro h
    cases h with
    | missing => exact ⟨_, .missing⟩
    | null => exact ⟨_, .null⟩
    | bool b =>
      cases b with
      | true => exact ⟨_, .true⟩
      | false => exact ⟨_, .false⟩
    | int n => exact ⟨_, .int n⟩
    | float x => exact ⟨_, .float x⟩
    | str hs =>
      obtain ⟨t, rfl⟩ := isText_iff.mp hs
      exact ⟨_, .str t⟩
  · rintro ⟨value, h⟩
    cases h with
    | missing => exact .missing
    | null => exact .null
    | true => exact .bool true
    | false => exact .bool false
    | int n => exact .int n
    | float x => exact .float x
    | str => exact .str (isText_iff.mpr ⟨value, rfl⟩)

theorem forall_iff_forall₂ {P : Json → Prop} {M : Json → α → Prop}
    (h : ∀ x, P x ↔ ∃ a, M x a) (items : List Json) :
    (∀ x ∈ items, P x) ↔ ∃ as, List.Forall₂ M items as := by
  induction items with
  | nil => simp
  | cons x rest ih =>
    rw [List.forall_mem_cons, h, ih]
    constructor
    · rintro ⟨⟨a, ha⟩, as, has⟩
      exact ⟨a :: as, .cons ha has⟩
    · rintro ⟨_, has⟩
      obtain ⟨a, as, ha, hrest, rfl⟩ := List.forall₂_cons_left_iff.mp has
      exact ⟨⟨a, ha⟩, as, hrest⟩

theorem isList_iff {P : Json → Prop} {M : Json → α → Prop} (h : ∀ x, P x ↔ ∃ a, M x a)
    (entry : Option Json) : IsList P entry ↔ ∃ as, ListReading M entry as := by
  constructor
  · intro hlist
    cases hlist with
    | missing => exact ⟨[], .missing⟩
    | null => exact ⟨[], .null⟩
    | array hitems =>
      obtain ⟨as, has⟩ := (forall_iff_forall₂ h _).mp hitems
      exact ⟨as, .array has⟩
  · rintro ⟨as, hlist⟩
    cases hlist with
    | missing => exact .missing
    | null => exact .null
    | array has => exact .array ((forall_iff_forall₂ h _).mpr ⟨as, has⟩)

theorem isNode_iff {member : String} {P : Option Json → Prop} {M : Option Json → β → Prop}
    (h : ∀ entry, P entry ↔ ∃ b, M entry b) (x : Json) :
    IsNode member P x ↔ ∃ name b, NodeReading member M x name b := by
  constructor
  · rintro ⟨hname, htext, hmember⟩
    obtain ⟨name, rfl⟩ := isText_iff.mp htext
    obtain ⟨b, hb⟩ := (h _).mp hmember
    exact ⟨name, b, .object hname hb⟩
  · rintro ⟨name, b, hname, hb⟩
    exact .object hname (isText_iff.mpr ⟨name, rfl⟩) ((h _).mpr ⟨b, hb⟩)

theorem isParameter_iff (x : Json) : IsParameter x ↔ ∃ p, ParameterReading x p :=
  (isNode_iff (fun _ => isValue_iff) x).trans
    ⟨fun ⟨key, value, h⟩ => ⟨⟨key, value⟩, h⟩, fun ⟨p, h⟩ => ⟨p.key, p.value, h⟩⟩

theorem isEvent_iff (x : Json) : IsEvent x ↔ ∃ e, EventReading x e :=
  (isNode_iff (isList_iff isParameter_iff) x).trans
    ⟨fun ⟨name, parameters, h⟩ => ⟨⟨name, parameters⟩, h⟩, fun ⟨e, h⟩ => ⟨e.name, e.parameters, h⟩⟩

theorem isCategory_iff (x : Json) : IsCategory x ↔ ∃ c, CategoryReading x c :=
  (isNode_iff (isList_iff isEvent_iff) x).trans
    ⟨fun ⟨name, events, h⟩ => ⟨⟨name, events⟩, h⟩, fun ⟨c, h⟩ => ⟨c.name, c.events, h⟩⟩

theorem isPlan_iff (x : Json) : IsPlan x ↔ ∃ categories, PlanReading x categories := by
  constructor
  · rintro ⟨items, rfl, h⟩
    obtain ⟨categories, hread⟩ := (forall_iff_forall₂ isCategory_iff items).mp h
    exact ⟨categories, items, rfl, hread⟩
  · rintro ⟨categories, items, rfl, h⟩
    exact ⟨items, rfl, (forall_iff_forall₂ isCategory_iff items).mpr ⟨categories, h⟩⟩

/-! ## The readers -/

variable {node node' : Node} {surroundings surroundings' : Surroundings}

theorem asObject_eq_ok {x : Json} {fields : Json.Fields} :
    asObject node surroundings x = .ok fields ↔ x = .obj fields := by
  unfold asObject
  split <;> simp_all

theorem nameOf_eq_ok {fields : Json.Fields} {name : String} :
    nameOf node surroundings fields = .ok name ↔
      Json.lookup "name" fields = some (.str (.text name)) := by
  unfold nameOf
  split <;> simp_all

theorem valueOf_eq_ok {key : String} {fields : Json.Fields} {value : String} :
    valueOf node surroundings key fields = .ok value ↔
      ValueText (Json.lookup "value" fields) value := by
  unfold valueOf
  generalize Json.lookup "value" fields = entry
  constructor
  · intro h
    split at h
    · cases h; exact .missing
    · cases h; exact .null
    · next b =>
      cases h
      cases b with
      | true => exact .true
      | false => exact .false
    · cases h; exact .int _
    · cases h; exact .float _
    · cases h; exact .str _
    · cases h
    · cases h
  · intro h
    cases h <;> rfl

theorem readAll_eq_ok {read : Nat → Json → Except PlanError α} {M : Json → α → Prop}
    (h : ∀ place x a, read place x = .ok a ↔ M x a) (place : Nat) (items : List Json)
    (as : List α) : readAll read place items = .ok as ↔ List.Forall₂ M items as := by
  induction items generalizing place as with
  | nil =>
    rw [readAll, List.forall₂_nil_left_iff, Except.ok.injEq, eq_comm]
  | cons x rest ih =>
    simp only [readAll, bind_eq_ok, List.forall₂_cons_left_iff, h, ih]
    constructor
    · rintro ⟨a, ha, rest', hrest, hr⟩
      cases hr
      exact ⟨a, rest', ha, hrest, rfl⟩
    · rintro ⟨a, rest', ha, hrest, rfl⟩
      exact ⟨a, ha, rest', hrest, rfl⟩

theorem readList_eq_ok {member : String} {fields : Json.Fields}
    {read : Nat → Json → Except PlanError α} {M : Json → α → Prop}
    (h : ∀ place x a, read place x = .ok a ↔ M x a) {as : List α} :
    (listOf node surroundings member fields >>= readAll read 0) = .ok as ↔
      ListReading M (Json.lookup member fields) as := by
  unfold listOf
  generalize Json.lookup member fields = entry
  constructor
  · intro hread
    split at hread
    · cases hread; exact .missing
    · cases hread; exact .null
    · exact .array ((readAll_eq_ok h 0 _ as).mp hread)
    · cases hread
  · intro hlist
    cases hlist with
    | missing => rfl
    | null => rfl
    | array hitems => exact (readAll_eq_ok h 0 _ as).mpr hitems

/-- A node is read as an object, then its name, then its contents, and made of these. -/
theorem readNode_eq_ok {member : String} {contents : String → Json.Fields → Except PlanError β}
    {M : Option Json → β → Prop} {make : String → β → γ} {name : γ → String} {content : γ → β}
    (hmake : ∀ n b c, make n b = c ↔ n = name c ∧ b = content c)
    (hread : ∀ n fields b, contents n fields = .ok b ↔ M (Json.lookup member fields) b)
    {x : Json} {c : γ} :
    (do let fields ← asObject node surroundings x
        let n ← nameOf node surroundings' fields
        let b ← contents n fields
        return make n b) = .ok c ↔
      NodeReading member M x (name c) (content c) := by
  simp only [bind_eq_ok, asObject_eq_ok, nameOf_eq_ok, hread]
  constructor
  · rintro ⟨fields, rfl, n, hname, b, hb, hc⟩
    obtain ⟨rfl, rfl⟩ := (hmake n b c).mp (Except.ok.inj hc)
    exact .object hname hb
  · rintro ⟨hname, hb⟩
    exact ⟨_, rfl, name c, hname, content c, hb, congrArg Except.ok ((hmake _ _ c).mpr ⟨rfl, rfl⟩)⟩

theorem readParameter_eq_ok (event : String) (x : Json) (p : Parameter) :
    readParameter node event x = .ok p ↔ ParameterReading x p :=
  readNode_eq_ok (fun _ _ c => by cases c; rw [Parameter.mk.injEq]) fun _ _ _ => valueOf_eq_ok

theorem readEvent_eq_ok (i : Nat) (category : String) (j : Nat) (x : Json) (e : Event) :
    readEvent i category j x = .ok e ↔ EventReading x e := by
  -- finding the list and reading its items is one step on the entry
  have hread : readEvent i category j x = (do
      let fields ← asObject (.event i j) (.inCategory category) x
      let name ← nameOf (.event i j) .none fields
      let parameters ← listOf (.event i j) (.inEvent name) "parameters" fields >>=
        readAll (fun k => readParameter (.parameter i j k) name) 0
      return Event.mk name parameters) := by
    simp only [readEvent, bind_assoc]
  rw [hread]
  exact readNode_eq_ok (fun _ _ c => by cases c; rw [Event.mk.injEq]) fun name _ _ =>
    readList_eq_ok fun _ => readParameter_eq_ok name

theorem readCategory_eq_ok (i : Nat) (x : Json) (c : Category) :
    readCategory i x = .ok c ↔ CategoryReading x c := by
  have hread : readCategory i x = (do
      let fields ← asObject (.category i) .none x
      let name ← nameOf (.category i) .none fields
      let events ← listOf (.category i) .none "events" fields >>= readAll (readEvent i name) 0
      return Category.mk name events) := by
    simp only [readCategory, bind_assoc]
  rw [hread]
  exact readNode_eq_ok (fun _ _ c => by cases c; rw [Category.mk.injEq]) fun name _ _ =>
    readList_eq_ok (readEvent_eq_ok i name)

theorem ofJson_eq_ok {x : Json} {categories : List Category} :
    ofJson x = .ok categories ↔ PlanReading x categories := by
  unfold ofJson
  split
  · next items =>
    rw [readAll_eq_ok readCategory_eq_ok]
    constructor
    · exact fun h => ⟨items, rfl, h⟩
    · rintro ⟨_, heq, h⟩
      cases heq
      exact h
  · next hx =>
    constructor
    · intro h
      cases h
    · rintro ⟨items, rfl, _⟩
      exact absurd rfl (hx items)

/-- A value is read exactly if it is a plan, and then as what it mirrors; the reading of any other
value fails with an error of the plan. Every name and value that is read can be written as bytes. -/
theorem reads_exactly_plans (x : Json) :
    ((∃ categories, ofJson x = .ok categories) ↔ IsPlan x) ∧
    (∀ categories, ofJson x = .ok categories ↔ PlanReading x categories) ∧
    ((∃ e, ofJson x = .error e ∧ (Failure.plan e).kind = "SchemaParseError") ↔ ¬ IsPlan x) ∧
    (∀ categories, ofJson x = .ok categories → ∀ s ∈ categories.flatMap texts,
      Text.decode (Text.encode s.toList) = .ok s.toList) := by
  have hplan : (∃ categories, ofJson x = .ok categories) ↔ IsPlan x := by
    rw [isPlan_iff]
    exact exists_congr fun _ => ofJson_eq_ok
  refine ⟨hplan, fun _ => ofJson_eq_ok, ?_, fun _ _ s _ => Text.decode_encode s.toList⟩
  rw [← hplan]
  cases ofJson x with
  | ok categories => simp
  -- every failure of the reader is an error of the plan, whatever its cause
  | error e => simp [Failure.kind]

end EventCodegen.Plan
