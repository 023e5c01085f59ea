import EventCodegen.Json.Parser
import EventCodegen.Proofs.Members
import EventCodegen.Proofs.Outcomes
import EventCodegen.Proofs.Rounding
import EventCodegen.Settings.Basic

/-! What reading a JSON text can give. Objects have each name once and numbers are in the form in
which they are kept (`Proper`): each step of the reader keeps to it, and so does whatever it has read
(`proper_of_parse`). Objects put together from such values are of that kind again. -/
namespace EventCodegen.Json

/-- A value as it comes out of a text: objects with distinct names, numbers in canonical form. -/
inductive Proper : Json → Prop
  | null : Proper .null
  | bool (b : Bool) : Proper (.bool b)
  | int (n : Int) : Proper (.int n)
  | float {x : Binary64} (hx : x.Canonical) : Proper (.float x)
  | str (s : Str) : Proper (.str s)
  | arr {items : List Json} (hitems : ∀ x ∈ items, Proper x) : Proper (.arr items)
  | obj {fields : Fields} (hnames : Distinct fields) (hvalues : ∀ m ∈ fields, Proper m.2) :
    Proper (.obj fields)

/-- Members that make up such an object. -/
structure ProperFields (fields : Fields) : Prop where
  names : Distinct fields
  values : ∀ m ∈ fields, Proper m.2

theorem ProperFields.empty : ProperFields [] :=
  ⟨List.nodup_nil, fun _ h => (List.not_mem_nil h).elim⟩

theorem Proper.fields {fields : Fields} (h : Proper (.obj fields)) : ProperFields fields := by
  cases h with
  | obj hnames hvalues => exact ⟨hnames, hvalues⟩

theorem Proper.items {items : List Json} (h : Proper (.arr items)) : ∀ x ∈ items, Proper x := by
  cases h with
  | arr hitems => exact hitems

theorem ProperFields.proper {fields : Fields} (h : ProperFields fields) : Proper (.obj fields) :=
  .obj h.names h.values

namespace ProperFields

variable {fields more : Fields}

theorem put (h : ProperFields fields) (name : Str) {value : Json} (hvalue : Proper value) :
    ProperFields (put name value fields) where
  names := h.names.put name value
  values := by
    intro m hm
    rcases mem_put hm with rfl | hm
    · exact hvalue
    · exact h.values m hm

theorem merge (h : ProperFields fields) (hmore : ProperFields more) :
    ProperFields (merge fields more) where
  names := h.names.merge more
  values := fun m hm => (mem_merge hm).elim (h.values m) (hmore.values m)

theorem filter (h : ProperFields fields) (p : Str × Json → Bool) :
    ProperFields (fields.filter p) where
  names := h.names.filter p
  values := fun m hm => h.values m (List.mem_of_mem_filter hm)

theorem lookup (h : ProperFields fields) {name : Str} {value : Json}
    (hvalue : lookup name fields = some value) : Proper value :=
  h.values _ (mem_of_lookup hvalue)

end ProperFields

/-! ## What the reader gives -/

theorem proper_of_scanNumber {s rest : List Char} {x : Json} (h : scanNumber s = .ok (x, rest)) :
    Proper x := by
  unfold scanNumber at h
  split at h
  split at h
  · cases h
  · dsimp only at h
    split at h
    · split at h
      · cases h
      · cases h
        exact .int _
    · cases h
      exact .float (Binary64.canonical_ofDecimal _ _ _)

theorem proper_of_constant {m : List Char × Json} (h : m ∈ constants) : Proper m.2 := by
  simp only [constants, List.mem_cons, List.not_mem_nil, or_false] at h
  rcases h with rfl | rfl | rfl | rfl | rfl | rfl
  · exact .null
  · exact .bool true
  · exact .bool false
  · exact .float trivial
  · exact .float trivial
  · exact .float trivial

theorem proper_of_scanConstant {s rest : List Char} {x : Json}
    (h : scanConstant? s = some (x, rest)) : Proper x := by
  obtain ⟨m, hm, hfound⟩ := List.exists_of_findSome?_eq_some h
  dsimp only at hfound
  split at hfound
  · cases hfound
    exact proper_of_constant hm
  · cases hfound

/-- With so much fuel the three readers give proper values. -/
structure ReadsProper (fuel : Nat) : Prop where
  value : ∀ {s rest : List Char} {x : Json}, parseValue fuel s = .ok (x, rest) → Proper x
  items : ∀ {read : List Json} {s rest : List Char} {x : Json}, (∀ y ∈ read, Proper y) →
    parseItems fuel read s = .ok (x, rest) → Proper x
  members : ∀ {read : Fields} {s rest : List Char} {x : Json}, ProperFields read →
    parseMembers fuel read s = .ok (x, rest) → Proper x

theorem readsProper_zero : ReadsProper 0 where
  value := fun h => by cases h
  items := fun _ h => by cases h
  members := fun _ h => by cases h

theorem ReadsProper.succ {fuel : Nat} (ih : ReadsProper fuel) : ReadsProper (fuel + 1) where
  value := by
    intro s rest x h
    rw [parseValue.eq_def] at h
    dsimp only at h
    split at h
    · cases h
    · split at h
      · obtain ⟨⟨y, after⟩, _, h⟩ := bind_eq_ok.mp h
        cases h
        exact .str y
      · split at h
        · split at h
          · cases h
            exact .arr fun _ hy => (List.not_mem_nil hy).elim
          · exact ih.items (fun _ hy => (List.not_mem_nil hy).elim) h
        · split at h
          · split at h
            · cases h
              exact ProperFields.empty.proper
            · exact ih.members .empty h
          · split at h
            · next hfound =>
              cases h
              exact proper_of_scanConstant hfound
            · exact proper_of_scanNumber h
  items := by
    intro read s rest x hread h
    rw [parseItems.eq_def] at h
    dsimp only at h
    obtain ⟨⟨y, after⟩, hvalue, h⟩ := bind_eq_ok.mp h
    have hmore : ∀ z ∈ y :: read, Proper z := List.forall_mem_cons.mpr ⟨ih.value hvalue, hread⟩
    dsimp only at h
    split at h
    · cases h
      exact .arr fun z hz => hmore z (List.mem_reverse.mp hz)
    · exact ih.items hmore h
    · cases h
  members := by
    intro read s rest x hread h
    rw [parseMembers.eq_def] at h
    dsimp only at h
    split at h
    · cases h
    · split at h
      · obtain ⟨⟨name, after⟩, _, h⟩ := bind_eq_ok.mp h
        dsimp only at h
        split at h
        · obtain ⟨⟨y, after⟩, hvalue, h⟩ := bind_eq_ok.mp h
          have hmore := hread.put name (ih.value hvalue)
          dsimp only at h
          split at h
          · cases h
            exact hmore.proper
          · exact ih.members hmore h
          · cases h
        · cases h
      · cases h

theorem readsProper : ∀ fuel, ReadsProper fuel
  | 0 => readsProper_zero
  | fuel + 1 => (readsProper fuel).succ

/-- What is read from a text is proper. -/
theorem proper_of_parse {s : String} {x : Json} (h : parse s = .ok x) : Proper x := by
  unfold parse parseChars at h
  split at h
  · cases h
  · cases hvalue : parseValue (2 * s.toList.length + 2) (skipSpace s.toList) with
    | error e =>
      rw [hvalue] at h
      cases h
    | ok found =>
      rw [hvalue] at h
      dsimp only [bind, Except.bind] at h
      split at h
      · cases h
        exact (readsProper _).value hvalue
      · cases h

/-! ## Members of values -/

theorem Proper.asPair {x : Json} {p : Json × Json} (hx : Proper x) (h : x.asPair = .ok p) :
    Proper p.1 ∧ Proper p.2 := by
  unfold Json.asPair at h
  split at h
  · cases h
    exact ⟨hx.items _ (by simp), hx.items _ (by simp)⟩
  · split at h
    · cases h
      exact ⟨.str _, .str _⟩
    · cases h
  · cases h
    exact ⟨.str _, .str _⟩
  all_goals cases h

theorem Distinct.putPairs {fields more : Fields} {items : List Json} (hfields : Distinct fields)
    (h : Json.putPairs fields items = .ok more) : Distinct more := by
  induction items generalizing fields with
  | nil =>
    cases h
    exact hfields
  | cons x rest ih =>
    rw [Json.putPairs] at h
    obtain ⟨⟨name, value⟩, _, h⟩ := bind_eq_ok.mp h
    dsimp only at h
    split at h
    · exact ih (hfields.put _ _) h
    · cases h

/-- Whatever is merged in, names stay distinct. -/
theorem Distinct.mergeValue {fields more : Fields} {x : Json} (hfields : Distinct fields)
    (h : Json.mergeValue fields x = .ok more) : Distinct more := by
  unfold Json.mergeValue at h
  split at h
  · cases h
    exact hfields.merge _
  · exact hfields.putPairs h
  · exact hfields.putPairs h
  · cases h

theorem ProperFields.putPairs {fields more : Fields} {items : List Json} (hfields : ProperFields fields)
    (hitems : ∀ x ∈ items, Proper x) (h : Json.putPairs fields items = .ok more) :
    ProperFields more := by
  induction items generalizing fields with
  | nil =>
    cases h
    exact hfields
  | cons x rest ih =>
    rw [Json.putPairs] at h
    obtain ⟨⟨name, value⟩, hpair, h⟩ := bind_eq_ok.mp h
    dsimp only at h
    split at h
    · next name _ =>
      have hvalue := ((hitems x List.mem_cons_self).asPair hpair).2
      exact ih (hfields.put name hvalue) (fun y hy => hitems y (List.mem_cons_of_mem x hy)) h
    · cases h

/-- Members taken over from a value are proper if it is. -/
theorem ProperFields.mergeValue {fields more : Fields} {x : Json} (hfields : ProperFields fields)
    (hx : Proper x) (h : Json.mergeValue fields x = .ok more) : ProperFields more := by
  unfold Json.mergeValue at h
  split at h
  · cases h
    exact hfields.merge hx.fields
  · exact hfields.putPairs hx.items h
  · refine hfields.putPairs (fun y hy => ?_) h
    obtain ⟨c, _, rfl⟩ := List.mem_map.mp hy
    exact .str _
  · cases h

/-! ## Values inside values -/

theorem sizeOf_item_lt {items : List Json} {x : Json} (h : x ∈ items) :
    sizeOf x < sizeOf (Json.arr items) := by
  have hsize := List.sizeOf_lt_of_mem h
  rw [Json.arr.sizeOf_spec]
  omega

theorem sizeOf_member_lt {fields : Fields} {m : Str × Json} (h : m ∈ fields) :
    sizeOf m.2 < sizeOf (Json.obj fields) := by
  obtain ⟨name, x⟩ := m
  have hsize := List.sizeOf_lt_of_mem h
  rw [Prod.mk.sizeOf_spec] at hsize
  rw [Json.obj.sizeOf_spec]
  show sizeOf x < _
  omega

/-- The second of a pair is a string, or stands in a list of two. -/
theorem second_of_asPair {x : Json} {p : Json × Json} (h : x.asPair = .ok p) :
    (∃ s, p.2 = .str s) ∨ ∃ a, x = .arr [a, p.2] := by
  unfold Json.asPair at h
  split at h
  · cases h
    exact Or.inr ⟨_, rfl⟩
  · split at h
    · cases h
      exact Or.inl ⟨_, rfl⟩
    · cases h
  · cases h
    exact Or.inl ⟨_, rfl⟩
  all_goals cases h

theorem mem_putPairs {fields more : Fields} {items : List Json} {m : Str × Json}
    (h : Json.putPairs fields items = .ok more) (hm : m ∈ more) :
    m ∈ fields ∨ ∃ x ∈ items, ∃ n, x.asPair = .ok (n, m.2) := by
  induction items generalizing fields with
  | nil =>
    cases h
    exact Or.inl hm
  | cons x rest ih =>
    rw [Json.putPairs] at h
    obtain ⟨⟨name, value⟩, hpair, h⟩ := bind_eq_ok.mp h
    dsimp only at h
    split at h
    · rcases ih h with hput | ⟨y, hy, hvalue⟩
      · rcases mem_put hput with rfl | hm
        · exact Or.inr ⟨x, List.mem_cons_self, name, hpair⟩
        · exact Or.inl hm
      · exact Or.inr ⟨y, List.mem_cons_of_mem x hy, hvalue⟩
    · cases h

/-- No value is a member of itself. -/
theorem ne_of_mem_membersOf {x : Json} {members : Fields} {m : Str × Json}
    (h : Json.membersOf x = .ok members) (hm : m ∈ members) : m.2 ≠ x := by
  unfold Json.membersOf Json.mergeValue at h
  split at h
  · next fields =>
    cases h
    have hsize := sizeOf_member_lt ((mem_merge hm).resolve_left List.not_mem_nil)
    exact fun heq => absurd (heq ▸ hsize) (Nat.lt_irrefl _)
  · next items =>
    obtain ⟨y, hy, n, hpair⟩ := (mem_putPairs h hm).resolve_left List.not_mem_nil
    intro heq
    rcases second_of_asPair hpair with ⟨s, hs⟩ | ⟨a, ha⟩
    · rw [show m.2 = .str s from hs] at heq
      cases heq
    · have houter := sizeOf_item_lt hy
      have hinner : sizeOf m.2 < sizeOf (Json.arr [a, m.2]) :=
        sizeOf_item_lt (List.mem_cons_of_mem a List.mem_cons_self)
      rw [← heq, ha] at houter
      exact absurd (Nat.lt_trans houter hinner) (Nat.lt_irrefl _)
  · -- a letter alone is no pair
    obtain ⟨y, hy, n, hpair⟩ := (mem_putPairs h hm).resolve_left List.not_mem_nil
    obtain ⟨c, _, rfl⟩ := List.mem_map.mp hy
    simp [Json.text, Json.asPair] at hpair
  · cases h

/-- The members of an object are those it has. -/
theorem membersOf_obj {fields : Fields} (h : Distinct fields) :
    Json.membersOf (.obj fields) = .ok fields :=
  congrArg Except.ok (merge_empty h)

end EventCodegen.Json
