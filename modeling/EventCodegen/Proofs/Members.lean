import Mathlib.Data.List.Basic
import Mathlib.Data.List.Forall2
import Mathlib.Data.List.Nodup
import EventCodegen.Json.Basic

/-! The members of objects. An object that has been read has each name once (`Distinct`), and what
puts members into it keeps it so. A member put in is the one looked up afterwards, so of two objects
merged the second comes first (`lookup_merge`); and members whose names are new go to the end in
their order (`merge_of_new`), so that merging into an object can be undone by names. -/
namespace EventCodegen.Json

variable {name other : Str} {value : Json} {fields base more : Fields}

/-! ## Names -/

/-- The names of members in their order. -/
def memberNames (fields : Fields) : List Str := fields.map (·.1)

/-- No two members have the same name. -/
def Distinct (fields : Fields) : Prop := (memberNames fields).Nodup

theorem mem_memberNames : name ∈ memberNames fields ↔ ∃ x, (name, x) ∈ fields := by
  constructor
  · intro h
    obtain ⟨m, hm, rfl⟩ := List.mem_map.mp h
    exact ⟨m.2, hm⟩
  · rintro ⟨x, hx⟩
    exact List.mem_map.mpr ⟨(name, x), hx, rfl⟩

theorem Distinct.tail {m : Str × Json} (h : Distinct (m :: fields)) : Distinct fields :=
  (List.nodup_cons.mp h).2

theorem Distinct.filter (h : Distinct fields) (p : Str × Json → Bool) :
    Distinct (fields.filter p) :=
  List.Nodup.sublist (List.filter_sublist.map _) h

/-! ## Looking up -/

theorem lookup_eq_none_iff : lookup name fields = none ↔ name ∉ memberNames fields := by
  induction fields with
  | nil => simp [lookup, memberNames]
  | cons m rest ih =>
    by_cases h : m.1 = name
    · simp [lookup, memberNames, h]
    · simp [lookup, h, ih, memberNames, Ne.symm h]

theorem mem_of_lookup (h : lookup name fields = some value) : (name, value) ∈ fields := by
  induction fields with
  | nil => cases h
  | cons m rest ih =>
    rw [lookup] at h
    split at h
    · next hm =>
      cases h
      rw [← hm]
      exact List.mem_cons_self
    · exact List.mem_cons_of_mem _ (ih h)

theorem lookup_of_mem (hd : Distinct fields) (h : (name, value) ∈ fields) :
    lookup name fields = some value := by
  induction fields with
  | nil => cases h
  | cons m rest ih =>
    rcases List.mem_cons.mp h with rfl | hrest
    · simp [lookup]
    · have hne : m.1 ≠ name := by
        rintro rfl
        exact (List.nodup_cons.mp hd).1 (mem_memberNames.mpr ⟨value, hrest⟩)
      rw [lookup, if_neg hne]
      exact ih hd.tail hrest

theorem lookup_append (name : Str) (first second : Fields) :
    lookup name (first ++ second) = (lookup name first).or (lookup name second) := by
  induction first with
  | nil => rfl
  | cons m rest ih =>
    by_cases h : m.1 = name
    · simp [lookup, h]
    · simp [lookup, h, ih]

/-- Of the members with certain names those are looked up as before, and no others. -/
theorem lookup_filter (p : Str → Bool) (name : Str) (fields : Fields) :
    lookup name (fields.filter fun m => p m.1) = if p name then lookup name fields else none := by
  induction fields with
  | nil => simp [lookup]
  | cons m rest ih =>
    rw [List.filter_cons]
    by_cases h : m.1 = name
    · subst h
      split
      · simp [lookup]
      · next hp => rw [ih, if_neg hp]
    · split
      · rw [lookup, if_neg h, ih, lookup, if_neg h]
      · rw [ih, lookup, if_neg h]

/-! ## Putting a member in -/

theorem lookup_put_eq (name other : Str) (value : Json) (fields : Fields) :
    lookup other (put name value fields) = if other = name then some value else lookup other fields := by
  by_cases h : other = name
  · rw [h, if_pos rfl, lookup_put]
  · rw [if_neg h, lookup_put_ne value fields h]

theorem put_of_new (h : name ∉ memberNames fields) :
    put name value fields = fields ++ [(name, value)] := by
  induction fields with
  | nil => rfl
  | cons m rest ih =>
    obtain ⟨hm, hrest⟩ := not_or.mp (List.mem_cons.not.mp h)
    rw [put, if_neg (Ne.symm hm), ih hrest, List.cons_append]

theorem memberNames_put (name : Str) (value : Json) (fields : Fields) :
    memberNames (put name value fields) =
      if name ∈ memberNames fields then memberNames fields else memberNames fields ++ [name] := by
  induction fields with
  | nil => rfl
  | cons m rest ih =>
    by_cases h : m.1 = name
    · simp [put, memberNames, h]
    · have hmem : name ∈ memberNames (m :: rest) ↔ name ∈ memberNames rest := by
        simp [memberNames, Ne.symm h]
      have hput : memberNames (put name value (m :: rest)) =
          m.1 :: memberNames (put name value rest) := by
        rw [put, if_neg h]
        rfl
      rw [hput, ih, if_congr hmem rfl rfl]
      split <;> rfl

theorem Distinct.put (h : Distinct fields) (name : Str) (value : Json) :
    Distinct (put name value fields) := by
  unfold Distinct
  rw [memberNames_put]
  split
  · exact h
  · next hnew =>
    refine List.nodup_append.mpr ⟨h, List.nodup_singleton name, ?_⟩
    rintro n hn _ hmem rfl
    exact hnew (List.mem_singleton.mp hmem ▸ hn)

theorem mem_put {m : Str × Json} (h : m ∈ put name value fields) :
    m = (name, value) ∨ m ∈ fields := by
  induction fields with
  | nil => exact Or.inl (List.mem_singleton.mp h)
  | cons first rest ih =>
    rw [Json.put] at h
    split at h
    · exact (List.mem_cons.mp h).imp_right (List.mem_cons_of_mem _)
    · rcases List.mem_cons.mp h with rfl | h
      · exact Or.inr List.mem_cons_self
      · exact (ih h).imp_right (List.mem_cons_of_mem _)

/-! ## Merging -/

theorem merge_cons (base : Fields) (m : Str × Json) (more : Fields) :
    merge base (m :: more) = merge (put m.1 m.2 base) more := rfl

theorem lookup_merge (h : Distinct more) (name : Str) (base : Fields) :
    lookup name (merge base more) = (lookup name more).or (lookup name base) := by
  induction more generalizing base with
  | nil => rfl
  | cons m rest ih =>
    rw [merge_cons, ih h.tail, lookup_put_eq, lookup]
    by_cases hm : m.1 = name
    · -- the name does not come again, so this member stays
      have hrest : lookup name rest = none := by
        rw [lookup_eq_none_iff, ← hm]
        exact (List.nodup_cons.mp h).1
      rw [hrest, if_pos hm, if_pos hm.symm]
      rfl
    · rw [if_neg hm, if_neg (Ne.symm hm)]

theorem Distinct.merge (h : Distinct base) (more : Fields) : Distinct (merge base more) := by
  induction more generalizing base with
  | nil => exact h
  | cons m rest ih => exact ih (h.put m.1 m.2)

theorem mem_merge {m : Str × Json} (h : m ∈ merge base more) : m ∈ base ∨ m ∈ more := by
  induction more generalizing base with
  | nil => exact Or.inl h
  | cons first rest ih =>
    rcases ih h with hput | hrest
    · rcases mem_put hput with rfl | hbase
      · exact Or.inr List.mem_cons_self
      · exact Or.inl hbase
    · exact Or.inr (List.mem_cons_of_mem _ hrest)

/-- Members whose names are all new go to the end as they are. -/
theorem merge_of_new (hd : Distinct more) (hnew : ∀ n ∈ memberNames more, n ∉ memberNames base) :
    merge base more = base ++ more := by
  induction more generalizing base with
  | nil => exact (List.append_nil base).symm
  | cons m rest ih =>
    obtain ⟨hm, hrest⟩ := List.nodup_cons.mp hd
    have hstep : ∀ n ∈ memberNames rest, n ∉ memberNames (base ++ [(m.1, m.2)]) := by
      intro n hn hmem
      rw [memberNames, List.map_append, List.mem_append] at hmem
      rcases hmem with hbase | hsame
      · exact hnew n (List.mem_cons_of_mem _ hn) hbase
      · exact hm (List.mem_singleton.mp hsame ▸ hn)
    rw [merge_cons, put_of_new (hnew m.1 List.mem_cons_self), ih hrest hstep, List.append_assoc,
      List.singleton_append]

theorem merge_empty (h : Distinct more) : merge [] more = more :=
  merge_of_new h fun _ _ => List.not_mem_nil

/-! ## Objects that differ in one member -/

/-- The same members in the same order, except that `name` may stand for something else. -/
def SameBut (name : Str) : Fields → Fields → Prop :=
  List.Forall₂ fun m m' => m.1 = m'.1 ∧ (m.1 ≠ name → m.2 = m'.2)

theorem SameBut.refl (name : Str) (fields : Fields) : SameBut name fields fields :=
  List.forall₂_same.mpr fun _ _ => ⟨rfl, fun _ => rfl⟩

/-- Putting a member into both keeps the difference to one name, even if it is put in differently
under that name. -/
theorem SameBut.put {fields' : Fields} (h : SameBut name fields fields') {other : Str}
    {value value' : Json} (hvalue : other ≠ name → value = value') :
    SameBut name (put other value fields) (put other value' fields') := by
  induction h with
  | nil => exact .cons ⟨rfl, hvalue⟩ .nil
  | @cons m m' rest rest' hm hrest ih =>
    rw [Json.put, Json.put, hm.1]
    split
    · exact .cons ⟨rfl, hvalue⟩ hrest
    · exact .cons ⟨rfl, fun hne => hm.2 (hm.1 ▸ hne)⟩ ih

theorem SameBut.merge {base' more' : Fields} (hbase : SameBut name base base')
    (hmore : SameBut name more more') : SameBut name (merge base more) (merge base' more') := by
  induction hmore generalizing base base' with
  | nil => exact hbase
  | cons hm _ ih =>
    rw [merge_cons, merge_cons, ← hm.1]
    exact ih (hbase.put hm.2)

/-- Without the name there is no difference. -/
theorem SameBut.eq_of_not_mem {fields' : Fields} (h : SameBut name fields fields')
    (hname : name ∉ memberNames fields) : fields = fields' := by
  induction h with
  | nil => rfl
  | cons hm _ ih =>
    obtain ⟨hne, hrest⟩ := not_or.mp (List.mem_cons.not.mp hname)
    rw [Prod.ext hm.1 (hm.2 (Ne.symm hne)), ih hrest]

/-- What is put in under the name takes the difference away. -/
theorem SameBut.put_eq {fields' : Fields} (h : SameBut name fields fields') (hd : Distinct fields)
    (value : Json) : Json.put name value fields = Json.put name value fields' := by
  induction h with
  | nil => rfl
  | @cons m m' rest rest' hm hrest ih =>
    rw [Json.put, Json.put, ← hm.1]
    split
    · next heq =>
      subst heq
      have hnone : m.1 ∉ memberNames rest := (List.nodup_cons.mp hd).1
      rw [SameBut.eq_of_not_mem hrest hnone]
    · next hne => rw [Prod.ext hm.1 (hm.2 hne), ih hd.tail]

end EventCodegen.Json
