import EventCodegen.Proofs.FieldNames
import EventCodegen.Proofs.FirstOccurrences

/-! What an event is resolved to. Read off the parameters alone: the first screen name, whether
there is anything besides a single one, and the first occurrence of every other key (`Follows`).
So no distinct key is lost and no two are merged, whatever names the keys are turned into
(`resolve_follows`). -/
namespace EventCodegen.Shape

/-- What the plan says of the shape of an event. -/
structure Follows (e : Event) (r : ResolvedEvent) : Prop where
  screen : (∃ value, e.IsFirst ⟨screenKey, value⟩ ∧ r.screenName = value) ∨
    (∀ p ∈ e.parameters, p.key ≠ screenKey) ∧ r.screenName = ""
  simple : r.isSimple = true ↔
    e.parameters = [] ∨ ∃ p, e.parameters = [p] ∧ p.key = screenKey
  keys : r.fields.map (·.key) =
    ((e.parameters.map (·.key)).filter (· ≠ screenKey)).eraseDups
  values : ∀ f ∈ r.fields, e.IsFirst ⟨f.key, f.value⟩
  distinctKeys : (r.fields.map (·.key)).Nodup
  distinctNames : (r.fields.map (·.name)).Nodup
  simpleFields : r.isSimple = true → r.fields = []
  noFields : r.isSimple = false →
    (r.fields = [] ↔ 2 ≤ e.parameters.length ∧ ∀ p ∈ e.parameters, p.key = screenKey)
  mapped : ∀ p ∈ e.parameters, p.key ≠ screenKey → ∃! f, f ∈ r.fields ∧ f.key = p.key

section
variable (rules types : Scope) (e : Event)

theorem screen_resolved :
    (∃ value, e.IsFirst ⟨screenKey, value⟩ ∧ (resolved rules types e).1.screenName = value) ∨
      (∀ p ∈ e.parameters, p.key ≠ screenKey) ∧ (resolved rules types e).1.screenName = "" := by
  have hname : (resolved rules types e).1.screenName = (e.screen?.map (·.value)).getD "" := rfl
  cases hscreen : e.screen? with
  | none =>
    rw [hscreen] at hname
    refine Or.inr ⟨fun p hp => ?_, hname⟩
    simpa using List.find?_eq_none.mp hscreen p hp
  | some p =>
    rw [hscreen] at hname
    have hkey : p.key = screenKey := by simpa using List.find?_some hscreen
    have hp : (⟨screenKey, p.value⟩ : Parameter) = p := by rw [← hkey]
    refine Or.inl ⟨p.value, ?_, hname⟩
    rw [Event.isFirst_iff, hp, hkey]
    exact hscreen

theorem keys_resolved : (resolved rules types e).1.fields.map (·.key) =
    ((e.parameters.map (·.key)).filter (· ≠ screenKey)).eraseDups := by
  rw [fields_resolved, fields, keys_fieldsFrom, newTo_of_nothing]

theorem nodup_keys_resolved : ((resolved rules types e).1.fields.map (·.key)).Nodup := by
  rw [keys_resolved]
  exact nodup_eraseDups _

theorem key_mem_resolved_iff (key : String) :
    key ∈ (resolved rules types e).1.fields.map (·.key) ↔
      (∃ p ∈ e.parameters, p.key = key) ∧ key ≠ screenKey := by
  rw [keys_resolved, List.mem_eraseDups, List.mem_filter, List.mem_map, decide_eq_true_iff]

theorem fields_resolved_eq_nil_iff :
    (resolved rules types e).1.fields = [] ↔ ∀ p ∈ e.parameters, p.key = screenKey := by
  have hkeys := key_mem_resolved_iff rules types e
  generalize (resolved rules types e).1.fields = fields at hkeys
  constructor
  · rintro rfl p hp
    by_contra hne
    exact List.not_mem_nil ((hkeys p.key).mpr ⟨⟨p, hp, rfl⟩, hne⟩)
  · intro hall
    rw [List.eq_nil_iff_forall_not_mem]
    intro f hf
    obtain ⟨⟨p, hp, hkey⟩, hne⟩ := (hkeys f.key).mp (List.mem_map_of_mem hf)
    exact hne (hkey ▸ hall p hp)

/-- An event that is not simple though it has no key besides the screen name repeats that. -/
theorem two_le_length (hsimple : e.isSimple = false)
    (hall : ∀ p ∈ e.parameters, p.key = screenKey) : 2 ≤ e.parameters.length := by
  have hnot : ¬e.isSimple = true := by simp [hsimple]
  rw [e.simple_iff] at hnot
  cases hparameters : e.parameters with
  | nil => exact absurd (Or.inl hparameters) hnot
  | cons p rest =>
    cases rest with
    | nil =>
      refine absurd (Or.inr ⟨p, hparameters, hall p ?_⟩) hnot
      rw [hparameters]
      exact List.mem_singleton_self p
    | cons q rest => simp

theorem follows_resolved : Follows e (resolved rules types e).1 where
  screen := screen_resolved rules types e
  simple := e.simple_iff
  keys := keys_resolved rules types e
  values f hf := by
    rw [fields_resolved] at hf
    exact Event.isFirst_iff.mpr (find?_of_mem_fieldsFrom hf).2.2
  distinctKeys := nodup_keys_resolved rules types e
  distinctNames := by
    rw [fields_resolved]
    exact (nodup_fieldsFrom e.parameters rules.fork []).1
  simpleFields hsimple := if_pos hsimple
  noFields hsimple := by
    rw [fields_resolved_eq_nil_iff]
    exact ⟨fun hall => ⟨two_le_length e hsimple hall, hall⟩, And.right⟩
  mapped p hp hne := by
    have hkey := (key_mem_resolved_iff rules types e p.key).mpr ⟨⟨p, hp, rfl⟩, hne⟩
    obtain ⟨f, hf, hfkey⟩ := List.mem_map.mp hkey
    refine ⟨f, ⟨hf, hfkey⟩, fun g ⟨hg, hgkey⟩ => ?_⟩
    exact List.inj_on_of_nodup_map (nodup_keys_resolved rules types e) hg hf
      (hgkey.trans hfkey.symm)

end

/-- Resolving an event gives what the plan says of its shape, in every language and whatever types
there are already; it only fails in strict mode, for an event that names no screen. -/
theorem resolve_follows (t : Target) (strict : Bool) (category : String) (types : Scope)
    (e : Event) :
    match resolve t.scope strict category types e with
    | .error err => strict = true ∧ (∀ p ∈ e.parameters, p.key ≠ screenKey) ∧
        err = ⟨category, e.name⟩
    | .ok (r, _) => Follows e r := by
  unfold resolve
  cases hadmits : admits strict e with
  | true => exact follows_resolved t.scope types e
  | false =>
    obtain ⟨hstrict, hscreen⟩ : strict = true ∧ e.screen? = none := by
      simpa [admits] using hadmits
    refine ⟨hstrict, fun p hp => ?_, rfl⟩
    simpa using List.find?_eq_none.mp hscreen p hp

/-- Keys that are turned into one name keep a field each; a key that comes again adds none. -/
example : fields Target.python.scope [⟨"user_id", "1"⟩, ⟨"userId", "2"⟩, ⟨"user_id", "3"⟩] =
    [⟨"user_id", "userId", "1"⟩, ⟨"userId", "userId1", "2"⟩] := by decide +kernel

end EventCodegen.Shape
