import EventCodegen.Proofs.EventShapes
import EventCodegen.Proofs.Generations

/-! Strict mode and the warnings about a plan go through the same parameters independently and
agree. A strict run stops at the first event, in the order of the plan, that is warned about for its
screen (`resolveAll_error_iff` for one category, `buildFiles_error_iff` for all of them; nothing
else in a run fails in that way, `generateCategories_error_iff`). Resolving shares two things
between the events of a category, the values met so far and the scope of type names. With these as
a state (`resolveShared`), an event that is stopped leaves the state alone and the others change it
as the pure rules say (`run_resolveShared`, `run_resolveEvents`). An event is warned about for
repeated keys exactly if a parameter of it is dropped, which its number of fields tells
(`repeats_iff_length`). -/
namespace EventCodegen

/-! ## Warnings by their endings -/

/-- A warning whose message ends in a text. -/
def Warning.EndsIn (ending : String) (x : Warning) : Prop := ∃ start, x.message = start ++ ending

/-- How a warning about a missing screen ends. -/
def noScreenText : String := " has no screen_name parameter"

/-- How a warning about repeated keys ends. -/
def repeatedKeysText : String := " repeats parameter keys, first occurrence is used"

/-- The last character of a text that is not empty is that of all texts that end in it. -/
theorem Warning.EndsIn.getLast? {ending : String} {x : Warning} (h : x.EndsIn ending) {c : Char}
    (hc : ending.toList.getLast? = some c) : x.message.toList.getLast? = some c := by
  obtain ⟨start, hstart⟩ := h
  rw [hstart, String.toList_append, List.getLast?_append, hc, Option.some_or]

theorem Warning.endsIn_noScreen (category event : String) :
    (Warning.noScreen category event).EndsIn noScreenText :=
  ⟨"Event " ++ category ++ "." ++ event, rfl⟩

theorem Warning.endsIn_repeatedKeys (category event : String) :
    (Warning.repeatedKeys category event).EndsIn repeatedKeysText :=
  ⟨"Event " ++ category ++ "." ++ event, rfl⟩

/-- A message with one ending does not have one with another last character. -/
theorem Warning.EndsIn.not_endsIn {ending other : String} {x : Warning} (h : x.EndsIn ending)
    {c d : Char} (hc : ending.toList.getLast? = some c) (hd : other.toList.getLast? = some d)
    (hne : c ≠ d) : ¬x.EndsIn other := by
  intro hother
  have heq := (h.getLast? hc).symm.trans (hother.getLast? hd)
  exact hne (Option.some.inj heq)

/-- An event is warned about in words that end in a text. -/
def Event.Warns (e : Event) (category ending : String) : Prop :=
  ∃ x ∈ e.warnings category, x.EndsIn ending

theorem Event.screen?_eq_none_iff (e : Event) : e.screen? = none ↔ screenKey ∉ e.keys := by
  rw [Event.screen?, List.find?_eq_none, Event.keys, List.mem_map, not_exists]
  exact forall_congr' fun p => by rw [not_and, beq_iff_eq]

/-- Exactly the events without a screen are warned about for it. -/
theorem Event.warns_noScreen_iff (e : Event) (category : String) :
    e.Warns category noScreenText ↔ e.screen? = none := by
  rw [Event.screen?_eq_none_iff]
  constructor
  · rintro ⟨x, hx, hends⟩ hscreen
    rw [Event.warnings, if_pos hscreen, List.nil_append] at hx
    split at hx
    · cases hx
    · rw [List.mem_singleton.mp hx] at hends
      exact (Warning.endsIn_repeatedKeys category e.name).not_endsIn (c := 'd') (d := 'r') rfl rfl
        (by decide) hends
  · intro hscreen
    refine ⟨.noScreen category e.name, ?_, Warning.endsIn_noScreen category e.name⟩
    rw [Event.warnings, if_neg hscreen]
    exact List.mem_append_left _ List.mem_cons_self

/-- Exactly the events with repeated keys are warned about for them. -/
theorem Event.warns_repeatedKeys_iff (e : Event) (category : String) :
    e.Warns category repeatedKeysText ↔ ¬e.keys.Nodup := by
  constructor
  · rintro ⟨x, hx, hends⟩ hnodup
    rw [Event.warnings, if_pos hnodup, List.append_nil] at hx
    split at hx
    · cases hx
    · rw [List.mem_singleton.mp hx] at hends
      exact (Warning.endsIn_noScreen category e.name).not_endsIn (c := 'r') (d := 'd') rfl rfl
        (by decide) hends
  · intro hnodup
    refine ⟨.repeatedKeys category e.name, ?_, Warning.endsIn_repeatedKeys category e.name⟩
    rw [Event.warnings, if_neg hnodup]
    exact List.mem_append_right _ List.mem_cons_self

/-! ## The first event without a screen -/

/-- The events of a plan in its order, each with its category. -/
def eventsOf (categories : List Category) : List (Category × Event) :=
  categories.flatMap fun c => c.events.map (c, ·)

/-- What strict mode says of the first event without a screen. -/
def firstMissing (categories : List Category) : Option MissingScreen :=
  ((eventsOf categories).find? (·.2.screen?.isNone)).map fun p => ⟨p.1.name, p.2.name⟩

theorem firstMissing_cons (c : Category) (rest : List Category) :
    firstMissing (c :: rest) =
      ((c.events.find? (·.screen?.isNone)).map fun e => ⟨c.name, e.name⟩).or
        (firstMissing rest) := by
  rw [firstMissing, eventsOf, List.flatMap_cons, ← eventsOf, List.find?_append, List.find?_map,
    Option.map_or, Option.map_map, firstMissing]
  rfl

/-- Warnings about a plan speak of a missing screen exactly if an event lacks it. -/
theorem warns_noScreen_iff (categories : List Category) :
    (∃ x ∈ categories.flatMap Category.warnings, x.EndsIn noScreenText) ↔
      ∃ p ∈ eventsOf categories, p.2.screen? = none := by
  constructor
  · rintro ⟨x, hx, hends⟩
    obtain ⟨c, hc, hx⟩ := List.mem_flatMap.mp hx
    rcases List.mem_append.mp hx with hx | hx
    · split at hx
      · rw [List.mem_singleton.mp hx] at hends
        have hempty : (Warning.emptyCategory c.name).EndsIn "' has no events" :=
          ⟨"Category '" ++ c.name, rfl⟩
        exact absurd hends (hempty.not_endsIn (c := 's') (d := 'r') rfl rfl (by decide))
      · cases hx
    · obtain ⟨e, he, hx⟩ := List.mem_flatMap.mp hx
      exact ⟨(c, e), List.mem_flatMap.mpr ⟨c, hc, List.mem_map_of_mem he⟩,
        (e.warns_noScreen_iff c.name).mp ⟨x, hx, hends⟩⟩
  · rintro ⟨p, hp, hscreen⟩
    obtain ⟨c, hc, hp⟩ := List.mem_flatMap.mp hp
    obtain ⟨e, he, rfl⟩ := List.mem_map.mp hp
    obtain ⟨x, hx, hends⟩ := (e.warns_noScreen_iff c.name).mpr hscreen
    exact ⟨x, List.mem_flatMap.mpr ⟨c, hc, List.mem_append_right _
      (List.mem_flatMap.mpr ⟨e, he, hx⟩)⟩, hends⟩

theorem exists_firstMissing_iff (categories : List Category) :
    (∃ err, firstMissing categories = some err) ↔
      ∃ p ∈ eventsOf categories, p.2.screen? = none := by
  rw [← Option.isSome_iff_exists, firstMissing, Option.isSome_map, List.find?_isSome]
  exact exists_congr fun p => and_congr_right fun _ => Option.isNone_iff_eq_none

/-- The event that strict mode names is the first one that is warned about. -/
theorem firstMissing_split {categories : List Category} {err : MissingScreen}
    (h : firstMissing categories = some err) :
    ∃ before c e after, eventsOf categories = before ++ (c, e) :: after ∧
      (∀ p ∈ before, p.2.screen? ≠ none) ∧ e.screen? = none ∧ err = ⟨c.name, e.name⟩ := by
  obtain ⟨⟨c, e⟩, hfind, rfl⟩ := Option.map_eq_some_iff.mp h
  obtain ⟨hnone, before, after, heq, hbefore⟩ := List.find?_eq_some_iff_append.mp hfind
  refine ⟨before, c, e, after, heq, fun p hp => ?_, Option.isNone_iff_eq_none.mp hnone, rfl⟩
  have hsome := hbefore p hp
  rwa [Bool.not_eq_true', Option.isNone_eq_false_iff, Option.isSome_iff_ne_none] at hsome

/-! ## Strict runs -/

namespace Shape

variable {rules : Scope} {category : String} {err : MissingScreen}

theorem resolve_strict_of_none {types : Scope} {e : Event} (h : e.screen? = none) :
    resolve rules true category types e = .error ⟨category, e.name⟩ := by
  rw [resolve, admits, h]
  rfl

theorem resolve_strict_of_some {types : Scope} {e : Event} (h : e.screen? ≠ none) :
    resolve rules true category types e = .ok (resolved rules types e) := by
  rw [resolve, admits, Option.isSome_iff_ne_none.mpr h]
  rfl

theorem resolve_error {strict : Bool} {types : Scope} {e : Event}
    (h : resolve rules strict category types e = .error err) :
    e.screen? = none ∧ err = ⟨category, e.name⟩ := by
  unfold resolve at h
  split at h
  · cases h
  · next hstopped =>
    cases h
    simp only [admits, Bool.or_eq_true, Bool.not_eq_true', not_or, Bool.not_eq_true,
      Option.isSome_eq_false_iff, Option.isNone_iff_eq_none] at hstopped
    exact ⟨hstopped.2, rfl⟩

/-- In strict mode the events of a category are resolved up to the first without a screen. -/
theorem resolveAll_error_iff (events : List Event) (types : Scope) :
    resolveAll rules true category types events = .error err ↔
      (events.find? (·.screen?.isNone)).map (fun e => ⟨category, e.name⟩) = some err := by
  induction events generalizing types with
  | nil =>
    constructor
    · intro h
      cases h
    · intro h
      cases h
  | cons e rest ih =>
    rw [resolveAll]
    cases hscreen : e.screen? with
    | none =>
      rw [resolve_strict_of_none hscreen, List.find?_cons_of_pos (by rw [hscreen]; rfl)]
      show (.error ⟨category, e.name⟩ : Except MissingScreen (List ResolvedEvent)) = .error err ↔ _
      rw [Except.error.injEq, Option.map_some, Option.some.injEq]
    | some p =>
      have hne : e.screen? ≠ none := by rw [hscreen]; exact Option.some_ne_none p
      have hrest := ih (resolved rules types e).2
      rw [resolve_strict_of_some hne,
        List.find?_cons_of_neg (by rw [hscreen]; exact Bool.false_ne_true)]
      generalize resolved rules types e = pair at hrest
      obtain ⟨r, after⟩ := pair
      exact bind_ok_eq_error.trans hrest

end Shape

namespace Session

variable {s : Session} {err : MissingScreen}

theorem moduleOf_error_iff (hstrict : s.settings.isStrict = true) (c : Category) :
    s.moduleOf c = .error err ↔
      (c.events.find? (·.screen?.isNone)).map (fun e => ⟨c.name, e.name⟩) = some err := by
  have hevents : Shape.resolveAll s.rules true c.name (Shape.typeScope s.rules) c.events =
      .error err ↔ _ := Shape.resolveAll_error_iff c.events (Shape.typeScope s.rules)
  rw [← hevents, moduleOf, hstrict]
  constructor
  · exact CategoryModule.ofCategory_error
  · intro h
    rw [CategoryModule.ofCategory, Shape.resolveCategory, h]
    rfl

/-- The files of a plan are built in strict mode up to the first event without a screen. -/
theorem buildFiles_error_iff (hstrict : s.settings.isStrict = true) {n : Int}
    (hwidth : Indent.ofJson s.generator.settings.indentSize = .spaces n) :
    ∀ categories : List Category, (s.buildFiles categories).outcome = .error (.missingScreen err) ↔
      firstMissing categories = some err
  | [] => by
    constructor
    · intro h
      cases h
    · intro h
      cases h
  | c :: rest => by
    have hmodule : ∀ err, s.moduleOf c = .error err ↔ (c.events.find? (·.screen?.isNone)).map
        (fun e => ⟨c.name, e.name⟩) = some err := fun err => moduleOf_error_iff hstrict c
    have hrest := buildFiles_error_iff hstrict hwidth rest
    rw [outcome_buildFiles_cons, firstMissing_cons]
    cases hm : s.moduleOf c with
    | error err' =>
      rw [(hmodule err').mp hm, Option.some_or, Option.some.injEq]
      show (.error (.missingScreen err') : Except Failure _) = .error (.missingScreen err) ↔ _
      rw [Except.error.injEq, Failure.missingScreen.injEq]
    | ok m =>
      have hnone : (c.events.find? (·.screen?.isNone)).map
          (fun e => (⟨c.name, e.name⟩ : MissingScreen)) = none := by
        rw [Option.eq_none_iff_forall_ne_some]
        intro err' herr'
        rw [(hmodule err').mpr herr'] at hm
        cases hm
      rw [hnone, Option.none_or, ← hrest]
      show s.categoryFile m >>= _ = _ ↔ _
      rw [categoryFile_ok hwidth]
      show (s.buildFiles rest).outcome >>= _ = _ ↔ _
      exact bind_ok_eq_error

theorem generation_error_iff {package : String} (hs : s.Usable package)
    (hstrict : s.settings.isStrict = true) (categories : List Category) :
    (s.generation categories).outcome = .error (.missingScreen err) ↔
      firstMissing categories = some err := by
  obtain ⟨own, hown⟩ := hs.warnings_ok
  obtain ⟨n, hwidth⟩ := hs.width
  rw [← buildFiles_error_iff hstrict hwidth, outcome_generation, hown,
    baseFile_ok hs.package hwidth]
  show (s.buildFiles categories).outcome >>= (fun built => .ok _) = _ ↔ _
  exact bind_ok_eq_error

theorem onFiles_ne_missingScreen {α : Type} {f : FileTree → Except FileError α × FileTree}
    {w w' : World} : (Run.onFiles f).apply w ≠ (.error (.missingScreen err), w') := by
  intro h
  rw [Run.apply_onFiles, Prod.mk.injEq] at h
  generalize (f w.files).1 = outcome at h
  cases outcome with
  | error e => cases h.1
  | ok a => cases h.1

/-- Writing does not ask for a screen. -/
theorem write_ne_missingScreen (output : Output) (f : GeneratedFile) {w w' : World} :
    (output.write f).apply w ≠ (.error (.missingScreen err), w') := by
  intro h
  cases output with
  | memory => cases h
  | directory d =>
    rcases Run.error_of_bind h with hmake | ⟨_, w₁, _, h⟩
    · exact onFiles_ne_missingScreen hmake
    · split at h
      · cases h
      · rcases Run.error_of_bind h with hreplace | ⟨_, w₂, _, h⟩
        · exact onFiles_ne_missingScreen hreplace
        · cases h

/-- A run lacks a screen exactly if its generation does: no write fails like that. -/
theorem generateCategories_error_iff (output : Output) (categories : List Category) (w : World) :
    (∃ w', (s.generateCategories output categories).apply w = (.error (.missingScreen err), w')) ↔
      (s.generation categories).outcome = .error (.missingScreen err) := by
  constructor
  · rintro ⟨w', h⟩
    rcases Run.error_of_bind h with hgeneration | ⟨g, w₁, _, h⟩
    · rw [Run.apply_ofTraced, Prod.mk.injEq] at hgeneration
      exact hgeneration.1
    · rcases Run.error_of_bind h with hwrites | ⟨_, _, _, h⟩
      · rw [Output.writeAll_eq] at hwrites
        rcases mapM_write_cases output.write g.files w₁ with ⟨_, _, heq, _⟩ | ⟨e, _, heq, hfails⟩
        · rw [heq] at hwrites
          cases hwrites
        · rw [heq] at hwrites
          cases hwrites
          obtain ⟨_, f, _, _, _, _, _, hf⟩ := hfails
          exact absurd hf (write_ne_missingScreen output f)
      · cases h
  · intro h
    have hgeneration : (Run.ofTraced (s.generation categories)).apply w =
        (.error (.missingScreen err), w.noting (s.generation categories).notes) := by
      rw [Run.apply_ofTraced, h]
    exact ⟨_, Run.apply_bind_of_error hgeneration⟩

end Session

/-! ## What the events of a category share -/

namespace Shape

/-- The predefined values met so far, and the scope of type names. -/
structure Shared where
  values : List String
  types : Scope

/-- What a category starts from. -/
def Shared.start (rules : Scope) : Shared := ⟨[], typeScope rules⟩

section
variable (rules : Scope) (strict : Bool) (category : String)

/-- Resolves an event in what the events before it have left behind: it is stopped before anything
is changed, its values are noted, and then its type takes a name. -/
def resolveShared (e : Event) : ExceptT MissingScreen (StateM Shared) ResolvedEvent := do
  if !admits strict e then
    throw ⟨category, e.name⟩
  modify fun shared => { shared with values := addNew shared.values e.values }
  let shared ← get
  let (r, types) := resolved rules shared.types e
  set { shared with types }
  return r

/-- Resolves events one after the other. -/
def resolveEvents (events : List Event) :
    ExceptT MissingScreen (StateM Shared) (List ResolvedEvent) :=
  events.mapM (resolveShared rules strict category)

theorem run_resolveShared (e : Event) (shared : Shared) :
    (resolveShared rules strict category e).run.run shared =
      match resolve rules strict category shared.types e with
      | .ok (r, types) => (.ok r, ⟨addNew shared.values r.values, types⟩)
      | .error err => (.error err, shared) := by
  unfold resolveShared resolve
  cases admits strict e with
  | true => rfl
  | false => rfl

theorem resolveEvents_cons (e : Event) (rest : List Event) (shared : Shared) :
    (resolveEvents rules strict category (e :: rest)).run.run shared =
      match resolve rules strict category shared.types e with
      | .ok (r, types) =>
        match (resolveEvents rules strict category rest).run.run
            ⟨addNew shared.values r.values, types⟩ with
        | (.ok rs, after) => (.ok (r :: rs), after)
        | (.error err, after) => (.error err, after)
      | .error err => (.error err, shared) := by
  have hfirst := run_resolveShared rules strict category e shared
  rw [resolveEvents, List.mapM_cons, ExceptT.run_bind, StateT.run_bind, hfirst]
  cases resolve rules strict category shared.types e with
  | error err => rfl
  | ok pair =>
    obtain ⟨r, types⟩ := pair
    show (ExceptT.run (resolveEvents rules strict category rest >>= fun rs => pure (r :: rs))).run
      ⟨addNew shared.values r.values, types⟩ = _
    rw [ExceptT.run_bind, StateT.run_bind]
    dsimp only
    rcases (resolveEvents rules strict category rest).run.run ⟨addNew shared.values r.values, types⟩
      with ⟨err | rs, after⟩
    · rfl
    · rfl

/-- Resolving with shared state gives what the pure rules give, with the predefined values beside
it; where it stops, the state is that after the events before. -/
theorem run_resolveEvents (events : List Event) (shared : Shared) :
    match resolveAll rules strict category shared.types events with
    | .ok rs => ∃ types, (resolveEvents rules strict category events).run.run shared =
        (.ok rs, ⟨rs.foldl (fun known r => addNew known r.values) shared.values, types⟩)
    | .error err => ∃ before e after rs stopped, events = before ++ e :: after ∧
        e.screen? = none ∧ err = ⟨category, e.name⟩ ∧
        (resolveEvents rules strict category before).run.run shared = (.ok rs, stopped) ∧
        (resolveEvents rules strict category events).run.run shared = (.error err, stopped) := by
  induction events generalizing shared with
  | nil => exact ⟨shared.types, rfl⟩
  | cons e rest ih =>
    have hcons := resolveEvents_cons rules strict category e
    rw [resolveAll]
    cases hr : resolve rules strict category shared.types e with
    | error err =>
      obtain ⟨hscreen, herr⟩ := resolve_error hr
      exact ⟨[], e, rest, [], shared, rfl, hscreen, herr, rfl, by rw [hcons, hr]⟩
    | ok pair =>
      obtain ⟨r, types⟩ := pair
      have hrest := ih ⟨addNew shared.values r.values, types⟩
      dsimp only [bind, Except.bind, pure, Except.pure] at hrest ⊢
      cases hall : resolveAll rules strict category types rest with
      | ok rs =>
        rw [hall] at hrest
        obtain ⟨after, hrun⟩ := hrest
        refine ⟨after, ?_⟩
        rw [hcons, hr]
        dsimp only
        rw [hrun]
        rfl
      | error err =>
        rw [hall] at hrest
        obtain ⟨before, e', after, rs, stopped, heq, hscreen, herr, hbefore, hrun⟩ := hrest
        refine ⟨e :: before, e', after, r :: rs, stopped, by rw [heq]; rfl, hscreen, herr, ?_, ?_⟩
        · rw [hcons, hr]
          dsimp only
          rw [hbefore]
        · rw [hcons, hr]
          dsimp only
          rw [hrun]

end

end Shape

/-! ## Repeated keys -/

/-- A parameter whose key an earlier one has already. -/
def Event.Repeats (e : Event) : Prop :=
  ∃ before p after, e.parameters = before ++ p :: after ∧ p.key ∈ before.map (·.key)

theorem Event.repeats_iff (e : Event) : e.Repeats ↔ ¬e.keys.Nodup := by
  unfold Event.Repeats Event.keys
  generalize e.parameters = parameters
  constructor
  · rintro ⟨before, p, after, rfl, hp⟩ hnodup
    rw [List.map_append, List.map_cons] at hnodup
    exact List.disjoint_of_nodup_append hnodup hp List.mem_cons_self
  · intro hdup
    induction parameters using List.reverseRecOn with
    | nil => exact absurd List.nodup_nil hdup
    | append_singleton init p ih =>
      by_cases hp : p.key ∈ init.map (·.key)
      · exact ⟨init, p, [], rfl, hp⟩
      · -- the last key is new, so an earlier one comes again
        have hinit : ¬(init.map (·.key)).Nodup := by
          intro hnodup
          refine hdup ?_
          rw [List.map_append, List.map_singleton, ← List.concat_eq_append]
          exact List.Nodup.concat hp hnodup
        obtain ⟨before, q, after, rfl, hq⟩ := ih hinit
        exact ⟨before, q, after ++ [p], by rw [List.append_assoc, List.cons_append], hq⟩

/-- A list is as long as one with the same elements and no repetitions exactly if it has no
repetitions either. -/
theorem length_eq_iff_nodup {α : Type} {kept all : List α} (hnodup : kept.Nodup)
    (hmem : ∀ a, a ∈ kept ↔ a ∈ all) : all.length = kept.length ↔ all.Nodup := by
  constructor
  · intro hlength
    have hsub : kept.Subperm all := List.subperm_of_subset hnodup fun a => (hmem a).mp
    exact (hsub.perm_of_length_le hlength.le).nodup_iff.mp hnodup
  · intro hall
    exact (((List.perm_ext_iff_of_nodup hnodup hall).mpr hmem).length_eq).symm

/-- The parameters that nothing is dropped of are as many as the fields, and one more for the
screen. -/
theorem repeats_iff_length (rules types : Scope) (e : Event) :
    e.Repeats ↔ e.parameters.length ≠
      (Shape.resolved rules types e).1.fields.length + if e.screen?.isSome then 1 else 0 := by
  have hkept := Shape.nodup_keys_resolved rules types e
  have hmem := Shape.key_mem_resolved_iff rules types e
  have hfields : (Shape.resolved rules types e).1.fields.length =
      ((Shape.resolved rules types e).1.fields.map (·.key)).length := (List.length_map _).symm
  have hkeys : e.parameters.length = e.keys.length := (List.length_map _).symm
  have hkey : ∀ key, (∃ p ∈ e.parameters, p.key = key) ↔ key ∈ e.keys :=
    fun key => List.mem_map.symm
  rw [e.repeats_iff, not_iff_not, hfields, hkeys]
  generalize (Shape.resolved rules types e).1.fields.map (·.key) = kept at hkept hmem
  cases hscreen : e.screen? with
  | none =>
    have hnone := e.screen?_eq_none_iff.mp hscreen
    refine (length_eq_iff_nodup hkept fun key => ?_).symm
    rw [hmem, hkey, and_iff_left_iff_imp]
    rintro h rfl
    exact hnone h
  | some p =>
    have hsome : screenKey ∈ e.keys := by
      by_contra hnone
      rw [← e.screen?_eq_none_iff, hscreen] at hnone
      cases hnone
    have hnodup : (screenKey :: kept).Nodup :=
      List.nodup_cons.mpr ⟨fun h => ((hmem screenKey).mp h).2 rfl, hkept⟩
    refine (length_eq_iff_nodup hnodup fun key => ?_).symm
    rw [List.mem_cons, hmem, hkey]
    constructor
    · rintro (rfl | h)
      · exact hsome
      · exact h.1
    · intro h
      by_cases hkey : key = screenKey
      · exact .inl hkey
      · exact .inr ⟨h, hkey⟩

/-! ## The two agree -/

/-- A strict run with usable settings lacks a screen exactly if a warning about the plan says so,
and names the first event that is warned about for it. An event that strict mode stops leaves the
values and the scope of its category as they are, and the others change them as the rules say. An
event is warned about for repeated keys exactly if a parameter of it is dropped, so exactly if its
parameters are not as many as its fields and, if there is one, its screen. -/
theorem strict_runs_agree_with_warnings :
    (∀ {s : Session} {package : String}, s.Usable package → s.settings.isStrict = true →
      ∀ (output : Output) (categories : List Category) (w : World),
        ((∃ err w', (s.generateCategories output categories).apply w =
            (.error (.missingScreen err), w')) ↔
          ∃ x ∈ categories.flatMap Category.warnings, x.EndsIn noScreenText) ∧
        ∀ err w', (s.generateCategories output categories).apply w =
            (.error (.missingScreen err), w') →
          ∃ before c e after, eventsOf categories = before ++ (c, e) :: after ∧
            (∀ p ∈ before, ¬p.2.Warns p.1.name noScreenText) ∧ e.Warns c.name noScreenText ∧
            err = ⟨c.name, e.name⟩) ∧
    (∀ (rules : Scope) (strict : Bool) (category : String) (e : Event) (shared : Shape.Shared),
      match Shape.resolve rules strict category shared.types e with
      | .ok (r, types) => (Shape.resolveShared rules strict category e).run.run shared =
          (.ok r, ⟨Shape.addNew shared.values r.values, types⟩)
      | .error err => (Shape.resolveShared rules strict category e).run.run shared =
          (.error err, shared)) ∧
    (∀ (rules : Scope) (strict : Bool) (c : Category),
      match Shape.resolveCategory rules strict c with
      | .ok rs => ∃ types, (Shape.resolveEvents rules strict c.name c.events).run.run
          (Shape.Shared.start rules) = (.ok rs, ⟨Shape.predefinedValues rs, types⟩)
      | .error err => ∃ before e after rs stopped, c.events = before ++ e :: after ∧
          e.screen? = none ∧ err = ⟨c.name, e.name⟩ ∧
          (Shape.resolveEvents rules strict c.name before).run.run (Shape.Shared.start rules) =
            (.ok rs, stopped) ∧
          (Shape.resolveEvents rules strict c.name c.events).run.run (Shape.Shared.start rules) =
            (.error err, stopped)) ∧
    (∀ (rules types types' : Scope) (strict : Bool) (category : String) (e : Event)
      (r : ResolvedEvent), Shape.resolve rules strict category types e = .ok (r, types') →
        (e.Warns category repeatedKeysText ↔ e.Repeats) ∧
        (e.Warns category repeatedKeysText ↔
          e.parameters.length ≠ r.fields.length + if e.screen?.isSome then 1 else 0)) := by
  refine ⟨?runs, ?shared, ?category, ?repeated⟩
  case runs =>
    intro s package hs hstrict output categories w
    have hrun : ∀ err, (∃ w', (s.generateCategories output categories).apply w =
        (.error (.missingScreen err), w')) ↔ firstMissing categories = some err := fun err =>
      (Session.generateCategories_error_iff output categories w).trans
        (Session.generation_error_iff hs hstrict categories)
    refine ⟨?_, fun err w' h => ?_⟩
    · rw [warns_noScreen_iff, ← exists_firstMissing_iff]
      exact exists_congr hrun
    · obtain ⟨before, c, e, after, heq, hbefore, hscreen, herr⟩ :=
        firstMissing_split ((hrun err).mp ⟨w', h⟩)
      refine ⟨before, c, e, after, heq, fun p hp => ?_, (e.warns_noScreen_iff c.name).mpr hscreen,
        herr⟩
      rw [Event.warns_noScreen_iff]
      exact hbefore p hp
  case shared =>
    intro rules strict category e shared
    rw [Shape.run_resolveShared]
    cases Shape.resolve rules strict category shared.types e with
    | ok pair => rfl
    | error err => rfl
  case category =>
    exact fun rules strict c =>
      Shape.run_resolveEvents rules strict c.name c.events (Shape.Shared.start rules)
  case repeated =>
    intro rules types types' strict category e r h
    have hr : r = (Shape.resolved rules types e).1 := by
      unfold Shape.resolve at h
      split at h
      · exact (congrArg Prod.fst (Except.ok.inj h)).symm
      · cases h
    rw [Event.warns_repeatedKeys_iff, ← Event.repeats_iff, hr]
    exact ⟨Iff.rfl, repeats_iff_length rules types e⟩

/-- A plan whose second event lacks its screen and whose third names it twice. -/
def unevenPlan : List Category :=
  [⟨"shop", [⟨"open", [⟨"screen_name", "home"⟩]⟩, ⟨"buy", [⟨"item", "1"⟩]⟩,
    ⟨"close", [⟨"screen_name", "home"⟩, ⟨"screen_name", "end"⟩]⟩]⟩]

/-- A session that asks every event for its screen. -/
def strictSession : Session :=
  { Session.standard .python with
    settings := { Generator.ownSettings .python with strictScreenName := .bool true } }

/-- The second event stops a strict run and changes nothing; one of the screens of the third is
dropped. -/
theorem strict_runs_agree_with_warnings_uneven :
    (∃ err w', (strictSession.generateCategories .memory unevenPlan).apply {} =
      (.error (.missingScreen err), w')) ∧
    (Shape.resolveShared Target.python.scope true "shop" ⟨"buy", [⟨"item", "1"⟩]⟩).run.run
        (Shape.Shared.start Target.python.scope) =
      (.error ⟨"shop", "buy"⟩, Shape.Shared.start Target.python.scope) ∧
    Event.Repeats ⟨"close", [⟨"screen_name", "home"⟩, ⟨"screen_name", "end"⟩]⟩ := by
  have husable : strictSession.Usable "analytics.events" := ⟨⟨_, rfl⟩, rfl, rfl, 4, rfl⟩
  obtain ⟨hruns, hshared, _, hrepeated⟩ := strict_runs_agree_with_warnings
  refine ⟨?_, hshared Target.python.scope true "shop" ⟨"buy", [⟨"item", "1"⟩]⟩
    (Shape.Shared.start Target.python.scope), ?_⟩
  · exact (hruns husable rfl .memory unevenPlan {}).1.mpr
      ⟨.noScreen "shop" "buy", by decide, "Event shop.buy", rfl⟩
  · exact (hrepeated Target.python.scope (Shape.typeScope Target.python.scope) _ true "shop" _ _
      rfl).1.mp ⟨.repeatedKeys "shop" "close", by decide, "Event shop.close", rfl⟩

end EventCodegen
