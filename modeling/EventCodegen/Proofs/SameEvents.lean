import EventCodegen.Proofs.CapitalForms
import EventCodegen.Proofs.Generations

/-! The languages describe the same events. Their reserved words differ, but only the names of
fields and the segments of packages can be among them: a type name ends in `Event`, a container in
`Events`, and a constant has no small letter. So events are resolved in step, with the same type
names in use (`agree_resolve`, `agree_resolveAll`), the modules differ only in the names of fields
and in their paths (`agree_ofCategory`), and what a run counts is the same
(`same_events_in_all_languages`). -/
namespace EventCodegen

/-! ## What two languages share -/

/-- The keys and values of fields, whatever the fields are called. -/
def fieldContents (fields : List Field) : List (String × String) :=
  fields.map fun f => (f.key, f.value)

/-- Two resolved events that differ at most in the names of fields. -/
structure ResolvedEvent.Alike (r r' : ResolvedEvent) : Prop where
  eventName : r.eventName = r'.eventName
  typeName : r.typeName = r'.typeName
  isSimple : r.isSimple = r'.isSimple
  screenName : r.screenName = r'.screenName
  fields : fieldContents r.fields = fieldContents r'.fields
  values : r.values = r'.values

/-- Two event types that differ at most in the names of fields. -/
structure EventType.Alike (e e' : EventType) : Prop where
  name : e.name = e'.name
  eventName : e.eventName = e'.eventName
  categoryName : e.categoryName = e'.categoryName
  screenName : e.screenName = e'.screenName
  isSimple : e.isSimple = e'.isSimple
  fields : fieldContents e.fields = fieldContents e'.fields

/-- Two modules that differ at most in the names of fields and in their paths. -/
structure CategoryModule.Alike (m m' : CategoryModule) : Prop where
  categoryName : m.categoryName = m'.categoryName
  containerName : m.containerName = m'.containerName
  eventTypes : List.Forall₂ EventType.Alike m.eventTypes m'.eventTypes
  constants : m.constants = m'.constants

/-- Two runs that counted the same. -/
structure Metadata.SameCounts (d d' : Metadata) : Prop where
  categories : d.categories = d'.categories
  events : d.events = d'.events
  simpleEvents : d.simpleEvents = d'.simpleEvents
  parameterizedEvents : d.parameterizedEvents = d'.parameterizedEvents
  constants : d.constants = d'.constants

/-! ## Events -/

namespace Shape

/-- Which parameters become fields does not depend on the names that the fields get. -/
theorem fieldContents_fieldsFrom (scope scope' : Scope) (seen : List String)
    (parameters : List Parameter) :
    fieldContents (fieldsFrom scope seen parameters) =
      fieldContents (fieldsFrom scope' seen parameters) := by
  induction parameters generalizing scope scope' seen with
  | nil => rfl
  | cons p rest ih =>
    rw [fieldsFrom, fieldsFrom]
    split
    · exact ih scope scope' seen
    · exact congrArg ((p.key, p.value) :: ·) (ih _ _ (p.key :: seen))

/-- The scope of type names of a language, with some names in use. -/
def typesInUse (t : Target) (used : List String) : Scope := { typeScope t.scope with used }

/-- One event is resolved alike if the same type names are in use, and so they are afterwards. -/
theorem agree_resolve (t t' : Target) (strict : Bool) (category : String) (used : List String)
    (e : Event) :
    Agree (fun p p' => p.1.Alike p'.1 ∧
        ∃ used', p.2 = typesInUse t used' ∧ p'.2 = typesInUse t' used')
      (resolve t.scope strict category (typesInUse t used) e)
      (resolve t'.scope strict category (typesInUse t' used) e) := by
  have hname : ((typesInUse t used).unique (e.name ++ "_event") .pascal).1 =
      ((typesInUse t' used).unique (e.name ++ "_event") .pascal).1 := by
    show Scope.free used ((typeScope t.scope).identifier _ _) =
      Scope.free used ((typeScope t'.scope).identifier _ _)
    rw [identifier_event, identifier_event]
    rfl
  unfold resolve
  split
  · refine .ok ⟨⟨rfl, hname, rfl, rfl, ?_, rfl⟩, _, rfl, ?_⟩
    · show fieldContents (if e.isSimple then [] else fields t.scope e.parameters) =
        fieldContents (if e.isSimple then [] else fields t'.scope e.parameters)
      split
      · rfl
      · exact fieldContents_fieldsFrom _ _ [] e.parameters
    · exact congrArg (fun name => typesInUse t' (name :: used)) hname.symm
  · exact .error _

/-- All events of a category are resolved alike. -/
theorem agree_resolveAll (t t' : Target) (strict : Bool) (category : String) (used : List String)
    (events : List Event) :
    Agree (List.Forall₂ ResolvedEvent.Alike)
      (resolveAll t.scope strict category (typesInUse t used) events)
      (resolveAll t'.scope strict category (typesInUse t' used) events) := by
  induction events generalizing used with
  | nil => exact .ok .nil
  | cons e rest ih =>
    rw [resolveAll, resolveAll]
    refine (agree_resolve t t' strict category used e).bind ?_
    rintro ⟨r, _⟩ ⟨r', _⟩ ⟨halike, used', rfl, rfl⟩
    exact (ih used').bind fun rs rs' hrest => .ok (.cons halike hrest)

theorem predefinedValues_eq {rs rs' : List ResolvedEvent}
    (h : List.Forall₂ ResolvedEvent.Alike rs rs') : predefinedValues rs = predefinedValues rs' := by
  have hfold : ∀ known : List String, rs.foldl (fun known r => addNew known r.values) known =
      rs'.foldl (fun known r => addNew known r.values) known := by
    induction h with
    | nil => exact fun _ => rfl
    | cons halike _ ih =>
      intro known
      rw [List.foldl_cons, List.foldl_cons, halike.values]
      exact ih _
  exact hfold []

end Shape

/-! ## Modules -/

namespace CategoryModule

theorem constantsFor_eq (t t' : Target) (values : List String) :
    constantsFor t.scope values = constantsFor t'.scope values := by
  unfold constantsFor
  congr 1
  funext constants value
  rw [t.identifier_constant, t'.identifier_constant]
  rfl

/-- The module of a category is alike in all languages, and so is the failure to build it. -/
theorem agree_ofCategory (t t' : Target) (strict : Bool) (package package' : String)
    (c : Category) :
    Agree Alike (ofCategory t.scope strict package c) (ofCategory t'.scope strict package' c) := by
  have hagree := Shape.agree_resolveAll t t' strict c.name [] c.events
  unfold ofCategory Shape.resolveCategory
  refine hagree.bind fun rs rs' hevents => .ok ⟨rfl, ?_, ?_, ?_⟩
  · show t.scope.identifier _ _ = t'.scope.identifier _ _
    rw [identifier_events, identifier_events]
    rfl
  · refine List.forall₂_map_left_iff.mpr (List.forall₂_map_right_iff.mpr (hevents.imp ?_))
    intro r r' h
    exact ⟨h.typeName, h.eventName, rfl, h.screenName, h.isSimple, h.fields⟩
  · show constantsFor t.scope _ = constantsFor t'.scope _
    rw [Shape.predefinedValues_eq hevents, constantsFor_eq t t']

end CategoryModule

/-! ## Counts -/

/-- What two lists of alike things have in common is counted alike. -/
theorem length_flatMap_eq {α β γ δ : Type} {R : α → β → Prop} {as : List α} {bs : List β}
    {f : α → List γ} {g : β → List δ} (h : List.Forall₂ R as bs)
    (hlength : ∀ a b, R a b → (f a).length = (g b).length) :
    (as.flatMap f).length = (bs.flatMap g).length := by
  induction h with
  | nil => rfl
  | cons hab _ ih =>
    rw [List.flatMap_cons, List.flatMap_cons, List.length_append, List.length_append,
      hlength _ _ hab, ih]

theorem length_filter_eq {α β : Type} {R : α → β → Prop} {as : List α} {bs : List β}
    {p : α → Bool} {q : β → Bool} (h : List.Forall₂ R as bs) (hpq : ∀ a b, R a b → p a = q b) :
    (as.filter p).length = (bs.filter q).length := by
  induction h with
  | nil => rfl
  | cons hab _ ih =>
    rw [List.filter_cons, List.filter_cons, hpq _ _ hab]
    split
    · rw [List.length_cons, List.length_cons, ih]
    · exact ih

theorem Metadata.sameCounts_ofModules (t t' : Target) (package package' : Json)
    {ms ms' : List CategoryModule} (h : List.Forall₂ CategoryModule.Alike ms ms') :
    (ofModules t package ms).SameCounts (ofModules t' package' ms') := by
  have hevents : (ms.flatMap (·.eventTypes)).length = (ms'.flatMap (·.eventTypes)).length :=
    length_flatMap_eq h fun _ _ hm => hm.eventTypes.length_eq
  have hfiltered : ∀ wanted : Bool → Bool,
      ((ms.flatMap (·.eventTypes)).filter fun e => wanted e.isSimple).length =
        ((ms'.flatMap (·.eventTypes)).filter fun e => wanted e.isSimple).length := by
    intro wanted
    rw [List.filter_flatMap, List.filter_flatMap]
    refine length_flatMap_eq h fun _ _ hm => length_filter_eq hm.eventTypes fun _ _ he => ?_
    rw [he.isSimple]
  exact
    { categories := h.length_eq
      events := hevents
      simpleEvents := hfiltered id
      parameterizedEvents := hfiltered not
      constants := length_flatMap_eq h fun _ _ hm => congrArg List.length hm.constants }

/-! ## Runs -/

namespace Session

/-- The modules of a plan are alike in all languages, or the same event stops both. -/
theorem agree_moduleOf {s s' : Session} (hstrict : s.settings.isStrict = s'.settings.isStrict)
    (categories : List Category) :
    Agree (List.Forall₂ CategoryModule.Alike) (categories.mapM s.moduleOf)
      (categories.mapM s'.moduleOf) := by
  refine Agree.mapM (fun c => ?_) categories
  unfold moduleOf
  rw [hstrict]
  exact CategoryModule.agree_ofCategory s.target s'.target _ _ _ c

theorem mapM_moduleOf {s : Session} {categories : List Category}
    {built : List (CategoryModule × GeneratedFile)} (h : List.Forall₂ s.Built categories built) :
    categories.mapM s.moduleOf = .ok (built.map (·.1)) := by
  induction h with
  | nil => rfl
  | cons hb _ ih =>
    rw [List.mapM_cons, hb.1, ih]
    rfl

/-- A complete generation has counted the modules of its plan. -/
theorem metadata_of_generation {s : Session} {categories : List Category} {g : Generation}
    (h : (s.generation categories).outcome = .ok g) : ∃ ms, categories.mapM s.moduleOf = .ok ms ∧
      g.metadata = some (.ofModules s.target s.settings.package ms) := by
  obtain ⟨built, _, hbuilt, _, _, hmetadata⟩ := generation_parts h
  exact ⟨built.map (·.1), mapM_moduleOf hbuilt, hmetadata⟩

/-- For a plan and two languages with the same strictness, the modules differ at most in the names
of fields and in their paths; strict mode stops both at the same event, so with the same message, or
neither; and what complete generations have counted is the same. -/
theorem same_events_in_all_languages {s s' : Session}
    (hstrict : s.settings.isStrict = s'.settings.isStrict) {text : String}
    {categories : List Category} (hplan : Plan.parse text = .ok categories) :
    Agree (List.Forall₂ CategoryModule.Alike) (categories.mapM s.moduleOf)
      (categories.mapM s'.moduleOf) ∧
    (∀ e : MissingScreen, categories.mapM s.moduleOf = .error e ↔
      categories.mapM s'.moduleOf = .error e) ∧
    ∀ g g', (s.rendered text).outcome = .ok g → (s'.rendered text).outcome = .ok g' →
      ∃ d d', g.metadata = some d ∧ g'.metadata = some d' ∧ d.SameCounts d' := by
  have hagree := agree_moduleOf hstrict categories
  refine ⟨hagree, hagree.error_iff, ?_⟩
  intro g g' hg hg'
  rw [outcome_rendered hplan] at hg hg'
  obtain ⟨ms, hms, hd⟩ := metadata_of_generation hg
  obtain ⟨ms', hms', hd'⟩ := metadata_of_generation hg'
  rw [hms, hms'] at hagree
  cases hagree with
  | ok halike => exact ⟨_, _, hd, hd', Metadata.sameCounts_ofModules _ _ _ _ halike⟩

/-- A category with two events of one name, the first with a field whose key only one of the
languages reserves. -/
def bookshop : Category := ⟨"shop", [⟨"buy", [⟨"def", "None"⟩]⟩, ⟨"buy", []⟩]⟩

/-- The text of a plan with that category. -/
def bookshopPlan : String :=
  "[\x7b\"name\": \"shop\", \"events\": [\x7b\"name\": \"buy\", \"parameters\": " ++
    "[\x7b\"name\": \"def\", \"value\": \"None\"\x7d]\x7d, \x7b\"name\": \"buy\"\x7d]\x7d]"

/-- The field has another name in each language, and all else is the same. -/
theorem same_events_bookshop : Plan.parse bookshopPlan = .ok [bookshop] ∧
    ∃ m m', (standard .python).moduleOf bookshop = .ok m ∧
      (standard .kotlin).moduleOf bookshop = .ok m' ∧ m.Alike m' ∧
      m.eventTypes.map (·.name) = ["BuyEvent", "BuyEvent1"] ∧
      m.eventTypes.flatMap (fun e => e.fields.map (·.name)) = ["def_"] ∧
      m'.eventTypes.flatMap (fun e => e.fields.map (·.name)) = ["def"] := by
  have hplan : Plan.parse bookshopPlan = .ok [bookshop] := by decide +kernel
  have hstrict : (standard .python).settings.isStrict = (standard .kotlin).settings.isStrict := rfl
  have hagree := (same_events_in_all_languages hstrict hplan).1
  have hpython : ∃ m, (standard .python).moduleOf bookshop = .ok m ∧
      m.eventTypes.map (·.name) = ["BuyEvent", "BuyEvent1"] ∧
      m.eventTypes.flatMap (fun e => e.fields.map (·.name)) = ["def_"] := ⟨_, rfl, rfl, rfl⟩
  have hkotlin : ∃ m', (standard .kotlin).moduleOf bookshop = .ok m' ∧
      m'.eventTypes.flatMap (fun e => e.fields.map (·.name)) = ["def"] := ⟨_, rfl, rfl⟩
  obtain ⟨m, hm, htypes, hfields⟩ := hpython
  obtain ⟨m', hm', hfields'⟩ := hkotlin
  have hms : [bookshop].mapM (standard .python).moduleOf = .ok [m] := by
    rw [List.mapM_cons, hm]
    rfl
  have hms' : [bookshop].mapM (standard .kotlin).moduleOf = .ok [m'] := by
    rw [List.mapM_cons, hm']
    rfl
  rw [hms, hms'] at hagree
  cases hagree with
  | ok halike =>
    exact ⟨hplan, m, m', hm, hm', (List.forall₂_cons.mp halike).1, htypes, hfields, hfields'⟩

end Session
end EventCodegen
