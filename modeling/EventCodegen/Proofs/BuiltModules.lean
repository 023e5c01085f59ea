import Mathlib.Data.List.Forall2
import EventCodegen.ModuleTree
import EventCodegen.Proofs.TypeNames

/-! What the module of a category holds. Its event types stand in the order of the events and each
is what `Shape.resolved` makes of its event in a scope with some names in use; a type name is fresh
when it is chosen and is in use from then on, so no two types share one. Fields, constants, container
and package segment get their names from the same rules. Two statements about all modules follow:
every event has one type with a name of its own (`one_type_per_event`), and every name is an
identifier that the language accepts (`names_accepted`). -/
namespace EventCodegen

/-- What stands on the right of related lists belongs to something on the left. -/
theorem exists_left_of_mem {α β : Type} {R : α → β → Prop} {as : List α} {bs : List β}
    (h : List.Forall₂ R as bs) {b : β} (hb : b ∈ bs) : ∃ a ∈ as, R a b := by
  induction h with
  | nil => cases hb
  | @cons a b' as bs hab _ ih =>
    rcases List.mem_cons.mp hb with rfl | hb
    · exact ⟨a, List.mem_cons_self, hab⟩
    · obtain ⟨a', ha', hab'⟩ := ih hb
      exact ⟨a', List.mem_cons_of_mem a ha', hab'⟩

namespace Shape

/-! ## Resolving events -/

theorem resolve_ok {rules types after : Scope} {strict : Bool} {category : String} {e : Event}
    {r : ResolvedEvent} (h : resolve rules strict category types e = .ok (r, after)) :
    r = (resolved rules types e).1 ∧ after = { types with used := r.typeName :: types.used } := by
  unfold resolve at h
  split at h
  · obtain ⟨rfl, rfl⟩ := Prod.mk.inj (Except.ok.inj h)
    exact ⟨rfl, rfl⟩
  · cases h

theorem resolveAll_cons_ok {rules types : Scope} {strict : Bool} {category : String} {e : Event}
    {rest : List Event} {rs : List ResolvedEvent}
    (h : resolveAll rules strict category types (e :: rest) = .ok rs) :
    ∃ r more, r = (resolved rules types e).1 ∧ rs = r :: more ∧
      resolveAll rules strict category { types with used := r.typeName :: types.used } rest =
        .ok more := by
  rw [resolveAll] at h
  cases hr : resolve rules strict category types e with
  | error err => rw [hr] at h; cases h
  | ok pair =>
    obtain ⟨r, after⟩ := pair
    obtain ⟨hresolved, rfl⟩ := resolve_ok hr
    rw [hr] at h
    cases hmore : resolveAll rules strict category { types with used := r.typeName :: types.used }
      rest with
    | error err => simp [bind, Except.bind, hmore] at h
    | ok more =>
      simp only [bind, Except.bind, hmore] at h
      exact ⟨r, more, hresolved, (Except.ok.inj h).symm, hmore⟩

/-- Each resolved event belongs to the event in its place, resolved with some names in use. -/
theorem forall₂_resolveAll {rules : Scope} {strict : Bool} {category : String} :
    ∀ (events : List Event) (types : Scope) (rs : List ResolvedEvent),
      resolveAll rules strict category types events = .ok rs →
      List.Forall₂ (fun e r => ∃ used, r = (resolved rules { types with used } e).1) events rs
  | [], _, rs, h => by
    cases h
    exact .nil
  | e :: rest, types, rs, h => by
    obtain ⟨r, more, hr, rfl, hmore⟩ := resolveAll_cons_ok h
    exact .cons ⟨types.used, hr⟩
      (forall₂_resolveAll rest { types with used := r.typeName :: types.used } more hmore)

/-- Type names are fresh in their scope and differ from each other. -/
theorem nodup_resolveAll {rules : Scope} {strict : Bool} {category : String} :
    ∀ (events : List Event) (types : Scope) (rs : List ResolvedEvent),
      resolveAll rules strict category types events = .ok rs →
      (rs.map (·.typeName)).Nodup ∧ ∀ r ∈ rs, r.typeName ∉ types.used
  | [], _, rs, h => by
    cases h
    simp
  | e :: rest, types, rs, h => by
    obtain ⟨r, more, hr, rfl, hmore⟩ := resolveAll_cons_ok h
    obtain ⟨hnodup, hfresh⟩ := nodup_resolveAll rest _ more hmore
    refine ⟨?_, ?_⟩
    · rw [List.map_cons, List.nodup_cons]
      refine ⟨?_, hnodup⟩
      -- the name is in use for every later event, so none of them has it
      intro hmem
      obtain ⟨r', hr', heq⟩ := List.mem_map.mp hmem
      exact hfresh r' hr' (by rw [heq]; exact List.mem_cons_self)
    · intro r' hr'
      rcases List.mem_cons.mp hr' with rfl | hr'
      · rw [hr]
        exact Scope.free_not_mem _ _
      · exact fun hused => hfresh r' hr' (List.mem_cons_of_mem _ hused)

/-- Only strict mode stops at an event, and only at one that names no screen. -/
theorem resolveAll_error {rules : Scope} {strict : Bool} {category : String} {err : MissingScreen} :
    ∀ (events : List Event) (types : Scope),
      resolveAll rules strict category types events = .error err →
      strict = true ∧ ∃ e ∈ events, e.screen? = none
  | [], _, h => by cases h
  | e :: rest, types, h => by
    by_cases hpass : admits strict e = true
    · have hr : resolve rules strict category types e = .ok (resolved rules types e) :=
        if_pos hpass
      rw [resolveAll, hr] at h
      simp only [bind, Except.bind] at h
      split at h
      · next hmore =>
        obtain ⟨hstrict, e', he', hnone⟩ := resolveAll_error rest _ hmore
        exact ⟨hstrict, e', List.mem_cons_of_mem e he', hnone⟩
      · cases h
    · simp only [admits, Bool.or_eq_true, Bool.not_eq_true', not_or, Bool.not_eq_false,
        Option.isSome_iff_ne_none, ne_eq, not_not] at hpass
      exact ⟨hpass.1, e, List.mem_cons_self, hpass.2⟩

/-! ## Fields and predefined values -/

theorem allows_fieldsFrom {scope : Scope} (apart : scope.Apart) :
    ∀ (parameters : List Parameter) (used seen : List String),
      ∀ f ∈ fieldsFrom { scope with used } seen parameters, scope.Allows f.name
  | [], _, _ => by simp [fieldsFrom]
  | p :: rest, used, seen => by
    intro f hf
    rw [fieldsFrom] at hf
    split at hf
    · exact allows_fieldsFrom apart rest used seen f hf
    · rcases List.mem_cons.mp hf with rfl | hf
      · exact (apart.withUsed used).allows_unique p.key .camel
      · exact allows_fieldsFrom apart rest _ _ f hf

theorem allows_fields {rules : Scope} (apart : rules.Apart) (types : Scope) {e : Event} {f : Field}
    (hf : f ∈ (resolved rules types e).1.fields) : rules.Allows f.name := by
  simp only [resolved, fields, Scope.fork, List.append_nil] at hf
  split at hf
  · cases hf
  · exact allows_fieldsFrom apart e.parameters [] [] f hf

theorem mem_addNew {v : String} : ∀ (values known : List String),
    v ∈ addNew known values ↔ v ∈ known ∨ v ∈ values
  | [], known => by simp [addNew]
  | w :: rest, known => by
    rw [addNew, mem_addNew rest]
    by_cases hw : w ∈ known
    · rw [if_pos hw, List.mem_cons]
      constructor
      · exact fun h => h.imp_right Or.inr
      · rintro (h | rfl | h)
        · exact Or.inl h
        · exact Or.inl hw
        · exact Or.inr h
    · simp [hw, or_assoc]

theorem mem_predefinedValues {v : String} {events : List ResolvedEvent} :
    v ∈ predefinedValues events ↔ ∃ r ∈ events, v ∈ r.values := by
  have hfold : ∀ (rs : List ResolvedEvent) (known : List String),
      v ∈ rs.foldl (fun known r => addNew known r.values) known ↔
        v ∈ known ∨ ∃ r ∈ rs, v ∈ r.values := by
    intro rs
    induction rs with
    | nil => simp
    | cons r rest ih =>
      intro known
      rw [List.foldl_cons, ih, mem_addNew]
      simp [or_assoc]
  rw [predefinedValues, hfold]
  simp

end Shape

theorem Event.ne_empty_of_mem_values {e : Event} {v : String} (h : v ∈ e.values) : v ≠ "" := by
  obtain ⟨p, hp, rfl⟩ := List.mem_map.mp h
  have hvalue := (List.mem_filter.mp hp).2
  simp only [Parameter.hasValue, Bool.and_eq_true, bne_iff_ne, ne_eq] at hvalue
  exact hvalue.1

namespace CategoryModule

/-! ## Constants -/

theorem mem_putConstant {name value : String} {c : Constant} : ∀ constants : List Constant,
    c ∈ putConstant name value constants → c = ⟨name, value⟩ ∨ c ∈ constants
  | [], h => Or.inl (List.mem_singleton.mp h)
  | d :: rest, h => by
    rw [putConstant] at h
    split at h
    · exact (List.mem_cons.mp h).imp_right (List.mem_cons_of_mem d)
    · rcases List.mem_cons.mp h with rfl | h
      · exact Or.inr List.mem_cons_self
      · exact (mem_putConstant rest h).imp_right (List.mem_cons_of_mem d)

/-- A constant holds one of the values and is named after it. -/
theorem mem_constantsFor {rules : Scope} {values : List String} {c : Constant}
    (h : c ∈ constantsFor rules values) :
    c.value ∈ values ∧ c.name = rules.identifier c.value .constant := by
  have hfold : ∀ (vs : List String) (constants : List Constant),
      c ∈ vs.foldl (fun cs v => putConstant (rules.identifier v .constant) v cs) constants →
      c ∈ constants ∨ c.value ∈ vs ∧ c.name = rules.identifier c.value .constant := by
    intro vs
    induction vs with
    | nil => exact fun _ h => Or.inl h
    | cons v rest ih =>
      intro constants h
      rcases ih _ h with h | ⟨hmem, hname⟩
      · rcases mem_putConstant constants h with rfl | h
        · exact Or.inr ⟨List.mem_cons_self, rfl⟩
        · exact Or.inl h
      · exact Or.inr ⟨List.mem_cons_of_mem v hmem, hname⟩
  exact (hfold values [] h).resolve_left List.not_mem_nil

/-! ## Building a module -/

theorem ofCategory_ok {rules : Scope} {strict : Bool} {package : String} {c : Category}
    {m : CategoryModule} (h : ofCategory rules strict package c = .ok m) :
    ∃ events, Shape.resolveCategory rules strict c = .ok events ∧
      m = build rules package c.name events (Shape.predefinedValues events) := by
  unfold ofCategory at h
  cases hr : Shape.resolveCategory rules strict c with
  | error err => rw [hr] at h; cases h
  | ok events =>
    rw [hr] at h
    exact ⟨events, rfl, (Except.ok.inj h).symm⟩

theorem ofCategory_error {rules : Scope} {strict : Bool} {package : String} {c : Category}
    {err : MissingScreen} (h : ofCategory rules strict package c = .error err) :
    Shape.resolveCategory rules strict c = .error err := by
  unfold ofCategory at h
  cases hr : Shape.resolveCategory rules strict c with
  | error err' => rw [hr] at h; cases h; rfl
  | ok events => rw [hr] at h; cases h

/-- Each event type belongs to the event in its place. -/
theorem forall₂_eventTypes {rules : Scope} {strict : Bool} {package : String} {c : Category}
    {m : CategoryModule} (h : ofCategory rules strict package c = .ok m) :
    List.Forall₂ (fun e type => ∃ used, type = eventType c.name
      (Shape.resolved rules { Shape.typeScope rules with used } e).1) c.events m.eventTypes := by
  obtain ⟨events, hr, rfl⟩ := ofCategory_ok h
  refine List.forall₂_map_right_iff.mpr ?_
  refine (Shape.forall₂_resolveAll c.events _ events hr).imp ?_
  rintro e r ⟨used, rfl⟩
  exact ⟨used, rfl⟩

/-- The name of a container is no reserved word, because of its ending. -/
theorem identifier_events (t : Target) (category : String) :
    t.scope.identifier (category ++ "_events") .pascal =
      Naming.clean t.scope.fallback (Naming.styled .pascal category ++ "Events") := by
  have hstyled : Naming.styled .pascal (category ++ "_events") =
      Naming.styled .pascal category ++ "Events" := Naming.styled_pascal_append category "events"
  unfold Scope.identifier
  rw [hstyled]
  apply if_neg
  apply Shape.not_reserved_of_suffix "Events" (by decide)
  rw [Naming.toList_clean_append _ _ (by decide)]
  exact List.suffix_append _ _

theorem containerName_eq {t : Target} {strict : Bool} {package : String} {c : Category}
    {m : CategoryModule} (h : ofCategory t.scope strict package c = .ok m) :
    m.containerName =
      Naming.clean t.scope.fallback (Naming.styled .pascal c.name ++ "Events") := by
  obtain ⟨events, _, rfl⟩ := ofCategory_ok h
  exact identifier_events t c.name

theorem allows_typeName {t : Target} {strict : Bool} {package : String} {c : Category}
    {m : CategoryModule} (h : ofCategory t.scope strict package c = .ok m) {type : EventType}
    (htype : type ∈ m.eventTypes) : (Shape.typeScope t.scope).Allows type.name := by
  obtain ⟨e, _, used, rfl⟩ := exists_left_of_mem (forall₂_eventTypes h) htype
  exact ((Shape.apart_typeScope t).withUsed used).allows_unique _ _

theorem allows_fieldName {t : Target} {strict : Bool} {package : String} {c : Category}
    {m : CategoryModule} (h : ofCategory t.scope strict package c = .ok m) {type : EventType}
    (htype : type ∈ m.eventTypes) {f : Field} (hf : f ∈ type.fields) : t.scope.Allows f.name := by
  obtain ⟨e, _, used, rfl⟩ := exists_left_of_mem (forall₂_eventTypes h) htype
  exact Shape.allows_fields t.apart_scope { Shape.typeScope t.scope with used } hf

theorem allows_containerName {t : Target} {strict : Bool} {package : String} {c : Category}
    {m : CategoryModule} (h : ofCategory t.scope strict package c = .ok m) :
    t.scope.Allows m.containerName := by
  obtain ⟨events, _, rfl⟩ := ofCategory_ok h
  exact t.apart_scope.allows_identifier _ _

theorem allows_constantName {t : Target} {strict : Bool} {package : String} {c : Category}
    {m : CategoryModule} (h : ofCategory t.scope strict package c = .ok m) {k : Constant}
    (hk : k ∈ m.constants) : t.scope.Allows k.name := by
  obtain ⟨events, _, rfl⟩ := ofCategory_ok h
  rw [(mem_constantsFor hk).2]
  exact t.apart_scope.allows_identifier _ _

theorem path_eq {rules : Scope} {strict : Bool} {package : String} {c : Category}
    {m : CategoryModule} (h : ofCategory rules strict package c = .ok m) :
    m.path = Naming.below package (rules.moduleName c.name) := by
  obtain ⟨events, _, rfl⟩ := ofCategory_ok h
  rfl

/-- No constant of a module is empty. -/
theorem ne_empty_of_mem_constants {rules : Scope} {strict : Bool} {package : String} {c : Category}
    {m : CategoryModule} (h : ofCategory rules strict package c = .ok m) {k : Constant}
    (hk : k ∈ m.constants) : k.value ≠ "" := by
  obtain ⟨events, hr, rfl⟩ := ofCategory_ok h
  obtain ⟨r, hmem, hv⟩ := Shape.mem_predefinedValues.mp (mem_constantsFor hk).1
  obtain ⟨e, _, used, rfl⟩ := exists_left_of_mem (Shape.forall₂_resolveAll c.events _ events hr) hmem
  exact Event.ne_empty_of_mem_values hv

/-! ## Type names -/

/-- The names that the imports of a Python module bring in beside the base type. -/
def importedNames : List String := ["dataclass", "Final", "singleton"]

/-- Every event of a category keeps exactly one type, in its place, under a name of its own: the
cleaned capitalised name of the event with `Event` after it, and perhaps a number. No type takes a
name that is visible beside it. Only strict mode gives no module, for an event without a screen. -/
theorem one_type_per_event (t : Target) (strict : Bool) (package : String) (c : Category) :
    match ofCategory t.scope strict package c with
    | .error _ => strict = true ∧ ∃ e ∈ c.events, e.screen? = none
    | .ok m =>
      List.Forall₂ (fun e type => type.eventName = e.name ∧ type.isSimple = e.isSimple ∧
        Scope.Numbered (Shape.typeBase t.scope e.name) type.name) c.events m.eventTypes ∧
      (m.eventTypes.map (·.name)).Nodup ∧
      ∀ type ∈ m.eventTypes,
        type.name ∉ [baseTypeName, valuesName, m.containerName] ++ importedNames := by
  cases h : ofCategory t.scope strict package c with
  | error err => exact Shape.resolveAll_error c.events _ (ofCategory_error h)
  | ok m =>
    have hnamed : List.Forall₂ (fun e type => type.eventName = e.name ∧
        type.isSimple = e.isSimple ∧
        Scope.Numbered (Shape.typeBase t.scope e.name) type.name) c.events m.eventTypes := by
      refine (forall₂_eventTypes h).imp ?_
      rintro e type ⟨used, rfl⟩
      refine ⟨rfl, rfl, ?_⟩
      rw [← Shape.identifier_event]
      exact Scope.numbered_free used _
    refine ⟨hnamed, ?_, ?_⟩
    · obtain ⟨events, hr, rfl⟩ := ofCategory_ok h
      have hnodup := (Shape.nodup_resolveAll c.events _ events hr).1
      show ((events.map (eventType c.name)).map (·.name)).Nodup
      rwa [List.map_map]
    · intro type htype
      obtain ⟨e, _, _, _, hnum⟩ := exists_left_of_mem hnamed htype
      obtain ⟨_, hreserved⟩ := allows_typeName h htype
      simp only [importedNames, List.cons_append, List.nil_append, List.mem_cons,
        List.not_mem_nil, or_false, not_or]
      -- `BaseEvent` is reserved; all the other names end in letters that no type name ends in
      refine ⟨?_, ?_, ?_, ?_, ?_, ?_⟩
      · exact fun heq => hreserved (by rw [heq]; exact List.mem_append_right _ (by decide))
      · exact Shape.ne_of_ending hnum (by decide)
      · apply Shape.ne_of_ending hnum
        rw [containerName_eq h, Scope.lastChar, Naming.toList_clean_append _ _ (by decide),
          List.getLast?_append_of_ne_nil _ (by decide)]
        decide
      · exact Shape.ne_of_ending hnum (by decide)
      · exact Shape.ne_of_ending hnum (by decide)
      · exact Shape.ne_of_ending hnum (by decide)

/-! ## Accepted names -/

/-- Every name in a module is an identifier that the language takes, and the types keep off the
names of the base type and the values container. -/
theorem names_accepted (t : Target) (strict : Bool) (package : String) (c : Category)
    (m : CategoryModule) (h : ofCategory t.scope strict package c = .ok m) :
    t.Accepts m.containerName ∧
    (m.path = Naming.below package (t.scope.moduleName c.name) ∧
      t.Accepts (t.scope.moduleName c.name)) ∧
    (∀ type ∈ m.eventTypes, t.Accepts type.name ∧ type.name ∉ [baseTypeName, valuesName] ∧
      ∀ f ∈ type.fields, t.Accepts f.name) ∧
    ∀ constant ∈ m.constants, t.Accepts constant.name := by
  refine ⟨Target.accepts_of_allows (allows_containerName h), ⟨path_eq h, ?_⟩, ?_, ?_⟩
  · exact Target.accepts_of_allows (t.apart_scope.allows_moduleName c.name)
  · intro type htype
    obtain ⟨hid, hreserved⟩ := allows_typeName h htype
    rw [Shape.reserved_typeScope, List.mem_append, not_or] at hreserved
    exact ⟨Target.accepts_of_allows ⟨hid, hreserved.1⟩, hreserved.2,
      fun f hf => Target.accepts_of_allows (allows_fieldName h htype hf)⟩
  · exact fun constant hmem => Target.accepts_of_allows (allows_constantName h hmem)

/-- Of a category whose names are keywords or taken, all names are made acceptable. -/
theorem names_accepted_keywords : ∃ m, ofCategory Target.python.scope false "app"
      ⟨"class", [⟨"base", [⟨"in", "None"⟩, ⟨"In", "1"⟩]⟩, ⟨"Base", []⟩]⟩ = .ok m ∧
    Target.python.Accepts m.containerName ∧
    Target.python.Accepts (Target.python.scope.moduleName "class") ∧
    (∀ type ∈ m.eventTypes, type.name ∉ [baseTypeName, valuesName]) ∧
    ∀ constant ∈ m.constants, Target.python.Accepts constant.name := by
  refine ⟨_, rfl, ?_⟩
  obtain ⟨hcontainer, ⟨_, hsegment⟩, htypes, hconstants⟩ := names_accepted .python false "app"
    ⟨"class", [⟨"base", [⟨"in", "None"⟩, ⟨"In", "1"⟩]⟩, ⟨"Base", []⟩]⟩ _ rfl
  exact ⟨hcontainer, hsegment, fun type htype => (htypes type htype).2.1, hconstants⟩

end CategoryModule
end EventCodegen
