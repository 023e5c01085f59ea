import EventCodegen.Proofs.Generations

/-! A plan may grow without renaming what is there. Names are chosen from left to right, and a scope
only knows what it has handed out, so what comes later in a category or an event changes nothing
before it: resolved events, predefined values and names of constants are only added to
(`resolveAll_append_ok`, `prefix_constantsFor`), and so are the fields of an event that gets
more parameters (`extends_resolveAll`). Every category and every event starts with a scope of its
own; the file of a category is therefore the same wherever the category stands and whatever the
session has done before (`file_of_category`). -/
namespace EventCodegen

/-- The same event with more parameters at its end. -/
structure Event.Extends (e e' : Event) : Prop where
  name : e.name = e'.name
  parameters : e.parameters <+: e'.parameters

/-- A resolved event with the same type name and perhaps more fields at its end. -/
structure ResolvedEvent.Extends (r r' : ResolvedEvent) : Prop where
  typeName : r.typeName = r'.typeName
  fields : r.fields <+: r'.fields

/-! ## More events -/

namespace Shape

variable {rules : Scope} {strict : Bool} {category : String}

/-- The events at the beginning are resolved as if no others came after them. -/
theorem resolveAll_append_ok {more : List Event} : ∀ {events : List Event} {types : Scope}
    {rs' : List ResolvedEvent}, resolveAll rules strict category types (events ++ more) = .ok rs' →
    ∃ rs, resolveAll rules strict category types events = .ok rs ∧ rs <+: rs'
  | [], _, rs', _ => ⟨[], rfl, List.nil_prefix⟩
  | e :: rest, types, rs', h => by
    rw [List.cons_append, resolveAll] at h
    obtain ⟨⟨r, after⟩, hr, h⟩ := bind_eq_ok.mp h
    obtain ⟨rs'', hmore, h⟩ := bind_eq_ok.mp h
    cases h
    obtain ⟨rs, hrest, hprefix⟩ := resolveAll_append_ok hmore
    refine ⟨r :: rs, ?_, List.cons_prefix_cons.mpr ⟨rfl, hprefix⟩⟩
    rw [resolveAll, hr]
    show (resolveAll rules strict category after rest >>= fun rs => pure (r :: rs)) = _
    rw [hrest]
    rfl

/-- Outside strict mode every event is resolved. -/
theorem resolveAll_lenient : ∀ (events : List Event) (types : Scope),
    ∃ rs, resolveAll rules false category types events = .ok rs
  | [], _ => ⟨[], rfl⟩
  | e :: rest, types => by
    obtain ⟨rs, hrs⟩ := resolveAll_lenient rest (resolved rules types e).2
    refine ⟨(resolved rules types e).1 :: rs, ?_⟩
    rw [resolveAll]
    show (resolveAll rules false category (resolved rules types e).2 rest >>= fun rs =>
      pure ((resolved rules types e).1 :: rs)) = _
    rw [hrs]
    rfl

theorem resolveCategory_withUsed (rules : Scope) (used : List String) (strict : Bool)
    (c : Category) :
    resolveCategory { rules with used } strict c = resolveCategory rules strict c := by
  have hall : ∀ (events : List Event) (types : Scope),
      resolveAll { rules with used } strict c.name types events =
        resolveAll rules strict c.name types events := by
    intro events
    induction events with
    | nil => exact fun _ => rfl
    | cons e rest ih =>
      intro types
      rw [resolveAll, resolveAll]
      refine congrArg (resolve rules strict c.name types e >>= ·) (funext fun found => ?_)
      dsimp only
      rw [ih found.2]
  exact hall c.events _

theorem prefix_addNew (known : List String) (values : List String) :
    known <+: addNew known values := by
  induction values generalizing known with
  | nil => exact List.prefix_rfl
  | cons v rest ih =>
    rw [addNew]
    split
    · exact ih known
    · exact (List.prefix_append known [v]).trans (ih _)

/-- More events add predefined values at the end only. -/
theorem prefix_predefinedValues {rs rs' : List ResolvedEvent} (h : rs <+: rs') :
    predefinedValues rs <+: predefinedValues rs' := by
  obtain ⟨more, rfl⟩ := h
  rw [predefinedValues, predefinedValues, List.foldl_append]
  generalize rs.foldl (fun known r => addNew known r.values) [] = known
  induction more generalizing known with
  | nil => exact List.prefix_rfl
  | cons r rest ih => exact (prefix_addNew known r.values).trans (ih _)

end Shape

namespace CategoryModule

/-- A constant that is put in keeps its place or comes last. -/
theorem prefix_putConstant (name value : String) (constants : List Constant) :
    constants.map (·.name) <+: (putConstant name value constants).map (·.name) := by
  induction constants with
  | nil => exact List.nil_prefix
  | cons c rest ih =>
    rw [putConstant]
    split
    · next hname =>
      exact ⟨[], by rw [List.append_nil, List.map_cons, List.map_cons, hname]⟩
    · exact List.cons_prefix_cons.mpr ⟨rfl, ih⟩

/-- More values add constants at the end only, though a constant may get another value. -/
theorem prefix_constantsFor (rules : Scope) {values values' : List String}
    (h : values <+: values') : (constantsFor rules values).map (·.name) <+:
      (constantsFor rules values').map (·.name) := by
  obtain ⟨more, rfl⟩ := h
  rw [constantsFor, constantsFor, List.foldl_append]
  generalize values.foldl (fun cs v => putConstant (rules.identifier v .constant) v cs) [] =
    constants
  induction more generalizing constants with
  | nil => exact List.prefix_rfl
  | cons v rest ih => exact (prefix_putConstant _ v constants).trans (ih _)

/-- A category has a module as soon as its events are resolved. -/
theorem ofCategory_of_resolved {rules : Scope} {strict : Bool} {package : String} {c : Category}
    {rs : List ResolvedEvent} (h : Shape.resolveCategory rules strict c = .ok rs) :
    ofCategory rules strict package c =
      .ok (build rules package c.name rs (Shape.predefinedValues rs)) := by
  rw [ofCategory, h]
  rfl

/-- The scope that all categories share hands out nothing: names in use there make no difference. -/
theorem ofCategory_withUsed (rules : Scope) (used : List String) (strict : Bool) (package : String)
    (c : Category) :
    ofCategory { rules with used } strict package c = ofCategory rules strict package c := by
  rw [ofCategory, ofCategory, Shape.resolveCategory_withUsed]
  rfl

end CategoryModule

/-! ## More parameters -/

/-- An event that is simple with more parameters was simple before. -/
theorem Event.Extends.isSimple {e e' : Event} (h : e.Extends e') (hsimple : e'.isSimple = true) :
    e.isSimple = true := by
  obtain ⟨more, heq⟩ := h.parameters
  unfold Event.isSimple at hsimple ⊢
  rw [← heq] at hsimple
  generalize e.parameters = parameters at hsimple ⊢
  rcases parameters with _ | ⟨p, _ | ⟨q, rest⟩⟩
  · rfl
  · cases more with
    | nil => exact hsimple
    | cons q rest => cases hsimple
  · cases hsimple

/-- More parameters do not take away the one that names the screen. -/
theorem Event.Extends.admits {strict : Bool} {e e' : Event} (h : e.Extends e')
    (hadmits : Shape.admits strict e = true) : Shape.admits strict e' = true := by
  obtain ⟨more, heq⟩ := h.parameters
  unfold Shape.admits at hadmits ⊢
  rcases (Bool.or_eq_true _ _).mp hadmits with hlenient | hscreen
  · rw [hlenient, Bool.true_or]
  · obtain ⟨p, hp⟩ := Option.isSome_iff_exists.mp hscreen
    have hfound : e'.screen? = some p := by
      unfold Event.screen? at hp ⊢
      rw [← heq, List.find?_append, hp, Option.some_or]
    rw [hfound, Option.isSome_some, Bool.or_true]

namespace Shape

/-- Fields are chosen in the order of the parameters. -/
theorem prefix_fieldsFrom (scope : Scope) (seen : List String) (parameters more : List Parameter) :
    fieldsFrom scope seen parameters <+: fieldsFrom scope seen (parameters ++ more) := by
  induction parameters generalizing scope seen with
  | nil => exact List.nil_prefix
  | cons p rest ih =>
    rw [List.cons_append, fieldsFrom, fieldsFrom]
    split
    · exact ih scope seen
    · exact List.cons_prefix_cons.mpr ⟨rfl, ih _ _⟩

theorem extends_resolved (rules types : Scope) {e e' : Event} (h : e.Extends e') :
    (resolved rules types e).1.Extends (resolved rules types e').1 where
  typeName := congrArg (fun name => (types.unique (name ++ "_event") .pascal).1) h.name
  fields := by
    obtain ⟨more, heq⟩ := h.parameters
    show (if e.isSimple then [] else fields rules e.parameters) <+:
      (if e'.isSimple then [] else fields rules e'.parameters)
    split
    · exact List.nil_prefix
    · next hnot =>
      rw [if_neg fun hsimple => hnot (h.isSimple hsimple), ← heq]
      exact prefix_fieldsFrom _ _ _ _

/-- The scope of type names after an event depends on the name of the event alone. -/
theorem types_after_resolved (rules types : Scope) {e e' : Event} (h : e.Extends e') :
    (resolved rules types e).2 = (resolved rules types e').2 :=
  congrArg (fun name => (types.unique (name ++ "_event") .pascal).2) h.name

/-- Events that get more parameters keep their type names and their fields, and the others are
resolved as before. -/
theorem extends_resolveAll {rules : Scope} {strict : Bool} {category : String}
    {events events' : List Event} (h : List.Forall₂ Event.Extends events events') :
    ∀ {types : Scope} {rs : List ResolvedEvent},
      resolveAll rules strict category types events = .ok rs →
      ∃ rs', resolveAll rules strict category types events' = .ok rs' ∧
        List.Forall₂ ResolvedEvent.Extends rs rs' ∧
        ∀ i : Nat, events[i]? = events'[i]? → rs[i]? = rs'[i]? := by
  induction h with
  | nil =>
    intro types rs hrs
    cases hrs
    exact ⟨[], rfl, .nil, fun _ _ => rfl⟩
  | @cons e e' rest rest' hextends _ ih =>
    intro types rs hrs
    rw [resolveAll, resolve] at hrs
    split at hrs
    · next hadmits =>
      obtain ⟨pair, hpair, hrs⟩ := bind_eq_ok.mp hrs
      cases hpair
      obtain ⟨rs, hrest, hrs⟩ := bind_eq_ok.mp hrs
      cases hrs
      have hrest : resolveAll rules strict category (resolved rules types e).2 rest = .ok rs :=
        hrest
      rw [types_after_resolved rules types hextends] at hrest
      obtain ⟨rs', hrest', hmore, hsame⟩ := ih hrest
      refine ⟨(resolved rules types e').1 :: rs', ?_, .cons (extends_resolved _ _ hextends) hmore,
        fun i hi => ?_⟩
      · rw [resolveAll, resolve, if_pos (hextends.admits hadmits)]
        show (resolveAll rules strict category (resolved rules types e').2 rest' >>= fun rs =>
          pure ((resolved rules types e').1 :: rs)) = _
        rw [hrest']
        rfl
      · cases i with
        | zero =>
          obtain rfl : e = e' := Option.some.inj hi
          rfl
        | succ i => exact hsame i hi
    · cases hrs

end Shape

/-! ## Other categories and earlier calls -/

/-- What stands on the left of related lists belongs to what stands in its place on the right. -/
theorem exists_right_of_getElem? {α β : Type} {R : α → β → Prop} {as : List α} {bs : List β}
    (h : List.Forall₂ R as bs) :
    ∀ {i : Nat} {a : α}, as[i]? = some a → ∃ b, bs[i]? = some b ∧ R a b := by
  induction h with
  | nil => exact fun hi => by cases hi
  | cons hab _ ih =>
    intro i a hi
    cases i with
    | zero =>
      cases hi
      exact ⟨_, rfl, hab⟩
    | succ i => exact ih hi

namespace Session

/-- A call on a session. -/
inductive Call
  /-- Generates everything for the text of a plan. -/
  | text (plan : String)
  /-- Generates everything for a plan. -/
  | plan (categories : List Category)
  /-- Builds the module of a category. -/
  | category (c : Category)
  /-- Generates the file of the base type. -/
  | base

/-- What a call does. -/
def call (s : Session) (output : Output) : Call → Run Unit
  | .text plan => discard (s.generate output plan)
  | .plan categories => discard (s.generateCategories output categories)
  | .category c => discard (Run.ofTraced (s.buildModule c))
  | .base => discard (s.generateBase output)

/-- The world after some calls, each of which may have gone through or failed. -/
def worldAfter (s : Session) (output : Output) : List Call → World → World
  | [], w => w
  | c :: rest, w => s.worldAfter output rest ((s.call output c).apply w).2

/-- A generation that goes through for a plan, which is given as it is or as a text. -/
inductive Generates (s : Session) (output : Output) (w : World) (categories : List Category)
    (g : Generation) : Prop
  | plan {w' : World} : (s.generateCategories output categories).apply w = (.ok g, w') →
    Generates s output w categories g
  | text {plan : String} {w' : World} : Plan.parse plan = .ok categories →
    (s.generate output plan).apply w = (.ok g, w') → Generates s output w categories g

/-- The files of a generation that goes through are those that its plan leads to. -/
theorem Generates.files {s : Session} {output : Output} {w : World} {categories : List Category}
    {g : Generation} (h : s.Generates output w categories g) : ∃ built base,
      List.Forall₂ s.Built categories built ∧ s.baseFile = .ok base ∧
      g.files = built.map (·.2) ++ [base] := by
  have hcomplete : ∃ g', (s.generation categories).outcome = .ok g' ∧ g.files = g'.files := by
    cases h with
    | plan hrun =>
      obtain ⟨g', w₁, hgeneration, hrun⟩ := Run.ok_of_bind hrun
      obtain ⟨locations, w₂, _, hrun⟩ := Run.ok_of_bind hrun
      obtain ⟨_, w₃, _, hrun⟩ := Run.ok_of_bind hrun
      cases hrun
      rw [Run.apply_ofTraced] at hgeneration
      exact ⟨g', (Prod.mk.inj hgeneration).1, rfl⟩
    | text hplan hrun =>
      obtain ⟨g', _, _, hrendered, rfl, _, _⟩ := writes_of_generate hrun
      rw [outcome_rendered hplan] at hrendered
      exact ⟨g', hrendered, rfl⟩
  obtain ⟨g', hg', hfiles⟩ := hcomplete
  rw [hfiles]
  exact generation_ok hg'

/-- The file that is generated for a category depends on nothing but the session and the category,
and the last file on nothing but the session. -/
theorem file_of_category {s : Session} {output : Output} {w : World} {before after : List Category}
    {c : Category} {g : Generation} (h : s.Generates output w (before ++ c :: after) g) :
    ∃ f base, (s.moduleOf c).mapError Failure.missingScreen >>= s.categoryFile = .ok f ∧
      s.baseFile = .ok base ∧ g.files[before.length]? = some f ∧ g.files.getLast? = some base := by
  obtain ⟨built, base, hbuilt, hbase, hfiles⟩ := h.files
  obtain ⟨⟨m, f⟩, hget, hm, hf⟩ := exists_right_of_getElem? hbuilt (i := before.length) (a := c)
    (by simp)
  refine ⟨f, base, ?_, hbase, ?_, ?_⟩
  · have hm : s.moduleOf c = .ok m := hm
    rw [hm]
    exact hf
  · obtain ⟨hlt, _⟩ := List.getElem?_eq_some_iff.mp hget
    rw [hfiles, List.getElem?_append_left (by simpa using hlt), List.getElem?_map, hget]
    rfl
  · rw [hfiles, List.getLast?_concat]

/-- The file of the base type is the same when it is generated alone. -/
theorem file_of_base {s : Session} {output : Output} {w w' : World} {base : GeneratedFile}
    (h : (s.generateBase output).apply w = (.ok base, w')) : s.baseFile = .ok base := by
  obtain ⟨f, w₁, hbuild, h⟩ := Run.ok_of_bind h
  obtain ⟨_, w₂, _, h⟩ := Run.ok_of_bind h
  cases h
  rw [Run.apply_ofTraced] at hbuild
  have hbase := (Prod.mk.inj hbuild).1
  unfold buildBase noteForm at hbase
  rwa [Traced.outcome_bind, Traced.outcome_note, Traced.outcome_ofExcept] at hbase

/-- With usable settings and outside strict mode, everything can be generated for every plan. -/
theorem generates_memory {s : Session} {package : String} (hs : s.Usable package)
    (hlenient : s.settings.isStrict = false) (w : World) (categories : List Category) :
    ∃ g, s.Generates .memory w categories g := by
  cases hg : (s.generation categories).outcome with
  | error e =>
    have hstrict := (generation_error hs hg).1
    rw [hlenient] at hstrict
    cases hstrict
  | ok g =>
    have hgeneration : (Run.ofTraced (s.generation categories)).apply w =
        (.ok g, w.noting (s.generation categories).notes) := by
      rw [Run.apply_ofTraced, hg]
    have hwrites := mapM_of_writes
      (Output.writes_memory g.files (w.noting (s.generation categories).notes))
    rw [← Output.writeAll_eq] at hwrites
    have hrun : ∃ w₁, (s.generateCategories .memory categories).apply w =
        (.ok { g with locations := g.files.map Output.memory.location }, w₁) := by
      rw [generateCategories, Run.apply_bind_of_ok hgeneration, Run.apply_bind_of_ok hwrites]
      exact ⟨_, rfl⟩
    obtain ⟨w₁, hrun⟩ := hrun
    exact ⟨_, .plan hrun⟩

/-- A plan that grows keeps what it had. More events at the end of a category leave the resolved
events before them as they are and add predefined values and names of constants at the end only;
more parameters at the end of an event leave its type name and its fields, and all other events,
as they are. The file of a category and that of the base type are the same whatever other
categories there are, in whatever order, and whatever calls have gone through or failed before on
the same session; names in use in the scope of the session would make no difference. Outside
strict mode everything is resolved. -/
theorem growing_renames_nothing (s : Session) :
    (s.settings.isStrict = false → ∀ c : Category, ∃ rs,
      Shape.resolveCategory s.rules s.settings.isStrict c = .ok rs) ∧
    (∀ (c : Category) (more : List Event) (rs' : List ResolvedEvent),
      Shape.resolveCategory s.rules s.settings.isStrict { c with events := c.events ++ more } =
        .ok rs' →
      ∃ rs m m', Shape.resolveCategory s.rules s.settings.isStrict c = .ok rs ∧ rs <+: rs' ∧
        Shape.predefinedValues rs <+: Shape.predefinedValues rs' ∧ s.moduleOf c = .ok m ∧
        s.moduleOf { c with events := c.events ++ more } = .ok m' ∧
        m.constants.map (·.name) <+: m'.constants.map (·.name)) ∧
    (∀ (c : Category) (events' : List Event) (rs : List ResolvedEvent),
      List.Forall₂ Event.Extends c.events events' →
      Shape.resolveCategory s.rules s.settings.isStrict c = .ok rs →
      ∃ rs', Shape.resolveCategory s.rules s.settings.isStrict { c with events := events' } =
          .ok rs' ∧ List.Forall₂ ResolvedEvent.Extends rs rs' ∧
        ∀ i : Nat, c.events[i]? = events'[i]? → rs[i]? = rs'[i]?) ∧
    (∀ (output output' : Output) (earlier earlier' : List Call) (w w' : World)
      (before after before' after' : List Category) (c : Category) (g g' : Generation),
      s.Generates output (s.worldAfter output earlier w) (before ++ c :: after) g →
      s.Generates output' (s.worldAfter output' earlier' w') (before' ++ c :: after') g' →
      ∃ f base, g.files[before.length]? = some f ∧ g'.files[before'.length]? = some f ∧
        g.files.getLast? = some base ∧ g'.files.getLast? = some base ∧
        ∀ alone w₁, (s.generateBase output').apply (s.worldAfter output' earlier' w') =
          (.ok alone, w₁) → alone = base) ∧
    ∀ (used : List String) (c : Category), CategoryModule.ofCategory { s.rules with used }
      s.settings.isStrict s.settings.packageText c = s.moduleOf c := by
  refine ⟨fun hlenient c => ?_, fun c more rs' h => ?_, fun c events' rs hevents h => ?_, ?_,
    fun used c => CategoryModule.ofCategory_withUsed s.rules used _ _ c⟩
  · rw [hlenient]
    exact Shape.resolveAll_lenient c.events _
  · obtain ⟨rs, hrs, hprefix⟩ := Shape.resolveAll_append_ok h
    have hvalues := Shape.prefix_predefinedValues hprefix
    have hm : s.moduleOf c = .ok _ := CategoryModule.ofCategory_of_resolved hrs
    have hm' : s.moduleOf { c with events := c.events ++ more } = .ok _ :=
      CategoryModule.ofCategory_of_resolved h
    exact ⟨rs, _, _, hrs, hprefix, hvalues, hm, hm',
      CategoryModule.prefix_constantsFor s.rules hvalues⟩
  · exact Shape.extends_resolveAll hevents h
  · intro output output' earlier earlier' w w' before after before' after' c g g' hg hg'
    obtain ⟨f, base, hf, hbase, hget, hlast⟩ := file_of_category hg
    obtain ⟨f', base', hf', hbase', hget', hlast'⟩ := file_of_category hg'
    obtain rfl : f = f' := Except.ok.inj (hf.symm.trans hf')
    obtain rfl : base = base' := Except.ok.inj (hbase.symm.trans hbase')
    refine ⟨f, base, hget, hget', hlast, hlast', fun alone w₁ halone => ?_⟩
    exact Except.ok.inj ((file_of_base halone).symm.trans hbase)

/-- A category of a shop, with a parameter and an event more, whose names are taken. -/
def shop : Category := ⟨"shop", [⟨"buy", [⟨"item_id", "None"⟩]⟩, ⟨"Buy", []⟩]⟩

def returns : Event := ⟨"buy", [⟨"x", "NONE"⟩]⟩

def shopEvents : List Event := [⟨"buy", [⟨"item_id", "None"⟩, ⟨"itemId", "none"⟩]⟩, ⟨"Buy", []⟩]

/-- The field and the types that were there first keep their names; and the file of the category is
the same behind another category, after a call that failed. -/
theorem growing_renames_nothing_shop :
    (∃ rs, Shape.resolveCategory Target.python.scope false shop = .ok rs ∧
      rs <+: [⟨"buy", "BuyEvent", false, "", [⟨"item_id", "itemId", "None"⟩], ["None"]⟩,
        ⟨"Buy", "BuyEvent1", true, "", [], []⟩,
        ⟨"buy", "BuyEvent2", false, "", [⟨"x", "x", "NONE"⟩], ["NONE"]⟩]) ∧
    (∃ rs', Shape.resolveCategory Target.python.scope false { shop with events := shopEvents } =
        .ok rs' ∧
      List.Forall₂ ResolvedEvent.Extends
        [⟨"buy", "BuyEvent", false, "", [⟨"item_id", "itemId", "None"⟩], ["None"]⟩,
          ⟨"Buy", "BuyEvent1", true, "", [], []⟩] rs') ∧
    ∃ g g' f base, (standard .python).Generates .memory {} [shop] g ∧
      (standard .python).Generates .memory
        ((standard .python).worldAfter .memory [.text "no plan", .category shop] {})
        [⟨"Shop", []⟩, shop] g' ∧
      g.files[0]? = some f ∧ g'.files[1]? = some f ∧
      g.files.getLast? = some base ∧ g'.files.getLast? = some base := by
  obtain ⟨_, hevents, hparameters, hfiles, _⟩ := growing_renames_nothing (standard .python)
  have hmore : Shape.resolveCategory Target.python.scope false
      { shop with events := shop.events ++ [returns] } = .ok
        [⟨"buy", "BuyEvent", false, "", [⟨"item_id", "itemId", "None"⟩], ["None"]⟩,
          ⟨"Buy", "BuyEvent1", true, "", [], []⟩,
          ⟨"buy", "BuyEvent2", false, "", [⟨"x", "x", "NONE"⟩], ["NONE"]⟩] := by decide +kernel
  have hshop : Shape.resolveCategory Target.python.scope false shop = .ok
        [⟨"buy", "BuyEvent", false, "", [⟨"item_id", "itemId", "None"⟩], ["None"]⟩,
          ⟨"Buy", "BuyEvent1", true, "", [], []⟩] := by decide +kernel
  refine ⟨?_, ?_, ?_⟩
  · obtain ⟨rs, _, _, hrs, hprefix, _⟩ := hevents shop [returns] _ hmore
    exact ⟨rs, hrs, hprefix⟩
  · have hextends : List.Forall₂ Event.Extends shop.events shopEvents :=
      .cons ⟨rfl, [⟨"itemId", "none"⟩], rfl⟩ (.cons ⟨rfl, [], rfl⟩ .nil)
    obtain ⟨rs', hrs', hextended, _⟩ := hparameters shop shopEvents _ hextends hshop
    exact ⟨rs', hrs', hextended⟩
  · have husable : (standard .python).Usable "analytics.events" := ⟨⟨_, rfl⟩, rfl, rfl, 4, rfl⟩
    obtain ⟨g, hg⟩ := generates_memory husable rfl {} [shop]
    obtain ⟨g', hg'⟩ := generates_memory husable rfl
      ((standard .python).worldAfter .memory [.text "no plan", .category shop] {})
      [⟨"Shop", []⟩, shop]
    obtain ⟨f, base, hf, hf', hbase, hbase', _⟩ := hfiles .memory .memory []
      [.text "no plan", .category shop] {} {} [] [] [⟨"Shop", []⟩] [] shop g g' hg hg'
    exact ⟨g, g', f, base, hg, hg', hf, hf', hbase, hbase'⟩

end Session
end EventCodegen
