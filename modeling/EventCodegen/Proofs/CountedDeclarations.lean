import EventCodegen.Proofs.ReadDeclarations
import EventCodegen.Proofs.SameEvents

/-! Counting what a run generates: in the plan (`Category.tally`), in what the run says about itself
(`Metadata.Describes`), and in the declarations of its files (`Source.tally`). All counts agree
(`counts_agree`), as the modules that are counted hold what the plan asks for
(`tally_of_ofCategory`) and their files declare what the modules hold (`exists_tally`). Above the
container of a category stands the package, as it is; one with line feeds in it can hold
declarations of its own (`package_with_type`). -/
namespace EventCodegen

/-! ## Counts -/

/-- Counts of the types for simple events, of the other types, and of constants. -/
structure Tally where
  singletons : Nat
  records : Nat
  constants : Nat
deriving DecidableEq, Repr

/-- An event without parameters, or with a single screen name and nothing else. -/
def Event.IsBare (e : Event) : Prop :=
  e.parameters = [] ∨ ∃ p, e.parameters = [p] ∧ p.key = screenKey

instance : DecidablePred Event.IsBare := fun e => decidable_of_iff _ e.simple_iff

theorem Event.isSimple_eq (e : Event) : e.isSimple = decide e.IsBare := by
  rw [Bool.eq_iff_iff, decide_eq_true_iff]
  exact e.simple_iff

/-- The predefined values of a category, each once. -/
def Category.predefinedValues (c : Category) : List String :=
  (c.allValues.filter (IsGivenValue ·)).eraseDups

/-- The names of the constants for the predefined values, each once. -/
def Category.constantNames (rules : Scope) (c : Category) : List String :=
  (c.predefinedValues.map (CategoryModule.constantName rules)).eraseDups

/-- What is to be generated for a category. -/
def Category.tally (rules : Scope) (c : Category) : Tally :=
  { singletons := (c.events.filter (·.IsBare)).length
    records := (c.events.filter (!decide ·.IsBare)).length
    constants := (c.constantNames rules).length }

/-- What the module of a category holds. -/
def CategoryModule.tally (m : CategoryModule) : Tally :=
  { singletons := (m.eventTypes.filter (·.isSimple)).length
    records := (m.eventTypes.filter (!·.isSimple)).length
    constants := m.constants.length }

namespace Source

/-! ## Counting declarations -/

namespace Entry

/-- The types that are declared, with whether they are for simple events. -/
def types : List Entry → List (String × Bool)
  | .mark isSimple :: .marked name :: rest => (name, isSimple) :: types rest
  | .type name isSimple :: rest => (name, isSimple) :: types rest
  | _ :: rest => types rest
  | [] => []

/-- The name of a constant that is assigned. -/
def constant? : Entry → Option String
  | constant name => some name
  | _ => none

/-- How much is declared. -/
def tally (entries : List Entry) : Tally :=
  { singletons := ((types entries).filter (·.2)).length
    records := ((types entries).filter (!·.2)).length
    constants := (entries.filterMap constant?).length }

end Entry

/-- How much the lines of a file declare. -/
def tally (t : Target) (lines : List (List Char)) : Tally :=
  Entry.tally (lines.filterMap fun line => Entry.read t (Layout.content line))

/-- The types are in their order, and nothing between them gets lost. -/
theorem types_memberEntries (t : Target) (m : CategoryModule) :
    Entry.types (memberEntries t m) = m.eventTypes.map fun e => (e.name, e.isSimple) := by
  have hconstants : ∀ ks : List Constant,
      Entry.types (ks.map fun k => .constant k.name) = [] := by
    intro ks
    induction ks with
    | nil => rfl
    | cons k rest ih => exact ih
  unfold memberEntries
  induction m.eventTypes with
  | nil => exact hconstants m.constants
  | cons e rest ih =>
    rw [List.flatMap_cons, List.append_assoc, List.map_cons, ← ih]
    cases t <;> rfl

theorem constants_memberEntries (t : Target) (m : CategoryModule) :
    (memberEntries t m).filterMap Entry.constant? = m.constants.map (·.name) := by
  have htypes : (m.eventTypes.flatMap (typeEntries · t)).filterMap Entry.constant? = [] := by
    rw [List.filterMap_flatMap, List.flatMap_eq_nil_iff]
    intro e _
    cases t <;> rfl
  rw [memberEntries, List.filterMap_append, htypes, List.nil_append, List.filterMap_map]
  exact congrFun List.filterMap_eq_map m.constants

theorem tally_memberEntries (t : Target) (m : CategoryModule) :
    Entry.tally (memberEntries t m) = m.tally := by
  unfold Entry.tally CategoryModule.tally
  rw [types_memberEntries, constants_memberEntries, List.filter_map, List.filter_map]
  simp only [List.length_map]
  rfl

/-! ## Counting in a laid-out file -/

/-- What neat lines declare is counted alike after the layout. -/
theorem tally_of_shown {t : Target} {ls : List Line} (h : AllNeat t ls) {n : Int}
    {lines : List (List Char)}
    (hlines : lines.filter (!·.isEmpty) = (shown t ls).map (Layout.reindent n)) :
    tally t lines = Entry.tally (readings t ls) := by
  have hnil : Entry.read t [] = none := plain_blank t
  rw [tally, filterMap_content hnil h hlines]
  rfl

section
variable {m : CategoryModule} {path : String} (hm : ({ m with path } : CategoryModule).Proper)
include hm

/-- Below its first line the container holds the module, whatever stands above it. -/
theorem exists_tally (t : Target) (comments : Bool) (package : String) (n : Int) :
    ∃ front members, Text.lines (Layout.format n (text t (categoryLines t comments package m))) =
      front ++ (containerLine m t).toList :: members ∧ tally t members = m.tally := by
  have hbelow := (allSound_belowContainer hm t comments).neat
  obtain ⟨front, members, hlines, hmembers⟩ := exists_below (aboveContainer comments package m t)
    (aboveContainer_ne_nil t comments package m) (sound_containerLine hm t).neat
    (opens_containerLine m t) hbelow n
  rw [categoryLines_split]
  refine ⟨front, members, hlines, ?_⟩
  rw [tally_of_shown hbelow hmembers, readings_belowContainer hm, tally_memberEntries]
  rfl

/-- With a package in one line the whole file holds nothing but the module. -/
theorem tally_lines (t : Target) (comments : Bool) {package segment : String}
    (hpackage : '\n' ∉ package.toList) (hsegment : Naming.isIdentifier segment.toList = true)
    (hpath : m.path = Naming.below package segment) (n : Int) :
    tally t (Text.lines (Layout.format n (text t (categoryLines t comments package m)))) =
      m.tally := by
  have hneat := allNeat_categoryLines hm t comments hpackage hsegment hpath
  have hlines := filter_lines_file hneat (categoryLines_ne_nil t comments package m) n
  rw [tally_of_shown hneat hlines, readings_categoryLines hm, tally_memberEntries]

end

end Source

/-! ## Counts of a plan -/

/-- The module of a category holds what is to be generated for the category. -/
theorem CategoryModule.tally_of_ofCategory {rules : Scope} {strict : Bool} {package : String}
    {c : Category} {m : CategoryModule} (h : ofCategory rules strict package c = .ok m) :
    m.tally = c.tally rules := by
  have htypes : List.Forall₂ (fun e type => decide e.IsBare = type.isSimple)
      c.events m.eventTypes := by
    refine (forall₂_eventTypes h).imp ?_
    rintro e type ⟨used, rfl⟩
    exact e.isSimple_eq.symm
  have hsingletons : (c.events.filter (·.IsBare)).length =
      (m.eventTypes.filter (·.isSimple)).length := length_filter_eq htypes fun _ _ he => he
  have hrecords : (c.events.filter (!decide ·.IsBare)).length =
      (m.eventTypes.filter (!·.isSimple)).length :=
    length_filter_eq htypes fun _ _ he => congrArg not he
  have hconstants : m.constants.length = (c.constantNames rules).length := by
    obtain ⟨events, hr, rfl⟩ := ofCategory_ok h
    have hvalues := Shape.predefinedValues_of_events hr
    have hnames := names_constantsFor rules (Shape.predefinedValues events)
    rw [hvalues] at hnames
    rw [Category.constantNames, Category.predefinedValues]
    show (constantsFor rules (Shape.predefinedValues events)).length = _
    rw [hvalues, ← List.length_map, hnames]
    rfl
  rw [CategoryModule.tally, Category.tally, hsingletons, hrecords, hconstants]

/-- Counts that are right for a plan. -/
structure Metadata.Describes (rules : Scope) (plan : List Category) (d : Metadata) : Prop where
  categories : d.categories = plan.length
  events : d.events = (plan.flatMap (·.events)).length
  split : d.events = d.simpleEvents + d.parameterizedEvents
  simpleEvents : d.simpleEvents = ((plan.flatMap (·.events)).filter (·.IsBare)).length
  constants : d.constants = (plan.map fun c => (c.constantNames rules).length).sum

theorem Metadata.describes_ofModules {rules : Scope} {strict : Bool} {package : String} (t : Target)
    (given : Json) {plan : List Category} {ms : List CategoryModule}
    (h : List.Forall₂ (fun c m => CategoryModule.ofCategory rules strict package c = .ok m)
      plan ms) : (ofModules t given ms).Describes rules plan where
  categories := h.length_eq.symm
  events := (length_flatMap_eq h fun _ _ hm =>
    (CategoryModule.forall₂_eventTypes hm).length_eq).symm
  split := List.length_eq_length_filter_add _
  simpleEvents := by
    show ((ms.flatMap (·.eventTypes)).filter (·.isSimple)).length = _
    rw [List.filter_flatMap, List.filter_flatMap]
    refine (length_flatMap_eq h fun _ _ hm => ?_).symm
    exact congrArg Tally.singletons (CategoryModule.tally_of_ofCategory hm).symm
  constants := by
    show (ms.flatMap (·.constants)).length = _
    rw [← List.length_flatMap]
    refine (length_flatMap_eq h fun _ _ hm => ?_).symm
    exact congrArg Tally.constants (CategoryModule.tally_of_ofCategory hm).symm

/-! ## Runs -/

namespace Session

/-- A file that declares what is to be generated for its category: below the line that begins the
container, and in all its lines unless the package has line feeds. -/
structure Tallies (s : Session) (c : Category) (m : CategoryModule) (f : GeneratedFile) :
    Prop where
  below : ∃ front members,
    Text.lines f.content.toList = front ++ (Source.containerLine m s.target).toList :: members ∧
    Source.tally s.target members = c.tally s.rules
  whole : '\n' ∉ s.settings.packageText.toList →
    Source.tally s.target (Text.lines f.content.toList) = c.tally s.rules

theorem tallies_of_built {s : Session} {c : Category} {m : CategoryModule} {f : GeneratedFile}
    (h : s.Built c (m, f)) : s.Tallies c m f := by
  obtain ⟨n, hcontent⟩ := exists_content h.2
  have hlist := congrArg String.toList hcontent
  rw [String.toList_ofList] at hlist
  have hproper := CategoryModule.proper_moved h.1
  have htally := CategoryModule.tally_of_ofCategory h.1
  constructor
  · rw [hlist, ← htally]
    exact Source.exists_tally hproper _ _ _ n
  · intro hpackage
    have hsegment := (s.target.apart_scope.allows_moduleName c.name).1
    rw [hlist, ← htally]
    exact Source.tally_lines hproper _ _ hpackage hsegment (CategoryModule.path_eq h.1) n

/-- What can be rendered can be held in memory. -/
theorem exists_generate_memory {s : Session} {text : String}
    (h : (s.rendered text).outcome.toOption.isSome) (w : World) :
    ∃ result w', (s.generate .memory text).apply w = (.ok result, w') := by
  cases hrendered : (s.rendered text).outcome with
  | error e =>
    rw [hrendered] at h
    cases h
  | ok g =>
    obtain ⟨last, hrun⟩ := generate_of_writes hrendered (Output.writes_memory g.files _)
    exact ⟨_, _, hrun⟩

/-- Whatever a run that goes through generates is counted alike in the plan, in what the run says
about itself, and in the files: there is one file for each category and the file of the base type;
the events are the simple ones and the others, the constants those of all categories; and each file
of a category declares a singleton for each simple event, a record for each other event, and a
constant for each name that predefined values have. A package in more than one line may add to that
above the container. -/
theorem counts_agree {s : Session} {output : Output} {text : String} {w w' : World}
    {result : Generation} (h : (s.generate output text).apply w = (.ok result, w')) :
    ∃ categories built base d, Plan.parse text = .ok categories ∧ s.baseFile = .ok base ∧
      result.files = built.map (·.2) ++ [base] ∧ result.metadata = some d ∧
      d.Describes s.rules categories ∧ d.categories + 1 = result.files.length ∧
      List.Forall₂ (fun c b => s.Built c b ∧ s.Tallies c b.1 b.2) categories built := by
  obtain ⟨g, _, _, hrendered, rfl, _, _⟩ := writes_of_generate h
  obtain ⟨categories, hplan, hgeneration⟩ := rendered_ok hrendered
  obtain ⟨built, base, hbuilt, hbase, hfiles, hmetadata⟩ := generation_parts hgeneration
  have hmodules : List.Forall₂ (fun c m => s.moduleOf c = .ok m) categories (built.map (·.1)) :=
    List.forall₂_map_right_iff.mpr (hbuilt.imp fun _ _ hb => hb.1)
  have hdescribes := Metadata.describes_ofModules s.target s.settings.package hmodules
  refine ⟨categories, built, base, _, hplan, hbase, hfiles, hmetadata, hdescribes, ?_,
    hbuilt.imp fun _ _ hb => ⟨hb, tallies_of_built hb⟩⟩
  show _ = g.files.length
  rw [hdescribes.categories, hfiles, List.length_append, List.length_map, hbuilt.length_eq]
  rfl

/-- One simple event, one with a field, and one predefined value. -/
theorem counts_agree_bookshop : ∃ result w' d f,
    ((standard .kotlin).generate .memory bookshopPlan).apply {} = (.ok result, w') ∧
    result.metadata = some d ∧ d.categories = 1 ∧ d.events = 2 ∧ d.simpleEvents = 1 ∧
    d.parameterizedEvents = 1 ∧ d.constants = 1 ∧ f ∈ result.files ∧
    Source.tally .kotlin (Text.lines f.content.toList) = ⟨1, 1, 1⟩ := by
  have hbookshop : Plan.parse bookshopPlan = .ok [bookshop] := by decide +kernel
  have htally : bookshop.tally Target.kotlin.scope = ⟨1, 1, 1⟩ := by decide +kernel
  have hok : ((standard .kotlin).rendered bookshopPlan).outcome.toOption.isSome := by
    decide +kernel
  obtain ⟨result, w', hrun⟩ := exists_generate_memory hok {}
  obtain ⟨categories, built, base, d, hplan, _, hfiles, hmetadata, hd, _, hbuilt⟩ :=
    counts_agree hrun
  obtain rfl := Except.ok.inj (hbookshop.symm.trans hplan)
  obtain ⟨b, _, ⟨_, htallies⟩, _, rfl⟩ := List.forall₂_cons_left_iff.mp hbuilt
  have hevents : d.events = 2 := hd.events
  have hsimple : d.simpleEvents = 1 := hd.simpleEvents.trans (by decide)
  have hconstants : d.constants = 1 := hd.constants.trans (by decide +kernel)
  have hsplit := hd.split
  refine ⟨result, w', d, b.2, hrun, hmetadata, hd.categories, hevents, hsimple, by omega,
    hconstants, ?_, (htallies.whole (by decide)).trans htally⟩
  rw [hfiles]
  exact List.mem_append_left _ List.mem_cons_self

/-- A package that imports something, declares a singleton and then goes on. -/
def typedPackage : String := "x import y\n@singleton\nclass Y(BaseEvent):\n    pass\nfrom z"

/-- A session with that package. -/
def withTypedPackage : Session :=
  let settings := { Generator.ownSettings .python with package := .text typedPackage }
  ⟨settings, ⟨.python, settings⟩⟩

/-- A plan with one category and no events. -/
def emptyShopPlan : String := "[\x7b\"name\": \"shop\"\x7d]"

theorem tally_of_typedPackage {m : CategoryModule} {f : GeneratedFile}
    (h : withTypedPackage.Built ⟨"shop", []⟩ (m, f)) :
    Source.tally .python (Text.lines f.content.toList) = ⟨1, 0, 0⟩ := by
  obtain ⟨hm, hf⟩ := h
  dsimp only at hm hf
  have hmodule : withTypedPackage.moduleOf ⟨"shop", []⟩ =
      .ok ⟨"shop", "ShopEvents", typedPackage ++ ".shop", [], []⟩ := by decide +kernel
  obtain rfl := Except.ok.inj (hmodule.symm.trans hm)
  obtain rfl := Except.ok.inj ((categoryFile_ok (n := 4) rfl _).symm.trans hf)
  rw [String.toList_ofList]
  decide +kernel

/-- The file of that category declares a singleton, which belongs to no event. -/
theorem package_with_type : ∃ result w' m f,
    (withTypedPackage.generate .memory emptyShopPlan).apply {} = (.ok result, w') ∧
    Plan.parse emptyShopPlan = .ok [⟨"shop", []⟩] ∧
    withTypedPackage.Built ⟨"shop", []⟩ (m, f) ∧ f ∈ result.files ∧
    Source.tally .python (Text.lines f.content.toList) = ⟨1, 0, 0⟩ ∧
    Category.tally withTypedPackage.rules ⟨"shop", []⟩ = ⟨0, 0, 0⟩ := by
  have hplan : Plan.parse emptyShopPlan = .ok [⟨"shop", []⟩] := by decide +kernel
  have hok : (withTypedPackage.rendered emptyShopPlan).outcome.toOption.isSome := by
    decide +kernel
  obtain ⟨result, w', hrun⟩ := exists_generate_memory hok {}
  obtain ⟨g, _, _, hrendered, rfl, _, _⟩ := writes_of_generate hrun
  obtain ⟨categories, hparsed, hgeneration⟩ := rendered_ok hrendered
  obtain rfl := Except.ok.inj (hplan.symm.trans hparsed)
  obtain ⟨built, base, hbuilt, _, hfiles⟩ := generation_ok hgeneration
  obtain ⟨⟨m, f⟩, _, hb, _, rfl⟩ := List.forall₂_cons_left_iff.mp hbuilt
  refine ⟨_, w', m, f, hrun, hplan, hb, ?_, tally_of_typedPackage hb, by decide +kernel⟩
  show f ∈ g.files
  rw [hfiles]
  exact List.mem_append_left _ List.mem_cons_self

end Session
end EventCodegen
