import EventCodegen.Proofs.PlanShape

/-! The first faulty node of a document. The nodes of an array are listed in document order, each
before those below it (`nodesOf`), and each is sound or faulty by itself: an object, its name a
text, its list or value of the right type, whatever stands below it (`Node.IsSound`,
`Node.HasFault`). Reading goes through the nodes in this order and stops at the first fault. This
is a property of lists of nodes that steps one after the other keep (`Reports.bind`); it holds of a
single node before its children (`reports_node`), so of lists of them (`reports_readAll`), and the
message begins with the path of the node (`first_fault_named`). -/
namespace EventCodegen.Plan

/-! ## Nodes in document order -/

/-- The items that a value has under a name: those of an array there. -/
def itemsAt (member : String) : Json → List Json
  | .obj fields => match Json.lookup member fields with
    | some (.arr items) => items
    | _ => []
  | _ => []

/-- An event and its parameters, each with the value that stands there. -/
def eventNodes (i j : Nat) (x : Json) : List (Node × Json) :=
  (.event i j, x) :: (itemsAt "parameters" x).zipIdx.map fun (y, k) => (.parameter i j k, y)

/-- A category, its events and their parameters. -/
def categoryNodes (i : Nat) (x : Json) : List (Node × Json) :=
  (.category i, x) :: (itemsAt "events" x).zipIdx.flatMap fun (y, j) => eventNodes i j y

/-- All nodes of an array of categories in document order. -/
def nodesOf (items : List Json) : List (Node × Json) :=
  items.zipIdx.flatMap fun (x, i) => categoryNodes i x

/-! ## Sound and faulty nodes -/

namespace Node

/-- The entry of a node that holds its list or its value. -/
def member : Node → String
  | category _ => "events"
  | event _ _ => "parameters"
  | parameter _ _ _ => "value"

/-- What the entry of a node may be: any list, as its items are nodes of their own, or a value. -/
def AllowsEntry : Node → Option Json → Prop
  | category _ => IsList fun _ => True
  | event _ _ => IsList fun _ => True
  | parameter _ _ _ => IsValue

/-- A node that is valid on its own. -/
def IsSound (node : Node) (x : Json) : Prop := IsNode node.member node.AllowsEntry x

end Node

/-- What is wrong with an entry that should be a list. -/
inductive ListFault (member : String) : Option Json → Problem → Prop
  | notArray {x : Json} : x ≠ .null → (∀ items, x ≠ .arr items) →
    ListFault member (some x) (.notArray member x.typeName)

/-- What is wrong with the value of a parameter. -/
inductive ValueFault (key : String) : Option Json → Problem → Prop
  | array (items : List Json) : ValueFault key (some (.arr items)) (.valueType key "array")
  | object (fields : Json.Fields) : ValueFault key (some (.obj fields)) (.valueType key "object")
  | broken (clean : String) (surrogate : Nat) (rest : List Nat) :
    ValueFault key (some (.str (.broken clean surrogate rest))) (.valueBroken key clean.length)

/-- What is wrong with the entry of a node that is called `name`. -/
def Node.EntryFault (name : String) : Node → Option Json → Problem → Prop
  | .category _ => ListFault "events"
  | .event _ _ => ListFault "parameters"
  | .parameter _ _ _ => ValueFault name

/-- What is wrong with a node by itself. It is checked as an object, then its name, then its list
or value, and the first of these that fails is the fault. -/
inductive Node.HasFault (node : Node) : Json → Problem → Prop
  | notObject {x : Json} : (∀ fields, x ≠ .obj fields) → HasFault node x (.notObject x.typeName)
  | nameMissing {fields : Json.Fields} : (∀ s, Json.lookup "name" fields ≠ some (.str s)) →
    HasFault node (.obj fields) .nameMissing
  | nameBroken {fields : Json.Fields} {clean : String} {surrogate : Nat} {rest : List Nat} :
    Json.lookup "name" fields = some (.str (.broken clean surrogate rest)) →
    HasFault node (.obj fields) (.nameBroken clean.length)
  | entry {fields : Json.Fields} {name : String} {problem : Problem} :
    Json.lookup "name" fields = some (.str (.text name)) →
    node.EntryFault name (Json.lookup node.member fields) problem →
    HasFault node (.obj fields) problem

theorem not_isText_broken (clean : String) (surrogate : Nat) (rest : List Nat) :
    ¬IsText (.broken clean surrogate rest) := by
  rw [isText_iff]
  rintro ⟨t, ht⟩
  cases ht

theorem ListFault.not_isList {member : String} {entry : Option Json} {problem : Problem}
    (h : ListFault member entry problem) {P : Json → Prop} : ¬IsList P entry := by
  intro hlist
  cases h with
  | notArray hnull harray =>
    cases hlist with
    | null => exact hnull rfl
    | array _ => exact harray _ rfl

theorem ValueFault.not_isValue {key : String} {entry : Option Json} {problem : Problem}
    (h : ValueFault key entry problem) : ¬IsValue entry := by
  intro hvalue
  cases h with
  | array _ => cases hvalue
  | object _ => cases hvalue
  | broken clean surrogate rest =>
    cases hvalue with
    | str htext => exact not_isText_broken clean surrogate rest htext

theorem Node.EntryFault.not_allowsEntry {node : Node} {name : String} {entry : Option Json}
    {problem : Problem} (h : node.EntryFault name entry problem) : ¬node.AllowsEntry entry := by
  cases node with
  | category _ => exact ListFault.not_isList h
  | event _ _ => exact ListFault.not_isList h
  | parameter _ _ _ => exact ValueFault.not_isValue h

/-- A node with a fault is not valid on its own. -/
theorem Node.HasFault.not_isSound {node : Node} {x : Json} {problem : Problem}
    (h : node.HasFault x problem) : ¬node.IsSound x := by
  rintro ⟨hname, htext, hentry⟩
  cases h with
  | notObject hobject => exact hobject _ rfl
  | nameMissing hmissing => exact hmissing _ hname
  | nameBroken hbroken =>
    rw [hname] at hbroken
    cases hbroken
    exact not_isText_broken _ _ _ htext
  | entry _ hfault => exact hfault.not_allowsEntry hentry

/-! ## Reading nodes in order -/

variable {α β γ : Type}

/-- What comes of reading some nodes in order: all of them are sound, or the first one that is not
is reported with its fault. -/
inductive Reports (nodes : List (Node × Json)) : Except PlanError α → Prop
  | sound {a : α} : (∀ n ∈ nodes, n.1.IsSound n.2) → Reports nodes (.ok a)
  | fault {before after : List (Node × Json)} {node : Node} {x : Json}
    {surroundings : Surroundings} {problem : Problem} :
    nodes = before ++ (node, x) :: after → (∀ n ∈ before, n.1.IsSound n.2) →
    node.HasFault x problem → Reports nodes (.error (.faulty node surroundings problem))

namespace Reports

variable {ms ns : List (Node × Json)} {r : Except PlanError α} {f : α → Except PlanError β}

/-- A fault among the first nodes is the first of all. -/
theorem bind (h : Reports ms r) (hnext : ∀ a, r = .ok a → Reports ns (f a)) :
    Reports (ms ++ ns) (r >>= f) := by
  cases h with
  | @fault before after node x surroundings problem heq hbefore hfault =>
    have hsplit : ms ++ ns = before ++ (node, x) :: (after ++ ns) := by
      rw [heq, List.append_assoc, List.cons_append]
    exact .fault hsplit hbefore hfault
  | @sound a hms =>
    show Reports (ms ++ ns) (f a)
    have hrest := hnext a rfl
    generalize f a = r' at hrest
    cases hrest with
    | sound hns => exact .sound (List.forall_mem_append.mpr ⟨hms, hns⟩)
    | @fault before after node x surroundings problem heq hbefore hfault =>
      have hsplit : ms ++ ns = (ms ++ before) ++ (node, x) :: after := by
        rw [heq, List.append_assoc]
      exact .fault hsplit (List.forall_mem_append.mpr ⟨hms, hbefore⟩) hfault

/-- A sound node before the others changes nothing. -/
theorem cons {node : Node} {x : Json} (hsound : node.IsSound x) (h : Reports ns r) :
    Reports ((node, x) :: ns) r := by
  have hself : Reports [(node, x)] (.ok () : Except PlanError Unit) :=
    .sound (List.forall_mem_singleton.mpr hsound)
  exact hself.bind (f := fun _ => r) fun _ _ => h

/-- What is made of the results is of no concern. -/
theorem map (h : Reports ms r) (g : α → β) : Reports ms (r >>= fun a => .ok (g a)) := by
  have hbind : Reports (ms ++ []) (r >>= fun a => .ok (g a)) :=
    h.bind fun a _ => .sound (List.forall_mem_nil _)
  rwa [List.append_nil] at hbind

end Reports

/-- Items of a list are read in order if each is read with the nodes below it. -/
theorem reports_readAll {read : Nat → Json → Except PlanError α}
    {below : Json × Nat → List (Node × Json)}
    (h : ∀ place x, Reports (below (x, place)) (read place x))
    (place : Nat) (items : List Json) :
    Reports ((items.zipIdx place).flatMap below) (readAll read place items) := by
  induction items generalizing place with
  | nil => exact .sound (List.forall_mem_nil _)
  | cons x rest ih =>
    rw [List.zipIdx_cons, List.flatMap_cons, readAll]
    exact (h place x).bind fun a _ => (ih (place + 1)).map (a :: ·)

/-- What comes of reading a part of a node that has to satisfy `P`, where `Fault` is what may be
wrong with it. -/
inductive Checks {δ : Type} (P : δ → Prop) (Fault : δ → Problem → Prop) (node : Node) (x : δ) :
    Except PlanError β → Prop
  | ok {b : β} : P x → Checks P Fault node x (.ok b)
  | error {surroundings : Surroundings} {problem : Problem} : Fault x problem →
    Checks P Fault node x (.error (.faulty node surroundings problem))

/-- A name is read if it is a text, and is a fault of the node otherwise. -/
theorem nameOf_cases (node : Node) (surroundings : Surroundings) (fields : Json.Fields) :
    (∃ name, nameOf node surroundings fields = .ok name ∧
      Json.lookup "name" fields = some (.str (.text name))) ∨
    ∃ problem, nameOf node surroundings fields = .error (.faulty node surroundings problem) ∧
      node.HasFault (.obj fields) problem := by
  unfold nameOf
  split
  · next name hname => exact .inl ⟨name, rfl, hname⟩
  · next hbroken => exact .inr ⟨_, rfl, .nameBroken hbroken⟩
  · next htext hbroken =>
    refine .inr ⟨_, rfl, .nameMissing fun s hs => ?_⟩
    cases s with
    | text name => exact htext name hs
    | broken clean surrogate rest => exact hbroken clean surrogate rest hs

/-- A node is read before its children: as an object, then its name, then its entry. -/
theorem reports_node {node : Node} (surroundings surroundings' : Surroundings)
    {entry : String → Json.Fields → Except PlanError β} {next : String → β → Except PlanError γ}
    {children : List (Node × Json)} {x : Json}
    (hentry : ∀ name fields, Checks node.AllowsEntry (node.EntryFault name) node
      (Json.lookup node.member fields) (entry name fields))
    (hnext : ∀ fields name b, x = .obj fields → entry name fields = .ok b →
      Reports children (next name b)) :
    Reports ((node, x) :: children) (do
      let fields ← asObject node surroundings x
      let name ← nameOf node surroundings' fields
      let b ← entry name fields
      next name b) := by
  -- the node is the first of all, so nothing has to be sound before its fault
  have hfirst : ∀ {s : Surroundings} {problem : Problem}, node.HasFault x problem →
      Reports ((node, x) :: children) (.error (.faulty node s problem) : Except PlanError γ) :=
    fun hfault => .fault (List.nil_append _).symm (List.forall_mem_nil _) hfault
  cases x with
  | obj fields =>
    show Reports ((node, .obj fields) :: children) (do
      let name ← nameOf node surroundings' fields
      let b ← entry name fields
      next name b)
    obtain ⟨name, hname, hlookup⟩ | ⟨problem, hname, hfault⟩ :=
      nameOf_cases node surroundings' fields
    · rw [hname]
      show Reports _ (do let b ← entry name fields; next name b)
      have hchecks := hentry name fields
      generalize hb : entry name fields = outcome at hchecks
      cases hchecks with
      | error hfault => exact hfirst (.entry hlookup hfault)
      | ok hallowed =>
        have hsound : node.IsSound (.obj fields) :=
          .object hlookup (isText_iff.mpr ⟨name, rfl⟩) hallowed
        exact Reports.cons hsound (hnext fields name _ rfl hb)
    · rw [hname]
      exact hfirst hfault
  | _ => exact hfirst (.notObject nofun)

/-! ## The three kinds of nodes -/

theorem checks_listOf (node : Node) (surroundings : Surroundings) (member : String)
    (fields : Json.Fields) :
    Checks (IsList fun _ => True) (ListFault member) node (Json.lookup member fields)
      (listOf node surroundings member fields) := by
  unfold listOf
  cases Json.lookup member fields with
  | none => exact .ok .missing
  | some x =>
    cases x with
    | null => exact .ok .null
    | arr items => exact .ok (.array fun _ _ => trivial)
    | _ => exact .error (.notArray nofun nofun)

/-- The list that is read is that of the nodes below. -/
theorem itemsAt_of_listOf {node : Node} {surroundings : Surroundings} {member : String}
    {fields : Json.Fields} {items : List Json}
    (h : listOf node surroundings member fields = .ok items) :
    itemsAt member (.obj fields) = items := by
  unfold listOf at h
  unfold itemsAt
  split at h <;> cases h <;> simp only [*]

theorem checks_valueOf (node : Node) (surroundings : Surroundings) (key : String)
    (fields : Json.Fields) :
    Checks IsValue (ValueFault key) node (Json.lookup "value" fields)
      (valueOf node surroundings key fields) := by
  unfold valueOf
  cases Json.lookup "value" fields with
  | none => exact .ok .missing
  | some x =>
    cases x with
    | null => exact .ok .null
    | bool b => exact .ok (.bool b)
    | int n => exact .ok (.int n)
    | float y => exact .ok (.float y)
    | arr items => exact .error (.array items)
    | obj members => exact .error (.object members)
    | str s =>
      cases s with
      | text t => exact .ok (.str (isText_iff.mpr ⟨t, rfl⟩))
      | broken clean surrogate rest => exact .error (.broken clean surrogate rest)

theorem reports_readParameter (i j k : Nat) (event : String) (x : Json) :
    Reports [(.parameter i j k, x)] (readParameter (.parameter i j k) event x) :=
  reports_node (.inEvent event) (.inEvent event)
    (fun key fields => checks_valueOf (.parameter i j k) (.inEvent event) key fields)
    fun _ _ _ _ _ => .sound (List.forall_mem_nil _)

theorem reports_readEvent (i : Nat) (category : String) (j : Nat) (x : Json) :
    Reports (eventNodes i j x) (readEvent i category j x) := by
  refine reports_node (.inCategory category) .none
    (fun name fields => checks_listOf (.event i j) (.inEvent name) "parameters" fields) ?_
  rintro fields name items rfl hitems
  rw [itemsAt_of_listOf hitems, List.map_eq_flatMap]
  exact (reports_readAll (fun k y => reports_readParameter i j k name y) 0 items).map _

theorem reports_readCategory (i : Nat) (x : Json) :
    Reports (categoryNodes i x) (readCategory i x) := by
  refine reports_node .none .none
    (fun _ fields => checks_listOf (.category i) .none "events" fields) ?_
  rintro fields name items rfl hitems
  rw [itemsAt_of_listOf hitems]
  exact (reports_readAll (fun j y => reports_readEvent i name j y) 0 items).map _

theorem reports_ofJson (items : List Json) : Reports (nodesOf items) (ofJson (.arr items)) := by
  unfold nodesOf ofJson
  exact reports_readAll (fun i x => reports_readCategory i x) 0 items

/-! ## The message -/

/-- The path of the node is followed by a colon or, where its surroundings are named, a bracket. -/
theorem message_faulty (node : Node) (surroundings : Surroundings) (problem : Problem) : ∃ rest,
    (PlanError.faulty node surroundings problem).message = node.path ++ rest ∧
      ((∃ t, rest = ":" ++ t) ∨ ∃ t, rest = " (" ++ t) := by
  refine ⟨surroundings.text ++ (": " ++ problem.message), ?_, ?_⟩
  · rw [← String.append_assoc, ← String.append_assoc]
    rfl
  · cases surroundings with
    | none =>
      refine Or.inl ⟨" " ++ problem.message, ?_⟩
      rw [← String.append_assoc]
      rfl
    | inCategory name =>
      refine Or.inr ⟨"category '" ++ name ++ "')" ++ (": " ++ problem.message), ?_⟩
      simp only [Surroundings.text, ← String.append_assoc]
      rfl
    | inEvent name =>
      refine Or.inr ⟨"event '" ++ name ++ "')" ++ (": " ++ problem.message), ?_⟩
      simp only [Surroundings.text, ← String.append_assoc]
      rfl

/-- An array is read exactly if all of its nodes are sound. Otherwise the message begins with the
path of the first one in document order that is not, and a colon or a bracket follows; what it says
of the node is the first check that the node fails. -/
theorem first_fault_named (items : List Json) :
    match ofJson (.arr items) with
    | .ok _ => ∀ n ∈ nodesOf items, n.1.IsSound n.2
    | .error e => (Failure.plan e).kind = "SchemaParseError" ∧
      ∃ before node x after surroundings problem,
        nodesOf items = before ++ (node, x) :: after ∧
        (∀ n ∈ before, n.1.IsSound n.2) ∧ ¬node.IsSound x ∧ node.HasFault x problem ∧
        e = .faulty node surroundings problem ∧
        ∃ rest, (Failure.plan e).message = node.path ++ rest ∧
          ((∃ t, rest = ":" ++ t) ∨ ∃ t, rest = " (" ++ t) := by
  have hreports := reports_ofJson items
  generalize ofJson (.arr items) = read at hreports
  cases hreports with
  | sound hsound => exact hsound
  | fault heq hbefore hfault =>
    exact ⟨rfl, _, _, _, _, _, _, heq, hbefore, hfault.not_isSound, hfault, rfl,
      message_faulty _ _ _⟩

/-- An event without a name is faulty whatever its parameters are, and comes before them. -/
example : (ofJson (.arr [.obj [("name", .str (.text "shop")), ("events", .arr [
      .obj [("parameters", .arr [.null])], .null])]])) =
    .error (.faulty (.event 0 0) .none .nameMissing) := by rfl

end EventCodegen.Plan
